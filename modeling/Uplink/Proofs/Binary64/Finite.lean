import Uplink.Proofs.Binary64.Rounding

/-! Finite numbers of the format: what their operations round, which whole numbers are exact, and
their order, which rounding keeps. -/

namespace Uplink.Binary64

variable {s t : Bool} {n u v : Nat}

theorem spacing_dvd_mul_one (h : n ≤ 2 ^ 53) : spacing (n * one) ∣ n * one := by
  rw [one_eq_two_pow]
  exact spacing_dvd_mul_two_pow 1074 h

theorem onGrid_two_pow {j : Nat} (h : j < 2098) : OnGrid (2 ^ j) := by
  refine ⟨?_, spacing_dvd_two_pow j⟩
  rw [overflow_eq_two_pow]
  exact Nat.pow_lt_pow_right (by decide) h

theorem two_pow_mul_one (j : Nat) : 2 ^ j * one = 2 ^ (j + 1074) := by
  rw [one_eq_two_pow, Nat.pow_add]

theorem onGrid_mul_one (h : n ≤ 2 ^ 53) : OnGrid (n * one) := by
  refine ⟨Nat.lt_of_le_of_lt (Nat.mul_le_mul_right one h) ?_, spacing_dvd_mul_one h⟩
  rw [two_pow_mul_one]
  exact (onGrid_two_pow (by decide)).1

/-- From `2^53` on, numbers of the format are even. -/
theorem two_mul_one_dvd_spacing (h : 2 ^ 53 * one ≤ u) : 2 * one ∣ spacing u := by
  have hstart : spacing (2 ^ 53 * one) = 2 * one := by
    rw [two_pow_mul_one, spacing_two_pow, one_eq_two_pow, ← Nat.pow_succ']
  rw [← hstart]
  exact spacing_le_spacing h

/-- A quotient up to a number of the format rounds to a finite number. -/
theorem ofQuotient_eq_finite {d : Nat} (negative : Bool) (hu : OnGrid u) (h : n ≤ u * d) :
    ∃ onGrid, ofQuotient negative n d = .finite negative (nearestUnits n d) onGrid := by
  have hlt := Nat.lt_of_le_of_lt (nearestUnits_le hu.2 h) hu.1
  exact ⟨onGrid_nearestUnits hlt, dif_pos hlt⟩

theorem ofQuotient_of_isFinite {d : Nat} (h : (ofQuotient s n d).isFinite = true) :
    ∃ onGrid, ofQuotient s n d = .finite s (nearestUnits n d) onGrid := by
  unfold ofQuotient at h ⊢
  split
  · next hlt => exact ⟨onGrid_nearestUnits hlt, rfl⟩
  · next hlt =>
    rw [dif_neg hlt] at h
    cases h

theorem ofNat_of_onGrid (h : OnGrid (n * one)) : ofNat n = .finite false (n * one) h := by
  obtain ⟨_, heq⟩ := ofQuotient_eq_finite (d := 1) false h (Nat.le_of_eq (Nat.mul_one _).symm)
  simp only [ofNat, heq, nearestUnits_self h.2]

theorem ofNat_of_le (h : n ≤ 2 ^ 53) : ofNat n = .finite false (n * one) (onGrid_mul_one h) :=
  ofNat_of_onGrid _

theorem mul_finite (hu : OnGrid u) (hv : OnGrid v) :
    finite s u hu * finite t v hv = ofQuotient (s != t) (u * v) one := by
  simp only [HMul.hMul, Mul.mul, mul]

theorem isFinite_infinite_mul (hu : OnGrid u) : (infinite s * finite t u hu).isFinite = false := by
  simp only [HMul.hMul, Mul.mul, mul]
  split <;> rfl

theorem add_finite (hu : OnGrid u) (hv : OnGrid v) :
    finite s u hu + finite s v hv = ofQuotient s (u + v) 1 := if_pos rfl

theorem div_finite (hu : OnGrid u) (hv : OnGrid v) (hne : v ≠ 0) :
    finite s u hu / finite t v hv = ofQuotient (s != t) (u * one) v := if_neg hne

theorem le_finite (hu : OnGrid u) (hv : OnGrid v) :
    (finite s u hu).le (finite t v hv) = true ↔ (finite s u hu).units ≤ (finite t v hv).units := by
  simp only [le, lt, eq, Bool.or_eq_true, decide_eq_true_eq, beq_iff_eq]
  omega

theorem le_finite_false (hu : OnGrid u) (hv : OnGrid v) :
    (finite false u hu).le (finite false v hv) = true ↔ u ≤ v := by
  rw [le_finite]
  exact Int.ofNat_le

theorem lt_finite_false (hu : OnGrid u) (hv : OnGrid v) :
    (finite false u hu).lt (finite false v hv) = true ↔ u < v := by
  simp only [lt, decide_eq_true_eq]
  exact Int.ofNat_lt

/-- A finite number above zero has no sign. -/
theorem eq_finite_of_positive {x : Binary64} (hx : x.isFinite = true) (hpos : x.le zero = false) :
    ∃ u onGrid, x = finite false u onGrid ∧ 0 < u := by
  rw [← Bool.not_eq_true] at hpos
  cases x with
  | nan => cases hx
  | infinite => cases hx
  | finite s u hu =>
    rw [zero, le_finite] at hpos
    cases s with
    | true => exact absurd (Int.neg_nonpos_of_nonneg (Int.natCast_nonneg u)) hpos
    | false =>
      exact ⟨u, hu, rfl, Nat.pos_of_ne_zero fun h => hpos (Int.ofNat_le.mpr (Nat.le_of_eq h))⟩

/-- What is no less than a positive number is positive. -/
theorem le_zero_of_le {x y : Binary64} (hx : x.isFinite = true) (hy : y.isFinite = true)
    (hle : x.le y = true) (hpos : x.le zero = false) : y.le zero = false := by
  obtain ⟨u, hu, rfl, hu0⟩ := eq_finite_of_positive hx hpos
  cases y with
  | nan => cases hy
  | infinite => cases hy
  | finite t v hv =>
    rw [le_finite] at hle
    rw [zero, ← Bool.not_eq_true, le_finite]
    exact fun h => Nat.not_le.mpr hu0 (Int.ofNat_le.mp (Int.le_trans hle h))

/-- Where it stays finite, rounding keeps the order of quotients, of which those with a sign are
zero. -/
theorem ofQuotient_mono {sign : Bool} {m n d : Nat} (h : m ≤ n) (hsign : sign = true → n = 0)
    (hn : (ofQuotient sign n d).isFinite = true) : (ofQuotient sign m d).isFinite = true ∧
      (ofQuotient sign m d).le (ofQuotient sign n d) = true := by
  have hle : nearestUnits m d ≤ nearestUnits n d := nearestUnits_mono h
  by_cases hlt : nearestUnits n d < overflow
  · rw [ofQuotient, ofQuotient, dif_pos hlt, dif_pos (Nat.lt_of_le_of_lt hle hlt)]
    refine ⟨rfl, ?_⟩
    cases sign with
    | false => exact (le_finite_false _ _).mpr hle
    | true =>
      obtain rfl := hsign rfl
      obtain rfl := Nat.le_zero.mp h
      exact (le_finite _ _).mpr (Int.le_refl _)
  · rw [ofQuotient, dif_neg hlt] at hn
    cases hn

theorem toNanos_le_toNanos (hu : OnGrid u) (hv : OnGrid v) (h : u ≤ v) :
    (finite false u hu).toNanos ≤ (finite false v hv).toNanos :=
  roundQuotient_mono (Nat.mul_le_mul_right _ h)

end Uplink.Binary64

import Mathlib.Algebra.Order.Field.Power
import Uplink.Binary64.Shortest
import Uplink.Proofs.Binary64.Accuracy
import Uplink.Proofs.Binary64.Digits
import Uplink.Proofs.Binary64.Finite

/-! The shortest decimal of a number: it rounds to the number, it has seventeen digits at most and
none behind the 324th place, and no decimal with fewer digits rounds to the number. -/

namespace Uplink.Binary64

variable {c n d u : Nat} {k : Int}

/-- The value of a decimal in units. -/
def Decimal.units (d : Decimal) : ℚ := d.digits * 10 ^ d.exponent * one

/-- Zeros at the end of the digits count for as many powers of ten. -/
theorem Decimal.units_mul_pow (c i : Nat) (k : Int) :
    (Decimal.mk (c * 10 ^ i) k).units = (Decimal.mk c (k + i)).units := by
  rw [units, units, zpow_add₀ (by norm_num), zpow_natCast]
  push_cast
  ring

/-! ### Decimals that read back -/

/-- Decimals of the range of the format are rounded as quotients. -/
theorem ofDecimal_eq (hc : c ≠ 0) (hlow : -340 ≤ k) (hhigh : k ≤ 400) : ∃ n d : Nat, 0 < d ∧
    (n : ℚ) / d = (Decimal.mk c k).units ∧ ∀ s, ofDecimal s c k = ofQuotient s n d := by
  rcases Int.lt_or_le k 0 with hk | hk
  · obtain ⟨e, rfl⟩ := Int.exists_eq_neg_ofNat (Int.le_of_lt hk)
    refine ⟨c * one, 10 ^ e, Nat.pow_pos (by decide), ?_, fun s => ?_⟩
    · rw [Decimal.units, zpow_neg, zpow_natCast]
      push_cast
      ring
    · have hplaces : ¬digitCount c + 340 < (- -(e : Int)).toNat := by omega
      rw [ofDecimal, if_neg hc, if_neg (by omega), if_neg hplaces, neg_neg, Int.toNat_natCast]
      rfl
  · obtain ⟨e, rfl⟩ := Int.eq_ofNat_of_zero_le hk
    refine ⟨c * 10 ^ e * one, 1, Nat.one_pos, ?_, fun s => ?_⟩
    · rw [Decimal.units, zpow_natCast]
      push_cast
      ring
    · rw [ofDecimal, if_neg hc, if_pos hk, if_neg (by omega), Int.toNat_natCast]
      rfl

theorem readsBack_of_roundsTo (hu : OnGrid u) (hc : c ≠ 0) (hlow : -340 ≤ k) (hhigh : k ≤ 400)
    (h : RoundsTo (Decimal.mk c k).units u) : readsBack u c k = true := by
  obtain ⟨n, d, hd, hvalue, hround⟩ := ofDecimal_eq hc hlow hhigh
  have hnearest := h.nearestUnits_eq hd hvalue
  have hlt : nearestUnits n d < overflow := hnearest ▸ hu.1
  rw [readsBack, hround, ofQuotient, dif_pos hlt]
  exact beq_iff_eq.mpr hnearest

theorem readsBack_of_lt_reach (hu : OnGrid u) (hc : c ≠ 0) (hlow : -340 ≤ k) (hhigh : k ≤ 400)
    (h : |(Decimal.mk c k).units - u| < reach u) : readsBack u c k = true := by
  obtain ⟨n, d, hd, hvalue, -⟩ := ofDecimal_eq hc hlow hhigh
  rw [← hvalue] at h
  exact readsBack_of_roundsTo hu hc hlow hhigh
    ⟨n, d, hd, hvalue, nearestUnits_eq_of_lt_reach hd hu.2 h⟩

/-- A decimal between one that rounds to a number and the number itself reads back. -/
theorem readsBack_of_between {v : ℚ} (hu : OnGrid u) (hc : c ≠ 0) (hlow : -340 ≤ k)
    (hhigh : k ≤ 400) (hv : RoundsTo v u) (hmin : min v u ≤ (Decimal.mk c k).units)
    (hmax : (Decimal.mk c k).units ≤ max v u) : readsBack u c k = true := by
  obtain ⟨n, d, hd, hvalue, -⟩ := ofDecimal_eq hc hlow hhigh
  exact readsBack_of_roundsTo hu hc hlow hhigh (hv.between hu.2 hd hvalue hmin hmax)

theorem roundsTo_of_readsBack (hu : u ≠ 0) (hlow : -340 ≤ k) (hhigh : k ≤ 400)
    (h : readsBack u c k = true) : c ≠ 0 ∧ RoundsTo (Decimal.mk c k).units u := by
  have hc : c ≠ 0 := by
    rintro rfl
    rw [readsBack, ofDecimal, if_pos rfl] at h
    exact hu (beq_iff_eq.mp h).symm
  obtain ⟨n, d, hd, hvalue, hround⟩ := ofDecimal_eq hc hlow hhigh
  refine ⟨hc, n, d, hd, hvalue, ?_⟩
  rw [readsBack, hround, ofQuotient] at h
  split at h
  · next hx =>
    split at hx
    · injection hx with _ hv
      exact hv.trans (beq_iff_eq.mp h)
    · cases hx
  · cases h

theorem scaled_eq (u : Nat) (k : Int) : 0 < (scaled u k).2 ∧
    ((scaled u k).1 : ℚ) / (scaled u k).2 = u / (10 ^ k * one) := by
  unfold scaled
  split
  · next hk =>
    obtain ⟨e, rfl⟩ := Int.eq_ofNat_of_zero_le hk
    refine ⟨Nat.mul_pos one_pos (Nat.pow_pos (Nat.succ_pos 9)), ?_⟩
    simp only [Int.toNat_natCast, zpow_natCast, Nat.pow_eq]
    rw [Nat.cast_mul, Nat.cast_pow, Nat.cast_ofNat, mul_comm]
  · next hk =>
    obtain ⟨e, rfl⟩ := Int.exists_eq_neg_ofNat (Int.le_of_lt (Int.not_le.mp hk))
    refine ⟨one_pos, ?_⟩
    simp only [neg_neg, Int.toNat_natCast, zpow_neg, zpow_natCast, Nat.pow_eq]
    rw [Nat.cast_mul, Nat.cast_pow, Nat.cast_ofNat, ← div_div, div_inv_eq_mul]

/-! ### The search -/

/-- A number lies between two multiples of a power of ten, of which the lower is not zero if the
power is not above it. -/
theorem exists_multiples (hstep : (10 : ℚ) ^ k * one ≤ u) : ∃ low, 0 < low ∧
    (scaled u k).1 / (scaled u k).2 = low ∧ (Decimal.mk low k).units ≤ u ∧
      u < (Decimal.mk (low + 1) k).units := by
  obtain ⟨hd, hvalue⟩ := scaled_eq u k
  have hpow : (0 : ℚ) < 10 ^ k * one := mul_pos (zpow_pos (by norm_num) k) one_cast_pos
  have hdpos : (0 : ℚ) < (scaled u k).2 := Nat.cast_pos.mpr hd
  have hfloor : (((scaled u k).1 / (scaled u k).2 : Nat) : ℚ) ≤ u / (10 ^ k * one) :=
    hvalue ▸ Nat.cast_div_le
  have hnext : u / (10 ^ k * one) < (((scaled u k).1 / (scaled u k).2 : Nat) : ℚ) + 1 := by
    rw [← hvalue, div_lt_iff₀ hdpos]
    exact_mod_cast (Nat.div_lt_iff_lt_mul hd).mp (Nat.lt_succ_self _)
  generalize (scaled u k).1 / (scaled u k).2 = low at *
  refine ⟨low, Nat.pos_of_ne_zero ?_, rfl, ?_, ?_⟩
  · rintro rfl
    have := (one_le_div hpow).mpr hstep
    rw [Nat.cast_zero, zero_add] at hnext
    linarith
  · rw [Decimal.units, mul_assoc]
    exact (le_div_iff₀ hpow).mp hfloor
  · rw [Decimal.units, mul_assoc]
    push_cast
    exact (div_lt_iff₀ hpow).mp hnext

theorem nearestMultiple?_isSome {low : Nat} (hdiv : (scaled u k).1 / (scaled u k).2 = low)
    (hreads : readsBack u low k = true ∨ readsBack u (low + 1) k = true) :
    (nearestMultiple? u k).isSome = true := by
  simp only [nearestMultiple?, hdiv]
  rcases hreads with hreads | hreads
  · rcases Bool.eq_false_or_eq_true (readsBack u (low + 1) k) with hnext | hnext <;>
      simp only [hreads, hnext]
    · split <;> rfl
    · rfl
  · rcases Bool.eq_false_or_eq_true (readsBack u low k) with hprevious | hprevious <;>
      simp only [hreads, hprevious]
    · split <;> rfl
    · rfl

/-- Of the multiples of a power of ten less than twice the reach of a number, one reads back. -/
theorem nearestMultiple?_of_lt_reach (hu : OnGrid u) (hlow : -340 ≤ k) (hhigh : k ≤ 400)
    (hstep : (10 : ℚ) ^ k * one ≤ u) (hreach : (10 : ℚ) ^ k * one < 2 * reach u) :
    (nearestMultiple? u k).isSome = true := by
  obtain ⟨low, hpos, hdiv, hbelow, habove⟩ := exists_multiples hstep
  have hgap : (Decimal.mk (low + 1) k).units = (Decimal.mk low k).units + 10 ^ k * one := by
    rw [Decimal.units, Decimal.units]
    push_cast
    ring
  refine nearestMultiple?_isSome hdiv ?_
  rcases lt_or_ge (u - (Decimal.mk low k).units) (reach u) with hnear | hfar
  · left
    refine readsBack_of_lt_reach hu (Nat.ne_of_gt hpos) hlow hhigh ?_
    rwa [abs_sub_comm, abs_of_nonneg (sub_nonneg.mpr hbelow)]
  · right
    refine readsBack_of_lt_reach hu (Nat.succ_ne_zero low) hlow hhigh ?_
    rw [abs_of_pos (sub_pos.mpr habove)]
    linarith

/-- If a value rounds to a number and is not strictly between its two multiples of a power of ten,
one of these reads back. -/
theorem nearestMultiple?_of_roundsTo {v : ℚ} (hu : OnGrid u) (hlow : -340 ≤ k) (hhigh : k ≤ 400)
    (hstep : (10 : ℚ) ^ k * one ≤ u) (hv : RoundsTo v u)
    (houtside : ∀ low, (Decimal.mk low k).units ≤ u → u < (Decimal.mk (low + 1) k).units →
      v ≤ (Decimal.mk low k).units ∨ (Decimal.mk (low + 1) k).units ≤ v) :
    (nearestMultiple? u k).isSome = true := by
  obtain ⟨low, hpos, hdiv, hbelow, habove⟩ := exists_multiples hstep
  refine nearestMultiple?_isSome hdiv ?_
  rcases houtside low hbelow habove with hle | hge
  · left
    exact readsBack_of_between hu (Nat.ne_of_gt hpos) hlow hhigh hv (min_le_of_left_le hle)
      (le_max_of_le_right hbelow)
  · right
    exact readsBack_of_between hu (Nat.succ_ne_zero low) hlow hhigh hv
      (min_le_of_right_le habove.le) (le_max_of_le_left hge)

/-- What is found is one of the two multiples around the number, and reads back. -/
theorem readsBack_of_nearestMultiple? {d : Decimal} {low : Nat}
    (hdiv : (scaled u k).1 / (scaled u k).2 = low) (h : nearestMultiple? u k = some d) :
    d.exponent = k ∧ d.digits ≤ low + 1 ∧ readsBack u d.digits k = true := by
  simp only [nearestMultiple?, hdiv] at h
  rcases Bool.eq_false_or_eq_true (readsBack u low k) with hlow | hlow <;>
    rcases Bool.eq_false_or_eq_true (readsBack u (low + 1) k) with hhigh | hhigh <;>
      simp only [hlow, hhigh] at h
  · split at h
    · obtain rfl := Option.some.inj h
      exact ⟨rfl, Nat.le_succ low, hlow⟩
    · obtain rfl := Option.some.inj h
      exact ⟨rfl, Nat.le_refl _, hhigh⟩
  · obtain rfl := Option.some.inj h
    exact ⟨rfl, Nat.le_succ low, hlow⟩
  · obtain rfl := Option.some.inj h
    exact ⟨rfl, Nat.le_refl _, hhigh⟩
  · cases h

theorem digitCount_eq_length (n : Nat) : digitCount n = (digits n).length := by
  induction n using digits_induction with
  | one n h => rw [digitCount, if_pos h, digits_of_lt h]; rfl
  | more n h ih =>
    rw [digitCount, if_neg (Nat.not_lt.mpr h), ih, digits_of_le h, List.length_append]
    rfl

/-- A number lies between the power of ten of its decimal exponent and the next, and none is smaller
than four in the 324th place. -/
theorem decimalExponent_bounds (hu : 0 < u) : -324 ≤ decimalExponent u ∧
    (10 : ℚ) ^ decimalExponent u * one ≤ u ∧ (u : ℚ) < 10 ^ (decimalExponent u + 1) * one := by
  have hunit : one ≤ 10 ^ 324 := by decide +kernel
  have hplaces : 0 < u * 10 ^ 324 / one :=
    Nat.div_pos (Nat.le_trans hunit (Nat.le_mul_of_pos_left _ hu)) one_pos
  have hlow := pow_le_ofDigits (digits_ne_nil (u * 10 ^ 324 / one)) (digits_head hplaces)
  have hhigh := ofDigits_lt (digits_lt (u * 10 ^ 324 / one))
  have hlength : 0 < (digits (u * 10 ^ 324 / one)).length :=
    List.length_pos_iff.mpr (digits_ne_nil _)
  have hcount : decimalExponent u = ((digits (u * 10 ^ 324 / one)).length : Int) - 325 := by
    rw [← digitCount_eq_length]
    rfl
  rw [ofDigits_digits] at hlow hhigh
  generalize (digits (u * 10 ^ 324 / one)).length = count at *
  obtain ⟨e, rfl⟩ : ∃ e, count = e + 1 := ⟨count - 1, by omega⟩
  rw [Nat.add_sub_cancel, Nat.le_div_iff_mul_le one_pos] at hlow
  rw [Nat.div_lt_iff_lt_mul one_pos] at hhigh
  have hlow : (10 ^ e * one : ℚ) ≤ u * 10 ^ 324 := by exact_mod_cast hlow
  have hhigh : (u * 10 ^ 324 : ℚ) < 10 ^ (e + 1) * one := by exact_mod_cast hhigh
  have hpow : (0 : ℚ) < 10 ^ 324 := by positivity
  have hexp : decimalExponent u = (e : Int) - 324 := by omega
  have hsplit (i : Int) : (10 : ℚ) ^ (i - 324) = 10 ^ i / 10 ^ 324 := by
    rw [zpow_sub₀ (by norm_num)]
    rfl
  refine ⟨by omega, ?_, ?_⟩
  · rw [hexp, hsplit, zpow_natCast, div_mul_eq_mul_div, div_le_iff₀ hpow]
    exact hlow
  · have hnext : (e : Int) - 324 + 1 = (e + 1 : Nat) - 324 := by omega
    rw [hexp, hnext, hsplit, zpow_natCast, div_mul_eq_mul_div, lt_div_iff₀ hpow]
    exact hhigh

theorem decimalExponent_le (hu : OnGrid u) (hpos : 0 < u) : decimalExponent u ≤ 308 := by
  obtain ⟨-, hlow, -⟩ := decimalExponent_bounds hpos
  by_contra hlarge
  have hpower : (10 : ℚ) ^ 309 * one ≤ 10 ^ decimalExponent u * one := by
    refine mul_le_mul_of_nonneg_right ?_ one_cast_pos.le
    rw [← zpow_natCast]
    exact zpow_le_zpow_right₀ (by norm_num) (by omega)
  have hle : 10 ^ 309 * one ≤ u := by exact_mod_cast le_trans hpower hlow
  have hoverflow : overflow ≤ 10 ^ 309 * one := by decide +kernel
  exact absurd hu.1 (Nat.not_lt.mpr (Nat.le_trans hoverflow hle))

/-- What makes a decimal of `n` digits stand for a number. -/
structure Stands (d : Decimal) (u n : Nat) : Prop where
  digits_ne_zero : d.digits ≠ 0
  digits_le : d.digits ≤ 10 ^ n
  exponent_eq : d.exponent = decimalExponent u - (n - 1)
  roundsTo : RoundsTo d.units u

theorem stands_of_nearestDecimal? {d : Decimal} (hu : OnGrid u) (hpos : 0 < u) (hn : 1 ≤ n)
    (hn' : n ≤ 17) (h : nearestDecimal? u n = some d) : Stands d u n := by
  obtain ⟨hexp, hlow, hhigh⟩ := decimalExponent_bounds hpos
  have hmax := decimalExponent_le hu hpos
  have hstep : (10 : ℚ) ^ (decimalExponent u - (n - 1)) * one ≤ u := by
    refine le_trans (mul_le_mul_of_nonneg_right ?_ one_cast_pos.le) hlow
    exact zpow_le_zpow_right₀ (by norm_num) (by omega)
  obtain ⟨low, -, hdiv, hbelow, -⟩ := exists_multiples hstep
  obtain ⟨hexponent, hdigits, hreads⟩ := readsBack_of_nearestMultiple? hdiv h
  obtain ⟨hne, hrounds⟩ := roundsTo_of_readsBack (Nat.ne_of_gt hpos) (by omega) (by omega) hreads
  have hlt : low < 10 ^ n := by
    have hlt := lt_of_le_of_lt hbelow hhigh
    have hsplit : (10 : ℚ) ^ (decimalExponent u + 1) =
        10 ^ n * 10 ^ (decimalExponent u - (n - 1)) := by
      rw [← zpow_natCast, ← zpow_add₀ (by norm_num)]
      congr 1
      omega
    rw [Decimal.units, hsplit, mul_assoc, mul_assoc] at hlt
    have hpow : (0 : ℚ) < 10 ^ (decimalExponent u - (n - 1)) * one :=
      mul_pos (by positivity) one_cast_pos
    exact_mod_cast lt_of_mul_lt_mul_right hlt hpow.le
  obtain ⟨m, k⟩ := d
  obtain rfl : k = _ := hexponent
  exact ⟨hne, Nat.le_trans hdigits hlt, rfl, hrounds⟩

/-- As many digits are always enough: seventeen, or fewer if the last of them is in the 324th
place. -/
theorem nearestDecimal?_isSome (hu : OnGrid u) (hpos : 0 < u) : ∃ n : Nat, 1 ≤ n ∧ n ≤ 17 ∧
    -324 ≤ decimalExponent u - (n - 1) ∧ (nearestDecimal? u n).isSome = true := by
  obtain ⟨hexp, hlow, -⟩ := decimalExponent_bounds hpos
  have hmax := decimalExponent_le hu hpos
  rcases Int.lt_or_le (decimalExponent u) (-308) with hsmall | hlarge
  · refine ⟨(decimalExponent u + 325).toNat, by omega, by omega, by omega, ?_⟩
    have hk : decimalExponent u - ((decimalExponent u + 325).toNat - 1) = -324 := by omega
    have hunit : (10 : ℚ) ^ (-324 : Int) * one < 1 := by
      have hone : (one : ℚ) < 10 ^ 324 := by
        have hlt : one < 10 ^ 324 := by decide +kernel
        exact_mod_cast hlt
      rw [zpow_neg, inv_mul_lt_iff₀ (by positivity), mul_one]
      exact hone
    have hhalf : (1 / 2 : ℚ) ≤ reach u := le_max_left _ _
    have hu1 : (1 : ℚ) ≤ u := by exact_mod_cast hpos
    rw [nearestDecimal?, hk]
    exact nearestMultiple?_of_lt_reach hu (by omega) (by omega) (by linarith) (by linarith)
  · refine ⟨17, by omega, Nat.le_refl _, by omega, ?_⟩
    have hstep : (10 : ℚ) ^ (decimalExponent u - ((17 : Nat) - 1)) * one =
        10 ^ decimalExponent u * one / 10 ^ 16 := by
      rw [zpow_sub₀ (by norm_num), div_mul_eq_mul_div]
      norm_num
    have hpow : (0 : ℚ) < 10 ^ decimalExponent u * one := mul_pos (by positivity) one_cast_pos
    have hreach : (u / 2 ^ 54 : ℚ) ≤ reach u := le_max_right _ _
    refine nearestMultiple?_of_lt_reach hu (by omega) (by omega) ?_ ?_
    · rw [hstep]
      norm_num
      linarith
    · rw [hstep]
      norm_num at *
      linarith

theorem digitCount_pos (c : Nat) : 0 < digitCount c := by
  rw [digitCount_eq_length]
  exact List.length_pos_iff.mpr (digits_ne_nil c)

theorem lt_pow_digitCount (c : Nat) : c < 10 ^ digitCount c := by
  have hlt := ofDigits_lt (digits_lt c)
  rwa [ofDigits_digits, ← digitCount_eq_length] at hlt

theorem digitCount_le (h : c < 10 ^ n) (hn : 0 < n) : digitCount c ≤ n := by
  rcases Nat.eq_zero_or_pos c with rfl | hc
  · rwa [digitCount_eq_length, digits_of_lt (by decide)]
  · have hle := pow_le_ofDigits (digits_ne_nil c) (digits_head hc)
    rw [ofDigits_digits, ← digitCount_eq_length] at hle
    have hlt : 10 ^ (digitCount c - 1) < 10 ^ n := Nat.lt_of_le_of_lt hle h
    have := (Nat.pow_lt_pow_iff_right (by decide)).mp hlt
    omega

/-- If a decimal of `n` digits rounds to a number, the search finds one of as many. -/
theorem nearestDecimal?_of_roundsTo {j : Int} (hu : OnGrid u) (hpos : 0 < u) (hn : 1 ≤ n)
    (hn' : n ≤ 17) (hc : c < 10 ^ n) (h : RoundsTo (Decimal.mk c j).units u) :
    (nearestDecimal? u n).isSome = true := by
  obtain ⟨hexp, hbelow, -⟩ := decimalExponent_bounds hpos
  have hmax := decimalExponent_le hu hpos
  rw [nearestDecimal?]
  obtain ⟨e, rfl⟩ : ∃ e, n = e + 1 := ⟨n - 1, by omega⟩
  obtain ⟨k, hk⟩ : ∃ k, k = decimalExponent u - ((e + 1 : Nat) - 1) := ⟨_, rfl⟩
  have hfirst : (10 : ℚ) ^ decimalExponent u = 10 ^ e * 10 ^ k := by
    rw [← zpow_natCast, ← zpow_add₀ (by norm_num)]
    congr 1
    omega
  have hpow : (0 : ℚ) < 10 ^ k * one := mul_pos (by positivity) one_cast_pos
  rw [hfirst, mul_assoc] at hbelow
  rw [← hk]
  refine nearestMultiple?_of_roundsTo hu (by omega) (by omega) (le_trans ?_ hbelow) h ?_
  · exact le_mul_of_one_le_left hpow.le (one_le_pow₀ (by norm_num))
  · intro low _ habove
    rw [Decimal.units, mul_assoc] at habove
    rcases le_or_gt k j with hj | hj
    · -- The decimal is a multiple of the power itself.
      obtain ⟨i, rfl⟩ : ∃ i : Nat, j = k + i := ⟨(j - k).toNat, by omega⟩
      rw [← Decimal.units_mul_pow, Decimal.units, Decimal.units, Decimal.units, mul_assoc,
        mul_assoc, mul_assoc]
      rcases Nat.lt_or_ge low (c * 10 ^ i) with hlt | hge
      · exact .inr (mul_le_mul_of_nonneg_right (by exact_mod_cast hlt) hpow.le)
      · exact .inl (mul_le_mul_of_nonneg_right (by exact_mod_cast hge) hpow.le)
    · -- It is below the first power of ten, and the lower multiple is not.
      left
      have hlow : 10 ^ e ≤ low := by
        have hlt := lt_of_mul_lt_mul_right (lt_of_le_of_lt hbelow habove) hpow.le
        exact Nat.le_of_lt_succ (by exact_mod_cast hlt)
      have hlow : (10 ^ e : ℚ) ≤ low := by exact_mod_cast hlow
      have hc : (c : ℚ) ≤ 10 ^ (e + 1) := by exact_mod_cast Nat.le_of_lt hc
      have hj : (10 : ℚ) ^ j ≤ 10 ^ k / 10 := by
        rw [div_eq_mul_inv, ← zpow_sub_one₀ (by norm_num)]
        exact zpow_le_zpow_right₀ (by norm_num) (by omega)
      rw [Decimal.units, Decimal.units]
      refine mul_le_mul_of_nonneg_right ?_ one_cast_pos.le
      calc (c : ℚ) * 10 ^ j ≤ 10 ^ (e + 1) * (10 ^ k / 10) :=
            mul_le_mul hc hj (by positivity) (by positivity)
        _ = 10 ^ e * 10 ^ k := by ring
        _ ≤ low * 10 ^ k := mul_le_mul_of_nonneg_right hlow (by positivity)

/-- The shortest decimal stands for its number, has no digit behind the 324th place, and no decimal
with fewer digits rounds to the number. -/
theorem shortest_stands (hu : OnGrid u) (hpos : 0 < u) : ∃ n, n ≤ 17 ∧ Stands (shortest u) u n ∧
    -324 ≤ (shortest u).exponent ∧
      ∀ d : Decimal, RoundsTo d.units u → n ≤ digitCount d.digits := by
  obtain ⟨enough, hone, hmax, hplaces, hsome⟩ := nearestDecimal?_isSome hu hpos
  have hmem : enough ∈ List.range' 1 17 := by
    rw [List.mem_range'_1]
    omega
  unfold shortest
  cases hfind : (List.range' 1 17).findSome? (nearestDecimal? u) with
  | none =>
    rw [List.findSome?_eq_none_iff.mp hfind enough hmem] at hsome
    cases hsome
  | some d =>
    obtain ⟨before, n, behind, hrange, hn, hnone⟩ := List.findSome?_eq_some_iff.mp hfind
    have hn_mem : n ∈ List.range' 1 17 := hrange ▸ List.mem_append_right _ List.mem_cons_self
    rw [List.mem_range'_1] at hn_mem
    have hstands := stands_of_nearestDecimal? hu hpos hn_mem.1 (by omega) hn
    have hsorted := List.pairwise_lt_range' (s := 1) (n := 17)
    rw [hrange, List.pairwise_append, List.pairwise_cons] at hsorted
    -- No smaller count of digits is enough.
    have hfirst (count : Nat) (hcount : 1 ≤ count ∧ count ≤ 17)
        (henough : (nearestDecimal? u count).isSome = true) : n ≤ count := by
      have hmem : count ∈ List.range' 1 17 := by
        rw [List.mem_range'_1]
        omega
      rw [hrange, List.mem_append, List.mem_cons] at hmem
      rcases hmem with hbefore | heq | hbehind
      · rw [hnone count hbefore] at henough
        cases henough
      · exact Nat.le_of_eq heq.symm
      · exact Nat.le_of_lt (hsorted.2.1.1 count hbehind)
    have hle := hfirst enough ⟨hone, hmax⟩ hsome
    refine ⟨n, by omega, hstands, ?_, fun d hrounds => ?_⟩
    · rw [Option.getD_some, hstands.exponent_eq]
      omega
    · have hcount := digitCount_pos d.digits
      rcases Nat.lt_or_ge 17 (digitCount d.digits) with hlarge | hsmall
      · omega
      · exact hfirst _ ⟨hcount, hsmall⟩
          (nearestDecimal?_of_roundsTo hu hpos hcount hsmall (lt_pow_digitCount _) hrounds)

/-- Of the decimals that round to a number, one with the fewest digits has the value of the shortest
one. -/
theorem exists_fewest_digits (hu : OnGrid u) (hpos : 0 < u) : ∃ d : Decimal,
    d.units = (shortest u).units ∧
      ∀ d' : Decimal, RoundsTo d'.units u → digitCount d.digits ≤ digitCount d'.digits := by
  obtain ⟨n, -, hstands, -, hfewest⟩ := shortest_stands hu hpos
  generalize shortest u = d at *
  obtain ⟨c, k⟩ := d
  rcases Nat.lt_or_eq_of_le hstands.digits_le with hlt | heq
  · have hn : 0 < n := by
      rcases n with _ | n
      · exact absurd (Nat.lt_one_iff.mp hlt) hstands.digits_ne_zero
      · exact Nat.succ_pos n
    exact ⟨⟨c, k⟩, rfl, fun d' hrounds => Nat.le_trans (digitCount_le hlt hn) (hfewest d' hrounds)⟩
  · -- A power of ten, to which nines were rounded up, has one digit before its zeros.
    have hone : digitCount 1 ≤ 1 := digitCount_le (by decide) Nat.one_pos
    obtain rfl : c = 1 * 10 ^ n := heq.trans (Nat.one_mul _).symm
    refine ⟨⟨1, k + n⟩, (Decimal.units_mul_pow 1 n k).symm, fun d' _ => ?_⟩
    exact Nat.le_trans hone (digitCount_pos d'.digits)

end Uplink.Binary64

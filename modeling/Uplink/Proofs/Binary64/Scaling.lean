import Mathlib.Tactic.Linarith
import Mathlib.Tactic.Ring
import Uplink.Proofs.Binary64.Rounding

/-! Products and quotients of rounded numbers that stay finite. Below `scalable`, the rounding of
two factors and of their product does not reach overflow. -/

namespace Uplink.Binary64

/-- Two and a half spacings below overflow, in units. -/
def scalable : Nat := (2 ^ 54 - 5) * 2 ^ 2044

theorem scalable_lt : scalable < (2 ^ 54 - 1) * 2 ^ 2044 :=
  Nat.mul_lt_mul_of_pos_right (by decide) (Nat.two_pow_pos _)

/-- The largest power of ten below `scalable` is `10^308`. -/
theorem scalable_bounds : 10 ^ 308 * one ≤ scalable ∧ scalable < 10 ^ 309 * one := by
  decide +kernel

theorem significand_le_scalable : 2 ^ 64 * one ≤ scalable := by
  refine Nat.le_trans (Nat.mul_le_mul_right one ?_) scalable_bounds.1
  exact Nat.le_trans (Nat.pow_le_pow_left (show 2 ≤ 10 by decide) 64)
    (Nat.pow_le_pow_right (by decide) (by decide))

variable {m n : Nat}

/-- The number nearest to a natural one is off by one part in `2^53` at most, and no less than
one. -/
theorem ofNat_eq_finite (h : n * one ≤ scalable) : ∃ u onGrid,
    ofNat n = .finite false u onGrid ∧ 2 ^ 53 * u ≤ (2 ^ 53 + 1) * (n * one) ∧
      (0 < n → one ≤ u) := by
  have hlt : nearestUnits (n * one) 1 < overflow := by
    refine nearestUnits_lt_overflow ?_
    rw [Nat.one_mul]
    exact Nat.lt_of_le_of_lt h scalable_lt
  refine ⟨_, onGrid_nearestUnits hlt, by rw [ofNat, ofQuotient, dif_pos hlt], ?_, fun hn => ?_⟩
  · rcases Nat.eq_zero_or_pos n with rfl | hn
    · rw [Nat.zero_mul, nearestUnits_self (Nat.dvd_zero _)]
      exact Nat.zero_le _
    · have hlarge : 2 ^ 52 * 1 ≤ n * one := by
        refine Nat.le_trans ?_ (Nat.le_mul_of_pos_left _ hn)
        rw [Nat.mul_one, one_eq_two_pow]
        exact Nat.pow_le_pow_right (by decide) (by decide)
      have hrelative := nearestUnits_relative (by decide) hlarge
      rwa [Nat.one_mul] at hrelative
  · rw [one_eq_two_pow]
    refine two_pow_le_nearestUnits (by decide) ?_
    rw [Nat.mul_one]
    exact Nat.le_mul_of_pos_left _ hn

theorem isFinite_mul (hm : m * one ≤ scalable) (hn : n * one ≤ scalable)
    (h : m * n * one ≤ scalable) : (ofNat m * ofNat n).isFinite = true := by
  obtain ⟨u, _, hmu, hu, -⟩ := ofNat_eq_finite hm
  obtain ⟨v, _, hnv, hv, -⟩ := ofNat_eq_finite hn
  have hlt : nearestUnits (u * v) one < overflow := by
    refine nearestUnits_lt_overflow (Nat.lt_of_mul_lt_mul_left (a := 2 ^ 53 * 2 ^ 53) ?_)
    calc 2 ^ 53 * 2 ^ 53 * (u * v) = (2 ^ 53 * u) * (2 ^ 53 * v) := by ring
      _ ≤ ((2 ^ 53 + 1) * (m * one)) * ((2 ^ 53 + 1) * (n * one)) := Nat.mul_le_mul hu hv
      _ = (2 ^ 53 + 1) * (2 ^ 53 + 1) * one * (m * n * one) := by ring
      _ ≤ (2 ^ 53 + 1) * (2 ^ 53 + 1) * one * scalable := Nat.mul_le_mul_left _ h
      _ = (2 ^ 53 + 1) * (2 ^ 53 + 1) * (2 ^ 54 - 5) * (one * 2 ^ 2044) := by
        rw [scalable]
        generalize (2 : Nat) ^ 2044 = x
        ring
      _ < 2 ^ 53 * 2 ^ 53 * (2 ^ 54 - 1) * (one * 2 ^ 2044) :=
        Nat.mul_lt_mul_of_pos_right (by decide)
          (Nat.mul_pos one_pos (Nat.two_pow_pos _))
      _ = 2 ^ 53 * 2 ^ 53 * (one * ((2 ^ 54 - 1) * 2 ^ 2044)) := by
        generalize (2 : Nat) ^ 2044 = x
        ring
  have hmul : ofNat m * ofNat n = ofQuotient (false != false) (u * v) one := by
    rw [hmu, hnv]
    rfl
  rw [hmul, ofQuotient, dif_pos hlt]
  rfl

/-- Dividing by one or more makes no number larger. -/
theorem isFinite_div {x : Binary64} (hx : x.isFinite = true) (hn : 0 < n)
    (hle : n * one ≤ scalable) : (x / ofNat n).isFinite = true := by
  obtain ⟨v, _, hnv, -, hone⟩ := ofNat_eq_finite hle
  cases x with
  | nan => cases hx
  | infinite => cases hx
  | finite s u hu =>
    have hle : nearestUnits (u * one) v ≤ u :=
      nearestUnits_le hu.2 (Nat.mul_le_mul_left u (hone hn))
    have hpos : 0 < v := Nat.lt_of_lt_of_le one_pos (hone hn)
    have hdiv : finite s u hu / ofNat n = ofQuotient (s != false) (u * one) v := by
      rw [hnv]
      exact if_neg (Nat.ne_of_gt hpos)
    rw [hdiv, ofQuotient, dif_pos (Nat.lt_of_le_of_lt hle hu.1)]
    rfl

end Uplink.Binary64

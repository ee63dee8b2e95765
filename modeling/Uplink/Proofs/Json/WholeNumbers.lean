import Uplink.Proofs.Json.NumberAccuracy
import Uplink.Proofs.Json.ShortestText

/-! Whole numbers up to `2^53` cross texts unchanged: each is read from its digits as itself, and
the text of the number is exactly that number again, with a fraction of zero. -/

namespace Uplink

namespace Binary64

variable {n : Nat}

/-- Below `2^53` whole numbers are at least as far apart as numbers of the format. -/
theorem spacing_mul_one_le (h : n < 2 ^ 53) : spacing (n * one) ≤ one := by
  have hlog : (n * one).log2 - 52 ≤ 1074 := by
    rcases Nat.eq_zero_or_pos n with rfl | hn
    · rw [Nat.zero_mul]
      decide
    · have hlt : n * one < 2 ^ (53 + 1074) := by
        rw [← two_pow_mul_one]
        exact Nat.mul_lt_mul_of_pos_right h one_pos
      have := (Nat.log2_lt (Nat.ne_of_gt (Nat.mul_pos hn one_pos))).mpr hlt
      omega
  have hle (j : Nat) (hj : (n * one).log2 - 52 ≤ j) : spacing (n * one) ≤ 2 ^ j := by
    rw [spacing_eq_two_pow]
    exact Nat.pow_le_pow_right (by decide) hj
  exact Nat.le_trans (hle _ hlog) (Nat.le_of_eq one_eq_two_pow.symm)

/-- The fewest digits that read back as a whole number do not go beyond its point. -/
theorem shortest_exponent_nonneg (hn : 0 < n) (h : n ≤ 2 ^ 53) :
    0 ≤ (shortest (n * one)).exponent := by
  have hu := onGrid_mul_one h
  have hpos : 0 < n * one := Nat.mul_pos hn one_pos
  obtain ⟨count, -, hstands, -, hfewest⟩ := shortest_stands hu hpos
  have hself : RoundsTo (Decimal.mk n 0).units (n * one) := by
    refine ⟨n * one, 1, Nat.one_pos, ?_, nearestUnits_self hu.2⟩
    rw [Decimal.units]
    push_cast
    ring
  have hcount : count ≤ digitCount n := hfewest _ hself
  have hplaces : (digitCount n : Int) ≤ decimalExponent (n * one) + 1 := by
    obtain ⟨-, hbelow, habove⟩ := decimalExponent_bounds hpos
    push_cast at habove
    have hlt : (n : ℚ) < 10 ^ (decimalExponent (n * one) + 1) :=
      lt_of_mul_lt_mul_right habove one_cast_pos.le
    obtain ⟨e, he⟩ : ∃ e : Nat, decimalExponent (n * one) + 1 = e := by
      refine Int.eq_ofNat_of_zero_le (Int.not_lt.mp fun hneg => ?_)
      have hone : (1 : ℚ) ≤ n := by exact_mod_cast hn
      have hsmall : (10 : ℚ) ^ (decimalExponent (n * one) + 1) ≤ 1 :=
        zpow_le_one_of_nonpos₀ (by norm_num) (Int.le_of_lt hneg)
      linarith
    rw [he, zpow_natCast] at hlt
    have hlt : n < 10 ^ e := by exact_mod_cast hlt
    rw [he]
    refine Int.ofNat_le.mpr (digitCount_le hlt (Nat.pos_of_ne_zero ?_))
    rintro rfl
    omega
  rw [hstands.exponent_eq]
  omega

theorem units_shortest (hn : 0 < n) (h : n ≤ 2 ^ 53) :
    (shortest (n * one)).units = n * one := by
  rcases Nat.lt_or_eq_of_le h with hlt | rfl
  · obtain ⟨_, -, hstands, -, -⟩ := shortest_stands (onGrid_mul_one h) (Nat.mul_pos hn one_pos)
    obtain ⟨e, he⟩ := Int.eq_ofNat_of_zero_le (shortest_exponent_nonneg hn h)
    obtain ⟨m, hm⟩ : ∃ m : Nat, (shortest (n * one)).units = m * one :=
      ⟨(shortest (n * one)).digits * 10 ^ e, by
        rw [Decimal.units, he, zpow_natCast]
        push_cast
        rfl⟩
    have hspacing : (spacing (n * one) : ℚ) ≤ one := by exact_mod_cast spacing_mul_one_le hlt
    have hclose : |(m : ℚ) - n| * one ≤ 1 / 2 * one := by
      have hrounds := hstands.roundsTo.abs_sub_le
      rw [hm, Nat.cast_mul, ← sub_mul, abs_mul, abs_of_pos one_cast_pos] at hrounds
      linarith
    have hclose : |(m : ℚ) - n| ≤ 1 / 2 := le_of_mul_le_mul_right hclose one_cast_pos
    have hint : |(m : Int) - n| < 1 := by
      have hlt : |(m : ℚ) - n| < 1 := by linarith
      exact_mod_cast hlt
    obtain rfl : m = n := by
      have := abs_lt.mp hint
      omega
    exact hm
  · have hshortest : shortest (2 ^ 53 * one) = ⟨9007199254740992, 0⟩ := by decide +kernel
    rw [hshortest, Decimal.units]
    norm_num

end Binary64

namespace Json

open Binary64 (finite one one_cast_pos onGrid_mul_one)

variable {t : NumberText} {n : Nat}

namespace NumberText

/-- The rational number that a number text stands for. -/
def rational (t : NumberText) : ℚ :=
  (if t.negative then -1 else 1) *
    (ofDigits (t.whole ++ t.fraction) * 10 ^ (t.power - t.fraction.length))

/-- An integer without a fraction and an exponent, of `2^53` at most. -/
structure IsSmallInteger (t : NumberText) : Prop where
  fraction_eq : t.fraction = []
  exponent_eq : t.exponent = none
  le : ofDigits t.whole ≤ 2 ^ 53

theorem rational_of_units (h : t.units = n * one) :
    t.rational = (if t.negative then -1 else 1) * (n : ℚ) := by
  rw [rational, mul_right_cancel₀ one_cast_pos.ne' h]

theorem rational_of_isSmallInteger (h : t.IsSmallInteger) :
    t.rational = (if t.negative then -1 else 1) * (ofDigits t.whole : ℚ) := by
  rw [rational, power, h.exponent_eq, h.fraction_eq]
  simp

/-- The text of a whole number is exactly that number. -/
theorem exists_text_mul_one (negative : Bool) (h : n ≤ 2 ^ 53) : ∃ t : NumberText,
    t.WellFormed ∧ (finite negative (n * one) (onGrid_mul_one h)).text.toList = t.chars ∧
      t.rational = (if negative then -1 else 1) * (n : ℚ) := by
  rcases Nat.eq_zero_or_pos n with rfl | hn
  · have hzero : (zero negative).units = (0 : Nat) * one := by simp [units, zero, ofDigits]
    refine ⟨zero negative, (writes_zero negative).wellFormed, ?_, ?_⟩
    · simp only [Nat.zero_mul]
      exact toList_text_zero negative _
    · exact rational_of_units hzero
  · have hpos : 0 < n * one := Nat.mul_pos hn Binary64.one_pos
    have hwrites := writes_shortest negative (onGrid_mul_one h) hpos
    refine ⟨_, hwrites.wellFormed, ?_, ?_⟩
    · rw [Binary64.text_of_ne_zero negative _ (Nat.ne_of_gt hpos), toList_signed]
    · rw [rational_of_units (n := n), hwrites.negative_eq]
      obtain ⟨m, cut, -, hunits, htext⟩ := ofDecimal_eq negative (Binary64.shortest (n * one))
      rw [htext, units_ofScaled, hunits, Binary64.units_shortest hn h]

theorem exists_ofInteger? (negative : Bool) (h : n ≤ 2 ^ 53) :
    ∃ m, Number.ofInteger? negative n = some m := by
  unfold Number.ofInteger?
  split
  · split
    · exact ⟨_, rfl⟩
    · rw [Binary64.ofNat_of_le h, Number.signed?_finite]
      exact ⟨_, rfl⟩
  · exact ⟨_, dif_pos (by omega)⟩

/-- A whole number is read as itself. -/
theorem value?_of_isSmallInteger (ht : t.WellFormed) (h : t.IsSmallInteger) : ∃ m,
    t.value? = some m ∧
      m.toBinary64 = finite t.negative (ofDigits t.whole * one) (onGrid_mul_one h.le) := by
  have hwhole := whole_of_lt ht (Nat.lt_of_le_of_lt h.le (by decide))
  have hint : t.IsInteger := ⟨by rw [hwhole], h.fraction_eq, h.exponent_eq⟩
  rw [value?_eq, if_pos hint, scaled_of_isInteger hint, hwhole]
  obtain ⟨m, hm⟩ := exists_ofInteger? t.negative h.le
  obtain ⟨_, hexact⟩ := Binary64.ofQuotient_eq_finite (d := 1) t.negative (onGrid_mul_one h.le)
    (Nat.le_of_eq (Nat.mul_one _).symm)
  refine ⟨m, hm, ?_⟩
  rw [Number.toBinary64_of_ofInteger? (Nat.lt_of_le_of_lt h.le (by decide)) hm, hexact]
  simp only [Binary64.nearestUnits_self (onGrid_mul_one h.le).2]

end NumberText

end Json

end Uplink

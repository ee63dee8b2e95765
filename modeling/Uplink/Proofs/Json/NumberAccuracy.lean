import Uplink.Proofs.Json.ScaleAccuracy

/-! How close the value of a number text is to the number that is written: never further than eight
parts in `2^53`, or one unit, and of the same sign. -/

namespace Uplink.Json

open Binary64 (OnGrid finite nearestUnits ofQuotient one one_cast_pos overflow scalable)

variable {n : Nat} {m : Number} {negative : Bool}

theorem Number.signed?_finite (negative : Bool) {u : Nat} (onGrid : OnGrid u) :
    Number.signed? negative (finite false u onGrid) =
      some (.real (finite negative u onGrid) rfl) := by
  cases negative <;> rfl

theorem Number.close_of_signed? {x : Binary64} {c v : ℚ} (hx : Close false c x v)
    (h : Number.signed? negative x = some m) : Close negative c m.toBinary64 v := by
  obtain ⟨u, onGrid, rfl, hclose⟩ := hx
  rw [signed?_finite] at h
  obtain rfl := Option.some.inj h
  exact ⟨u, onGrid, rfl, hclose⟩

/-- An integer is rounded once. -/
theorem close_integer (hn : n < 2 ^ 64) (s : Bool) :
    Close s (9 / 4 / 2 ^ 53) (ofQuotient s (n * one) 1) (n * one) := by
  obtain ⟨onGrid, -⟩ := Binary64.ofQuotient_of_isFinite (isFinite_ofNat hn)
  have hfinite : (ofQuotient s (n * one) 1).isFinite = true := by
    rw [ofQuotient, dif_pos onGrid.1]
    rfl
  have hn0 := significand_nonneg n
  refine close_ofQuotient Nat.one_pos (by norm_num) hn0 ?_ hfinite
  rw [Nat.cast_mul, Nat.cast_one, div_one]
  exact Binary64.within_self (by norm_num) (by norm_num) hn0

/-- An integer of 64 bits becomes the number nearest to it. -/
theorem Number.toBinary64_of_ofInteger? (hn : n < 2 ^ 64)
    (h : Number.ofInteger? negative n = some m) :
    m.toBinary64 = ofQuotient negative (n * one) 1 := by
  unfold Number.ofInteger? at h
  split at h
  · next hnegative =>
    subst hnegative
    split at h
    · next hrange =>
      obtain rfl := Option.some.inj h
      have hbelow : decide (-(n : Int) < 0) = true := by simpa using hrange.1
      rw [toBinary64, Binary64.ofInt, Int.natAbs_neg, Int.natAbs_natCast, hbelow]
    · obtain ⟨onGrid, hx⟩ := Binary64.ofQuotient_of_isFinite (isFinite_ofNat hn)
      rw [Binary64.ofNat, hx, signed?_finite] at h
      obtain rfl := Option.some.inj h
      rw [ofQuotient, dif_pos onGrid.1]
      rfl
  · next hpositive =>
    rw [Bool.not_eq_true] at hpositive
    subst hpositive
    split at h
    · obtain rfl := Option.some.inj h
      have habove : decide ((n : Int) < 0) = false := by simp
      rw [toBinary64, Binary64.ofInt, Int.natAbs_natCast, habove]
    · cases h

namespace NumberText

variable {t : NumberText}

/-- The value of a number has its sign, and is as close to what is gathered of it as scaling
comes. -/
theorem close_value? (ht : t.WellFormed) (hpower : t.power.natAbs < 2 ^ 31)
    (h : t.value? = some m) : Close t.negative (17 / 4 / 2 ^ 53) m.toBinary64
        (t.scaled.significand * 10 ^ (t.scaled.exponent + t.power) * one) ∧
      (-330 ≤ t.scaled.exponent + t.power → Close t.negative (9 / 4 / 2 ^ 53) m.toBinary64
        (t.scaled.significand * 10 ^ (t.scaled.exponent + t.power) * one)) := by
  obtain ⟨hlt, -⟩ := scaled_near ht
  rw [value?_eq, if_pos hpower] at h
  split at h
  · next hint =>
    have hclose := close_integer hlt t.negative
    rw [← Number.toBinary64_of_ofInteger? hlt h] at hclose
    have hpower : t.power = 0 := by rw [power, hint.2.2]
    rw [hpower, scaled_of_isInteger hint, hint.1, add_zero, zpow_zero, mul_one]
    rw [scaled_of_isInteger hint] at hclose
    exact ⟨hclose.weaken (by norm_num) (significand_nonneg _), fun _ => hclose⟩
  · obtain ⟨x, hx, hsigned⟩ := Option.bind_eq_some_iff.mp h
    obtain ⟨hclose, hcloser⟩ := scale?_close hlt hx
    exact ⟨Number.close_of_signed? hclose hsigned,
      fun he => Number.close_of_signed? (hcloser he) hsigned⟩

/-- An integer text whose number has 64 bits is rounded once. -/
theorem value?_of_integer (ht : t.WellFormed) (hfraction : t.fraction = [])
    (hexponent : t.exponent = none) (hlt : ofDigits t.whole < 2 ^ 64) : ∃ m,
      t.value? = some m ∧ m.toBinary64 = ofQuotient t.negative (ofDigits t.whole * one) 1 := by
  have hwhole := whole_of_lt ht hlt
  have hint : t.IsInteger := ⟨by rw [hwhole], hfraction, hexponent⟩
  obtain ⟨m, hm⟩ := ofInteger?_isSome t.negative hlt
  refine ⟨m, ?_, Number.toBinary64_of_ofInteger? hlt hm⟩
  rw [value?_eq, if_pos hint, scaled_of_isInteger hint, hwhole, hm]

/-- The value of a number has its sign and is off by eight parts in `2^53`, or one unit, at most. -/
theorem exists_units (ht : t.WellFormed) (hpower : t.power.natAbs < 2 ^ 31)
    (h : t.value? = some m) : ∃ u onGrid, m.toBinary64 = finite t.negative u onGrid ∧
      |(u : ℚ) - t.units| ≤ t.units / 2 ^ 50 + 1 := by
  obtain ⟨u, onGrid, hm, hclose⟩ := (close_value? ht hpower h).1
  obtain ⟨hle, hnear⟩ := units_near ht
  have hnonneg := scaled_nonneg t.scaled.significand (t.scaled.exponent + t.power)
  refine ⟨u, onGrid, hm, ?_⟩
  generalize (t.scaled.significand * 10 ^ (t.scaled.exponent + t.power) * one : ℚ) = v at *
  have hlast : max (1 / 2) (9 / 8 * v / 2 ^ 53) ≤ 1 / 2 + 9 / 8 * v / 2 ^ 53 := by
    have : 0 ≤ 9 / 8 * v / 2 ^ 53 := by positivity
    exact max_le (by linarith) (by linarith)
  calc |(u : ℚ) - t.units| ≤ |(u : ℚ) - v| + |v - t.units| := abs_sub_le _ _ _
    _ ≤ (17 / 4 / 2 ^ 53 * v + 1 / 16 + (1 / 2 + 9 / 8 * v / 2 ^ 53)) + (t.units - v) := by
      rw [abs_sub_comm v, abs_of_nonneg (sub_nonneg.mpr hle)]
      linarith
    _ ≤ t.units / 2 ^ 50 + 1 := by
      norm_num at hnear ⊢
      linarith

/-- No number above `2^1024` by one part in `2^49` has a value. -/
theorem value?_eq_none (ht : t.WellFormed) (hpower : t.power.natAbs < 2 ^ 31)
    (hunits : (overflow : ℚ) * (1 + 1 / 2 ^ 49) ≤ t.units) : t.value? = none := by
  by_contra hsome
  obtain ⟨m, hm⟩ := Option.ne_none_iff_exists'.mp hsome
  obtain ⟨u, onGrid, -, hclose⟩ := exists_units ht hpower hm
  have hlt : (u : ℚ) < overflow := by exact_mod_cast onGrid.1
  have hlarge : (2 ^ 60 : ℚ) ≤ overflow := by
    have hle : 2 ^ 60 ≤ overflow := by
      rw [Binary64.overflow_eq_two_pow]
      exact Nat.pow_le_pow_right (Nat.succ_pos 1) (by decide)
    exact_mod_cast hle
  have hge := (abs_le.mp hclose).1
  generalize (overflow : ℚ) = w at *
  norm_num at *
  linarith

theorem units_eq_zero_iff (ht : t.WellFormed) : t.units = 0 ↔ t.scaled.significand = 0 := by
  obtain ⟨hle, hnear⟩ := units_near ht
  have hscale : (0 : ℚ) < 10 ^ (t.scaled.exponent + t.power) * one :=
    mul_pos (by positivity) one_cast_pos
  rw [mul_assoc] at hle hnear
  constructor
  · intro hzero
    rw [hzero] at hle
    have hsignificand := nonpos_of_mul_nonpos_left hle hscale
    exact_mod_cast le_antisymm hsignificand (Nat.cast_nonneg _)
  · intro hzero
    rw [hzero, Nat.cast_zero, zero_mul, sub_zero] at hnear
    have := units_nonneg t
    linarith

/-- With an exponent of `2^31` or more, a number is zero or has no value. -/
theorem value?_of_large_power (ht : t.WellFormed) (hpower : 2 ^ 31 ≤ t.power.natAbs) :
    t.value? = if t.power < 0 ∨ t.units = 0 then
      some (.real (finite t.negative 0 Binary64.onGrid_zero) rfl) else none := by
  have hreal : ¬t.IsInteger := by
    intro hint
    have hzero : t.power = 0 := by rw [power, hint.2.2]
    simp [hzero] at hpower
  have hlarge : ¬t.power.natAbs < 2 ^ 31 := Nat.not_lt.mpr hpower
  have hcases : (t.scaled.significand ≠ 0 ∧ 0 < t.power) ↔ ¬(t.power < 0 ∨ t.units = 0) := by
    rw [units_eq_zero_iff ht]
    omega
  rw [value?_eq, if_neg hreal, if_neg hlarge]
  by_cases hnone : t.power < 0 ∨ t.units = 0
  · rw [if_neg (fun h => hcases.mp h hnone), if_pos hnone]
    exact Number.signed?_finite _ _
  · rw [if_pos (hcases.mpr hnone), if_neg hnone]

end NumberText

end Uplink.Json

import Uplink.Proofs.Binary64.Shortest
import Uplink.Proofs.Json.NumberText
import Uplink.Proofs.Json.NumberValue

/-! The text of a finite number is a number of the grammar, with a fraction or an exponent, and it
has a value. What reading it needs is gathered in `NumberText.Writes`. -/

namespace Uplink.Binary64

/-- Only the two largest numbers are not `scalable` with room for the error of their digits. -/
theorem eq_largest {u : Nat} (hu : OnGrid u) (hlarge : (2 ^ 54 - 6) * 2 ^ 2044 < u) :
    u = (2 ^ 54 - 4) * 2 ^ 2044 ∨ u = (2 ^ 54 - 2) * 2 ^ 2044 := by
  have hspacing : spacing (2 ^ 2097) = 2 * 2 ^ 2044 := by
    rw [spacing_two_pow, ← Nat.pow_succ']
  have hstart : 2 ^ 2097 = 2 ^ 53 * 2 ^ 2044 := by rw [← Nat.pow_add]
  have hoverflow : overflow = 2 ^ 54 * 2 ^ 2044 := by rw [overflow_eq_two_pow, ← Nat.pow_add]
  have hle : 2 ^ 2097 ≤ u := by
    rw [hstart]
    exact Nat.le_trans (Nat.mul_le_mul_right _ (by decide)) (Nat.le_of_lt hlarge)
  obtain ⟨j, hj⟩ := Nat.dvd_trans (spacing_le_spacing hle) hu.2
  have hlt := hu.1
  rw [hspacing] at hj
  rw [hoverflow] at hlt
  generalize (2 : Nat) ^ 2044 = s at *
  obtain rfl : u = 2 * j * s := by rw [hj, Nat.mul_right_comm]
  have hj : j = 2 ^ 53 - 2 ∨ j = 2 ^ 53 - 1 := by
    have := Nat.lt_of_mul_lt_mul_right hlt
    have := Nat.lt_of_mul_lt_mul_right hlarge
    omega
  exact hj.imp (congrArg (2 * · * s)) (congrArg (2 * · * s))

theorem text_of_ne_zero (negative : Bool) {u : Nat} (hu : OnGrid u) (hne : u ≠ 0) :
    (finite negative u hu).text =
      if negative then "-" ++ (shortest u).text else (shortest u).text := by
  rw [text, if_neg hne]

end Uplink.Binary64

namespace Uplink.Json

open Binary64 (Decimal OnGrid RoundsTo digits one one_cast_pos overflow scalable)

namespace NumberText

/-- The text of `m * 10^k`, where the last digit of `m` is no zero. -/
def ofScaled (negative : Bool) (m : Nat) (k : Int) : NumberText :=
  let ds := digits m
  let e := k + ds.length - 1
  if e < -5 ∨ 15 < e then ⟨negative, ds.take 1, ds.drop 1, some (decide (e < 0), digits e.natAbs)⟩
  else if e < 0 then ⟨negative, [0], List.replicate (-e - 1).toNat 0 ++ ds, none⟩
  else if ds.length ≤ (e + 1).toNat then
    ⟨negative, ds ++ List.replicate ((e + 1).toNat - ds.length) 0, [0], none⟩
  else ⟨negative, ds.take (e + 1).toNat, ds.drop (e + 1).toNat, none⟩

/-- The number text of a positive decimal. -/
def ofDecimal (negative : Bool) (d : Decimal) : NumberText :=
  let (m, cut) := Binary64.trimZeros (Binary64.digitCount d.digits) d.digits
  ofScaled negative m (d.exponent + cut)

/-- The text of the number zero. -/
def zero (negative : Bool) : NumberText := ⟨negative, [0], [0], none⟩

variable {negative : Bool} {m : Nat} {k : Int}

theorem fractionChars_of_ne_nil {ds : List Nat} (h : ds ≠ []) :
    fractionChars ds = '.' :: ds.map Nat.digitChar := by
  obtain ⟨d, ds, rfl⟩ := List.exists_cons_of_ne_nil h
  rfl

/-- A positive decimal is written as its number text has it. -/
theorem toList_text (d : Decimal) : d.text.toList = (ofDecimal false d).chars := by
  unfold Decimal.text ofDecimal ofScaled
  generalize Binary64.trimZeros (Binary64.digitCount d.digits) d.digits = p
  obtain ⟨m, cut⟩ := p
  have hmap := Binary64.digits_map_digitChar m
  have hlen : (Nat.toDigits 10 m).length = (digits m).length := by rw [← hmap, List.length_map]
  have hzero : Nat.digitChar 0 = '0' := rfl
  simp only [hlen]
  generalize d.exponent + cut + (digits m).length - 1 = e
  split
  · obtain ⟨c, cs, hcs⟩ := List.exists_cons_of_ne_nil (Binary64.digits_ne_nil m)
    rw [String.toList_ofList, ← hmap, hcs, ← Binary64.digits_map_digitChar]
    cases cs <;> simp [chars, fractionChars, exponentChars]
  · split
    · generalize (-e - 1).toNat = zeros
      have hne : List.replicate zeros 0 ++ digits m ≠ [] :=
        List.append_ne_nil_of_right_ne_nil _ (Binary64.digits_ne_nil m)
      simp [chars, exponentChars, fractionChars_of_ne_nil hne, hmap, hzero]
    · split
      · simp [chars, exponentChars, fractionChars, hmap, hzero]
      · next hlong =>
        have hne : (digits m).drop (e + 1).toNat ≠ [] := by
          rw [ne_eq, List.drop_eq_nil_iff]
          exact hlong
        simp [chars, exponentChars, fractionChars_of_ne_nil hne, ← hmap, List.map_take]

theorem wellFormed_of_mantissa {ds : List Nat} {e : Int} (hlt : ∀ d ∈ ds, d < 10) (hne : ds ≠ [])
    (hhead : ds.head? ≠ some 0) :
    WellFormed ⟨negative, ds.take 1, ds.drop 1, some (decide (e < 0), digits e.natAbs)⟩ where
  whole_ne_nil := by simpa using hne
  zero_alone h := by
    rw [List.head?_take, if_neg (by decide)] at h
    exact absurd h hhead
  whole_lt d hd := hlt d (List.mem_of_mem_take hd)
  fraction_lt d hd := hlt d (List.mem_of_mem_drop hd)
  exponent_ne_nil := by
    rintro _ _ ⟨⟩
    exact Binary64.digits_ne_nil _
  exponent_lt := by
    rintro _ _ ⟨⟩
    exact Binary64.digits_lt _

/-- A number without an exponent, of whose whole digits the first is no zero, or which has no
other. -/
theorem wellFormed_of_point {whole fraction : List Nat} (hne : whole ≠ [])
    (hzero : whole.head? = some 0 → whole = [0]) (hwhole : ∀ d ∈ whole, d < 10)
    (hfraction : ∀ d ∈ fraction, d < 10) : WellFormed ⟨negative, whole, fraction, none⟩ :=
  ⟨hne, hzero, hwhole, hfraction, nofun, nofun⟩

theorem wellFormed_ofScaled (hm : 0 < m) : (ofScaled negative m k).WellFormed := by
  have hlt := Binary64.digits_lt m
  have hne := Binary64.digits_ne_nil m
  have hhead := Binary64.digits_head hm
  unfold ofScaled
  simp only
  generalize digits m = ds at *
  generalize k + ds.length - 1 = e
  split
  · exact wellFormed_of_mantissa hlt hne hhead
  · split
    · refine wellFormed_of_point (by simp) (fun _ => rfl) (by simp) fun d hd => ?_
      rcases List.mem_append.mp hd with hd | hd
      · rw [List.eq_of_mem_replicate hd]
        decide
      · exact hlt d hd
    · split
      · refine wellFormed_of_point (List.append_ne_nil_of_left_ne_nil hne _) (fun h => ?_)
          (fun d hd => ?_) (by simp)
        · rw [List.head?_append_of_ne_nil _ hne] at h
          exact absurd h hhead
        · rcases List.mem_append.mp hd with hd | hd
          · exact hlt d hd
          · rw [List.eq_of_mem_replicate hd]
            decide
      · next hsign _ =>
        refine wellFormed_of_point ?_ (fun h => ?_) (fun d hd => hlt d (List.mem_of_mem_take hd))
          fun d hd => hlt d (List.mem_of_mem_drop hd)
        · rw [ne_eq, List.take_eq_nil_iff]
          simp only [hne, or_false]
          omega
        · rw [List.head?_take, if_neg (by omega)] at h
          exact absurd h hhead

/-- An exponent is written with its sign and its digits. -/
theorem power_digits {whole fraction : List Nat} (e : Int) :
    power ⟨negative, whole, fraction, some (decide (e < 0), digits e.natAbs)⟩ = e := by
  simp only [power, Binary64.ofDigits_digits, decide_eq_true_eq]
  split <;> omega

theorem power_point {whole fraction : List Nat} : power ⟨negative, whole, fraction, none⟩ = 0 := rfl

/-- The digits of a scaled number are its own and zeros, and zeros only in front of a point with a
single zero behind it. -/
theorem digits_ofScaled (negative : Bool) (m : Nat) (k : Int) : ∃ zeros : Nat,
    ofDigits ((ofScaled negative m k).whole ++ (ofScaled negative m k).fraction) = m * 10 ^ zeros ∧
      (ofScaled negative m k).power - (ofScaled negative m k).fraction.length = k - zeros ∧
      (zeros ≠ 0 → m * 10 ^ zeros < 10 ^ 17 ∧ k - zeros = -1) := by
  have hm := Binary64.ofDigits_digits m
  have hlt := Binary64.ofDigits_lt (Binary64.digits_lt m)
  have hne := Binary64.digits_ne_nil m
  rw [hm] at hlt
  unfold ofScaled
  simp only
  generalize hds : digits m = ds at *
  have hlen : 0 < ds.length := List.length_pos_iff.mpr hne
  generalize he : k + ds.length - 1 = e
  split
  · refine ⟨0, ?_, ?_, fun h => absurd rfl h⟩
    · rw [List.take_append_drop, hm, Nat.pow_zero, Nat.mul_one]
    · rw [power_digits, List.length_drop]
      omega
  · split
    · refine ⟨0, ?_, ?_, fun h => absurd rfl h⟩
      · rw [Binary64.ofDigits_append, Binary64.ofDigits_append, Binary64.ofDigits_replicate_zero,
          hm]
        simp [ofDigits]
      · rw [power_point, List.length_append, List.length_replicate]
        omega
    · split
      · obtain ⟨zeros, rfl⟩ : ∃ zeros : Nat, k = zeros := Int.eq_ofNat_of_zero_le (by omega)
        have hzeros : (e + 1).toNat - ds.length = zeros := by omega
        refine ⟨zeros + 1, ?_, ?_, fun _ => ⟨?_, by omega⟩⟩
        · rw [hzeros, Binary64.ofDigits_append, Binary64.ofDigits_append,
            Binary64.ofDigits_replicate_zero, hm]
          simp [ofDigits, Nat.pow_succ, Nat.mul_assoc]
        · rw [power_point, List.length_singleton]
          omega
        · calc m * 10 ^ (zeros + 1) < 10 ^ ds.length * 10 ^ (zeros + 1) :=
                Nat.mul_lt_mul_of_pos_right hlt (Nat.pow_pos (by decide))
            _ = 10 ^ (ds.length + (zeros + 1)) := (Nat.pow_add _ _ _).symm
            _ ≤ 10 ^ 17 := Nat.pow_le_pow_right (by decide) (by omega)
      · refine ⟨0, ?_, ?_, fun h => absurd rfl h⟩
        · rw [List.take_append_drop, hm, Nat.pow_zero, Nat.mul_one]
        · rw [power_point, List.length_drop]
          omega

theorem units_ofScaled : (ofScaled negative m k).units = m * 10 ^ k * one := by
  obtain ⟨zeros, hdigits, hpower, -⟩ := digits_ofScaled negative m k
  rw [units, hdigits, hpower, zpow_split k zeros]
  push_cast
  ring

/-- There is a fraction or an exponent in any text. -/
theorem ofScaled_real (negative : Bool) (m : Nat) (k : Int) :
    (ofScaled negative m k).fraction ≠ [] ∨ (ofScaled negative m k).exponent ≠ none := by
  have hne := Binary64.digits_ne_nil m
  unfold ofScaled
  simp only
  split
  · exact .inr (by simp)
  · split
    · exact .inl (List.append_ne_nil_of_right_ne_nil _ hne)
    · split
      · exact .inl (by simp)
      · next hlong =>
        refine .inl ?_
        rw [ne_eq, List.drop_eq_nil_iff]
        exact hlong

theorem negative_ofScaled (negative : Bool) (m : Nat) (k : Int) :
    (ofScaled negative m k).negative = negative := by
  unfold ofScaled
  simp only
  split
  · rfl
  · split
    · rfl
    · split <;> rfl

theorem power_ofScaled_bounds (negative : Bool) (m : Nat) (k : Int) :
    min 0 (k + (digits m).length - 1) ≤ (ofScaled negative m k).power ∧
      (ofScaled negative m k).power ≤ max 0 (k + (digits m).length - 1) := by
  unfold ofScaled
  simp only
  split
  · rw [power_digits]
    exact ⟨min_le_right _ _, le_max_right _ _⟩
  · split
    · exact ⟨min_le_left _ _, le_max_left _ _⟩
    · split <;> exact ⟨min_le_left _ _, le_max_left _ _⟩

/-- A number that is not too large has no large exponent. -/
theorem power_ofScaled_lt (hm : 0 < m) (hk : -324 ≤ k) (h : (m : ℚ) * 10 ^ k < 10 ^ 309) :
    (ofScaled negative m k).power.natAbs < 2 ^ 31 := by
  obtain ⟨hlow, hhigh⟩ := power_ofScaled_bounds negative m k
  have hlength := List.length_pos_iff.mpr (Binary64.digits_ne_nil m)
  suffices k + (digits m).length - 1 < 309 by omega
  by_contra hlarge
  have hplace : (10 : ℚ) ^ ((digits m).length - 1) ≤ m := by
    have := Binary64.pow_le_ofDigits (Binary64.digits_ne_nil m) (Binary64.digits_head hm)
    rw [Binary64.ofDigits_digits] at this
    exact_mod_cast this
  have hfirst : (309 : Int) ≤ ((digits m).length - 1 : Nat) + k := by omega
  refine absurd h (not_lt.mpr ?_)
  calc (10 : ℚ) ^ 309 = 10 ^ (309 : Int) := by norm_num
    _ ≤ 10 ^ (((digits m).length - 1 : Nat) + k) := zpow_le_zpow_right₀ (by norm_num) hfirst
    _ = 10 ^ ((digits m).length - 1) * 10 ^ k := by rw [zpow_add₀ (by norm_num), zpow_natCast]
    _ ≤ m * 10 ^ k := mul_le_mul_of_nonneg_right hplace (zpow_nonneg (by norm_num) _)

/-- The two largest numbers are not `scalable`, and still their digits are scaled to finite ones. -/
theorem value?_largest {u : Nat} (hu : OnGrid u) (hlarge : (2 ^ 54 - 6) * 2 ^ 2044 < u) :
    ∃ m, Binary64.shortest u = ⟨m, 292⟩ ∧ Binary64.trimZeros (Binary64.digitCount m) m = (m, 0) ∧
      ∀ negative, ((ofScaled negative m 292).value?).isSome = true := by
  have hdigits : ∀ m ∈ [17976931348623155, 17976931348623157],
      Binary64.trimZeros (Binary64.digitCount m) m = (m, 0) ∧
        ∀ negative, ((ofScaled negative m 292).value?).isSome = true := by decide +kernel
  have hfirst : Binary64.shortest ((2 ^ 54 - 4) * 2 ^ 2044) = ⟨17976931348623155, 292⟩ := by
    decide +kernel
  have hsecond : Binary64.shortest ((2 ^ 54 - 2) * 2 ^ 2044) = ⟨17976931348623157, 292⟩ := by
    decide +kernel
  rcases Binary64.eq_largest hu hlarge with h | h
  · exact ⟨_, (congrArg Binary64.shortest h).trans hfirst, hdigits _ (by simp)⟩
  · exact ⟨_, (congrArg Binary64.shortest h).trans hsecond, hdigits _ (by simp)⟩

theorem chars_ofScaled_true (m : Nat) (k : Int) :
    (ofScaled true m k).chars = '-' :: (ofScaled false m k).chars := by
  unfold ofScaled
  simp only
  split
  · rfl
  · split
    · rfl
    · split <;> rfl

/-! ### The texts that write a number -/

/-- What makes a text the text of a number: its value rounds to the number as that of no decimal
with fewer digits does, its digits all fit, and it has a fraction or an exponent. -/
structure Writes (t : NumberText) (negative : Bool) (u : Nat) : Prop where
  wellFormed : t.WellFormed
  negative_eq : t.negative = negative
  real : t.fraction ≠ [] ∨ t.exponent ≠ none
  roundsTo : RoundsTo t.units u
  fewest : ∃ d : Decimal, d.units = t.units ∧ ∀ d' : Decimal, RoundsTo d'.units u →
    Binary64.digitCount d.digits ≤ Binary64.digitCount d'.digits
  digits_lt : ofDigits (t.whole ++ t.fraction) < 2 ^ 64
  place_ge : -324 ≤ t.power - t.fraction.length
  power_lt : t.power.natAbs < 2 ^ 31
  hasValue : ∃ n, t.value? = some n

/-- A value is above the number it rounds to by half the largest spacing at most. -/
theorem le_of_roundsTo {v : ℚ} {u : Nat} (hu : OnGrid u) (h : RoundsTo v u) :
    v ≤ u + 2 ^ 2044 := by
  have hspacing : (Binary64.spacing u : ℚ) ≤ 2 ^ 2045 := by
    exact_mod_cast Binary64.spacing_le hu.1
  have hhalf : (2 : ℚ) ^ 2045 = 2 * 2 ^ 2044 := pow_succ' 2 2044
  have hclose := (abs_le.mp h.abs_sub_le).2
  generalize (2 : ℚ) ^ 2044 = s at *
  linarith

theorem value?_ofScaled (hm : 0 < m) (hpower : (ofScaled negative m k).power < 2 ^ 31) {u : Nat}
    (hu : OnGrid u) (hle : u ≤ (2 ^ 54 - 6) * 2 ^ 2044) (hrounds : RoundsTo (m * 10 ^ k * one) u) :
    ∃ n, (ofScaled negative m k).value? = some n := by
  refine value?_isSome (wellFormed_ofScaled hm) hpower ?_
  have hsum : u + 2 ^ 2044 ≤ scalable := by
    rw [scalable]
    generalize 2 ^ 2044 = s at *
    omega
  rw [units_ofScaled]
  exact le_trans (le_of_roundsTo hu hrounds) (by exact_mod_cast hsum)

/-- A number that rounds to one of the format is below `10^309`. -/
theorem lt_of_roundsTo {u : Nat} (hu : OnGrid u) (hrounds : RoundsTo (m * 10 ^ k * one) u) :
    (m : ℚ) * 10 ^ k < 10 ^ 309 := by
  have hbound : overflow + 2 ^ 2044 < 10 ^ 309 * one := by decide +kernel
  have hlt : u + 2 ^ 2044 < 10 ^ 309 * one := Nat.lt_trans (Nat.add_lt_add_right hu.1 _) hbound
  have hlt : (u + 2 ^ 2044 : ℚ) < 10 ^ 309 * one := by exact_mod_cast hlt
  exact lt_of_mul_lt_mul_right (lt_of_le_of_lt (le_of_roundsTo hu hrounds) hlt) one_cast_pos.le

theorem writes_ofScaled {u : Nat} (hu : OnGrid u) (hm : 0 < m) (hmax : m ≤ 10 ^ 17)
    (hk : -324 ≤ k) (hrounds : RoundsTo (m * 10 ^ k * one) u)
    (hfewest : ∃ d : Decimal, d.units = m * 10 ^ k * one ∧ ∀ d' : Decimal, RoundsTo d'.units u →
      Binary64.digitCount d.digits ≤ Binary64.digitCount d'.digits)
    (hvalue : ∃ n, (ofScaled negative m k).value? = some n) :
    (ofScaled negative m k).Writes negative u := by
  obtain ⟨zeros, hdigits, hplace, hzeros⟩ := digits_ofScaled negative m k
  refine ⟨wellFormed_ofScaled hm, negative_ofScaled _ _ _, ofScaled_real _ _ _, ?_, ?_, ?_, ?_,
    power_ofScaled_lt hm hk (lt_of_roundsTo hu hrounds), hvalue⟩
  · rwa [units_ofScaled]
  · rwa [units_ofScaled]
  · rw [hdigits]
    rcases Nat.eq_zero_or_pos zeros with rfl | hpos
    · omega
    · have := (hzeros (Nat.ne_of_gt hpos)).1
      omega
  · rw [hplace]
    rcases Nat.eq_zero_or_pos zeros with rfl | hpos
    · omega
    · have := (hzeros (Nat.ne_of_gt hpos)).2
      omega

/-- The number text of a decimal, without the zeros its digits end in. -/
theorem ofDecimal_eq (negative : Bool) (d : Decimal) : ∃ m cut : Nat, m * 10 ^ cut = d.digits ∧
    (m : ℚ) * 10 ^ (d.exponent + cut) * one = d.units ∧
      ofDecimal negative d = ofScaled negative m (d.exponent + cut) := by
  have htrim := Binary64.trimZeros_mul (Binary64.digitCount d.digits) d.digits
  unfold ofDecimal
  generalize Binary64.trimZeros (Binary64.digitCount d.digits) d.digits = p at *
  obtain ⟨count, k⟩ := d
  obtain rfl : count = p.1 * 10 ^ p.2 := htrim.symm
  exact ⟨p.1, p.2, rfl, (Decimal.units_mul_pow p.1 p.2 k).symm, rfl⟩

/-- The number text of the shortest decimal writes its number. -/
theorem writes_shortest (negative : Bool) {u : Nat} (hu : OnGrid u) (hpos : 0 < u) :
    (ofDecimal negative (Binary64.shortest u)).Writes negative u := by
  obtain ⟨count, hcount, hstands, hplace, -⟩ := Binary64.shortest_stands hu hpos
  obtain ⟨m, cut, hdigits, hunits, htext⟩ := ofDecimal_eq negative (Binary64.shortest u)
  have hm : 0 < m := Nat.pos_of_ne_zero fun hzero =>
    hstands.digits_ne_zero (by rw [← hdigits, hzero, Nat.zero_mul])
  have hmax : m ≤ 10 ^ 17 := calc
    m ≤ m * 10 ^ cut := Nat.le_mul_of_pos_right _ (Nat.pow_pos (by decide))
    _ ≤ 10 ^ count := hdigits ▸ hstands.digits_le
    _ ≤ 10 ^ 17 := Nat.pow_le_pow_right (by decide) hcount
  have hrounds : RoundsTo (m * 10 ^ ((Binary64.shortest u).exponent + cut) * one) u :=
    hunits ▸ hstands.roundsTo
  have hfewest := Binary64.exists_fewest_digits hu hpos
  rw [← hunits] at hfewest
  have hk : -324 ≤ (Binary64.shortest u).exponent + cut := by omega
  have hpower :
      (ofScaled negative m ((Binary64.shortest u).exponent + cut)).power.natAbs < 2 ^ 31 :=
    power_ofScaled_lt hm hk (lt_of_roundsTo hu hrounds)
  have hvalue : ∃ n, (ofDecimal negative (Binary64.shortest u)).value? = some n := by
    rcases Nat.lt_or_ge ((2 ^ 54 - 6) * 2 ^ 2044) u with hlarge | hle
    · obtain ⟨digits, hshortest, htrim, hsome⟩ := value?_largest hu hlarge
      rw [ofDecimal, hshortest, htrim]
      exact Option.isSome_iff_exists.mp (hsome negative)
    · rw [htext]
      exact value?_ofScaled hm (by omega) hu hle hrounds
  rw [htext] at hvalue ⊢
  exact writes_ofScaled hu hm hmax hk hrounds hfewest hvalue

theorem writes_zero (negative : Bool) : (zero negative).Writes negative 0 := by
  have hformed : (zero negative).WellFormed :=
    wellFormed_of_point (by simp) (fun _ => rfl) (by simp) (by simp)
  have hdigits : ofDigits ((zero negative).whole ++ (zero negative).fraction) = 0 := rfl
  have hunits : (zero negative).units = 0 := by
    rw [units, hdigits, Nat.cast_zero, zero_mul, zero_mul]
  refine ⟨hformed, rfl, .inl (List.cons_ne_nil _ _), ?_, ⟨⟨0, 0⟩, ?_, fun d' _ => ?_⟩, ?_, ?_, ?_,
    ?_⟩
  · rw [hunits]
    exact ⟨0, 1, Nat.one_pos, by simp, Binary64.nearestUnits_self (Nat.dvd_zero _)⟩
  · rw [hunits, Decimal.units, Nat.cast_zero, zero_mul, zero_mul]
  · have hzero : Binary64.digitCount 0 ≤ 1 := Binary64.digitCount_le (by decide) Nat.one_pos
    exact Nat.le_trans hzero (Binary64.digitCount_pos d'.digits)
  · exact hdigits ▸ Nat.two_pow_pos 64
  · exact (by decide : (-324 : Int) ≤ -1)
  · exact Nat.two_pow_pos 31
  · refine value?_isSome hformed (Int.pow_pos (by decide)) ?_
    rw [hunits]
    exact Nat.cast_nonneg _

theorem toList_text_zero (negative : Bool) (h : OnGrid 0) :
    (Binary64.finite negative 0 h).text.toList = (zero negative).chars := by
  cases negative <;> simp [Binary64.text, zero, chars, fractionChars, exponentChars, Nat.digitChar]

theorem toList_signed (negative : Bool) (d : Decimal) :
    (if negative then "-" ++ d.text else d.text).toList = (ofDecimal negative d).chars := by
  cases negative with
  | false => exact toList_text d
  | true =>
    have hminus : "-".toList = ['-'] := rfl
    rw [if_pos rfl, String.toList_append, toList_text, hminus, List.singleton_append]
    exact (chars_ofScaled_true _ _).symm

/-- The text of a finite number writes it. -/
theorem exists_writes (negative : Bool) {u : Nat} (hu : OnGrid u) : ∃ t : NumberText,
    t.Writes negative u ∧ (Binary64.finite negative u hu).text.toList = t.chars := by
  rcases Nat.eq_zero_or_pos u with rfl | hpos
  · exact ⟨zero negative, writes_zero negative, toList_text_zero negative hu⟩
  · refine ⟨_, writes_shortest negative hu hpos, ?_⟩
    rw [Binary64.text_of_ne_zero negative hu (Nat.ne_of_gt hpos), toList_signed]

/-- The text of a finite number is a number of the grammar and has a value. -/
theorem exists_text {x : Binary64} (hx : x.isFinite = true) :
    ∃ t : NumberText, t.WellFormed ∧ x.text.toList = t.chars ∧ ∃ n, t.value? = some n := by
  cases x with
  | nan => cases hx
  | infinite => cases hx
  | finite negative u hu =>
    obtain ⟨t, hwrites, htext⟩ := exists_writes negative hu
    exact ⟨t, hwrites.wellFormed, htext, hwrites.hasValue⟩

end NumberText

end Uplink.Json

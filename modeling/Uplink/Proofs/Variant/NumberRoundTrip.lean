import Uplink.Proofs.Variant.Decode

/-! What decoding makes of a number that was written. Its text is exact, but reading rounds the
digits, the power of ten and what comes of them, so that a number may come back as a near one. It
comes back itself where the digits and the power of ten are numbers of the format. -/

namespace Uplink

namespace Json.NumberText.Writes

open Binary64 (OnGrid finite one one_cast_pos spacing)

variable {t : NumberText} {negative : Bool} {u : Nat} {m : Number}

/-- All the digits of the text are scaled at once. -/
theorem scaled_units (h : t.Writes negative u) :
    (t.scaled.significand : ℚ) * 10 ^ (t.scaled.exponent + t.power) * one = t.units := by
  rw [scaled_of_lt h.wellFormed h.digits_lt, neg_add_eq_sub]
  rfl

theorem close (h : t.Writes negative u) (hm : t.value? = some m) :
    Close negative (9 / 4 / 2 ^ 53) m.toBinary64 t.units := by
  have hplace : -330 ≤ t.scaled.exponent + t.power := by
    have hplace := h.place_ge
    rw [scaled_of_lt h.wellFormed h.digits_lt]
    simp only
    omega
  have hclose := (close_value? h.wellFormed h.power_lt hm).2 hplace
  rwa [h.negative_eq, h.scaled_units] at hclose

/-- The value is a multiple of that of a digit in the 324th place, which is a little more than a
fifth of a unit. -/
theorem exists_multiple (h : t.Writes negative u) : ∃ (n : Nat) (w : ℚ),
    1 / 5 < w ∧ w < 5 / 24 ∧ t.units = n * w := by
  have hplace := h.place_ge
  obtain ⟨k, hk⟩ : ∃ k : Nat, t.power - t.fraction.length = k + -324 :=
    ⟨(t.power - t.fraction.length + 324).toNat, by omega⟩
  have hpow : (0 : ℚ) < 10 ^ 324 := by positivity
  have hbounds : 10 ^ 324 < 5 * one ∧ 24 * one < 5 * 10 ^ 324 := by decide +kernel
  have hlow : (10 ^ 324 : ℚ) < 5 * one := by exact_mod_cast hbounds.1
  have hhigh : (24 * one : ℚ) < 5 * 10 ^ 324 := by exact_mod_cast hbounds.2
  refine ⟨ofDigits (t.whole ++ t.fraction) * 10 ^ k, one / 10 ^ 324, ?_, ?_, ?_⟩
  · rw [lt_div_iff₀ hpow]
    linarith
  · rw [div_lt_iff₀ hpow]
    linarith
  · have hsplit : (10 : ℚ) ^ ((k : Int) + -324) = 10 ^ k / 10 ^ 324 := by
      rw [zpow_add₀ (by norm_num), zpow_natCast]
      rfl
    rw [units, hk, hsplit]
    push_cast
    ring

/-- No value is about half a unit. -/
theorem units_gap (h : t.Writes negative u) : t.units < 5 / 12 ∨ 3 / 5 < t.units := by
  obtain ⟨n, w, hlow, hhigh, hunits⟩ := h.exists_multiple
  have hw : 0 ≤ w := by linarith
  rcases Nat.lt_or_ge n 3 with hn | hn
  · left
    have hn : (n : ℚ) ≤ 2 := by exact_mod_cast Nat.le_of_lt_succ hn
    have := mul_le_mul_of_nonneg_right hn hw
    linarith
  · right
    have hn : (3 : ℚ) ≤ n := by exact_mod_cast hn
    have := mul_le_mul_of_nonneg_right hn hw
    linarith

theorem units_lt_of_zero (h : t.Writes negative 0) : t.units < 5 / 12 := by
  have hclose := (abs_le.mp h.roundsTo.abs_sub_le).2
  have hspacing : spacing 0 = 1 := Binary64.spacing_of_lt (by decide)
  rw [hspacing, Nat.cast_zero, Nat.cast_one, sub_zero] at hclose
  exact h.units_gap.resolve_right (by linarith)

theorem lt_units_of_pos (h : t.Writes negative u) (hu : OnGrid u) (hpos : 0 < u) :
    3 / 5 < t.units := by
  have hclose := (abs_le.mp h.roundsTo.abs_sub_le).1
  have hspacing : (spacing u : ℚ) ≤ u := by exact_mod_cast Nat.le_of_dvd hpos hu.2
  have hone : (1 : ℚ) ≤ u := by exact_mod_cast hpos
  exact h.units_gap.resolve_left (by linarith)

theorem abs_sub_lt {v : Nat} (h : t.Writes negative u)
    (hclose : |(v : ℚ) - t.units| ≤
      9 / 4 / 2 ^ 53 * t.units + 1 / 16 + max (1 / 2) (9 / 8 * t.units / 2 ^ 53)) :
    |(v : ℚ) - u| < 4 * spacing u := by
  have hwritten := h.roundsTo.abs_sub_le
  have hspacing : (1 : ℚ) ≤ spacing u := by exact_mod_cast Binary64.spacing_pos u
  have hlt : (u : ℚ) < 2 ^ 53 * spacing u := by exact_mod_cast Binary64.lt_mul_spacing u
  have hunits : t.units ≤ u + spacing u / 2 := by linarith [(abs_le.mp hwritten).2]
  have hlast : max (1 / 2) (9 / 8 * t.units / 2 ^ 53) ≤ (37 / 32 : ℚ) * spacing u := by
    refine max_le (by linarith) ?_
    rw [div_le_iff₀ (by norm_num)]
    norm_num at hlt ⊢
    linarith
  have htriangle := abs_sub_le (v : ℚ) t.units u
  norm_num at hlt hclose
  linarith

/-- Nothing is read as zero but zero, and zero as nothing else. -/
theorem eq_zero_iff {v : Nat} (h : t.Writes negative u) (hu : OnGrid u)
    (hclose : |(v : ℚ) - t.units| ≤
      9 / 4 / 2 ^ 53 * t.units + 1 / 16 + max (1 / 2) (9 / 8 * t.units / 2 ^ 53)) :
    v = 0 ↔ u = 0 := by
  obtain ⟨hlow, hhigh⟩ := abs_le.mp hclose
  constructor
  · rintro rfl
    by_contra hne
    have hunits := h.lt_units_of_pos hu (Nat.pos_of_ne_zero hne)
    rw [Nat.cast_zero, zero_sub] at hlow
    rcases max_choice (1 / 2 : ℚ) (9 / 8 * t.units / 2 ^ 53) with hlast | hlast <;>
      rw [hlast] at hlow <;> norm_num at hlow <;> linarith
  · rintro rfl
    have hunits := h.units_lt_of_zero
    have hlast : max (1 / 2) (9 / 8 * t.units / 2 ^ 53) = 1 / 2 := by
      refine max_eq_left ?_
      rw [div_le_iff₀ (by norm_num)]
      linarith
    rw [hlast] at hhigh
    have hlt : (v : ℚ) < 1 := by
      norm_num at hhigh
      linarith
    exact Nat.lt_one_iff.mp (by exact_mod_cast hlt)

/-- A number of at most `2^53` in digits, scaled by at most `10^22`, is read as it was written. -/
theorem value?_exact (h : t.Writes negative u) (hu : OnGrid u)
    (hdigits : ofDigits (t.whole ++ t.fraction) ≤ 2 ^ 53)
    (hplace : (t.power - t.fraction.length).natAbs ≤ 22) :
    t.value? = some (.real (finite negative u hu) rfl) := by
  have hreal : ¬t.IsInteger := fun hint => h.real.elim (absurd hint.2.1) (absurd hint.2.2)
  have hrounds := h.roundsTo
  rw [units] at hrounds
  rw [value?_eq, if_neg hreal, if_pos h.power_lt, scaled_of_lt h.wellFormed h.digits_lt,
    neg_add_eq_sub]
  refine Eq.trans (congrArg (Option.bind · _) (scale?_exact hdigits hplace hu hrounds)) ?_
  rw [Option.bind_some, h.negative_eq, Number.signed?_finite]

end Json.NumberText.Writes

namespace Variant

open Binary64 (OnGrid finite spacing)
open Json (NumberText)
open Text.Utf8 (encode)

theorem decode_number {t : NumberText} {n : Json.Number} (ht : t.WellFormed)
    (hn : t.value? = some n) : decode (encode t.chars) = .number n.toBinary64 := by
  have hvalue := Json.Grammar.Value.number Json.nestingLimit ht t.spelled_chars hn
  exact decode_of_spells ⟨t.chars, rfl, Json.Grammar.document_of_value hvalue⟩

/-- A finite number is written with the fewest digits that round to it, and with a fraction or an
exponent. Its text decodes to a finite number of its sign, less than four spacings from it, and to
zero only if it is zero. Where the digits make a number of up to `2^53` and the power of ten is of
22 at most, it decodes to the number itself. -/
theorem decode_written_number {x : Binary64} (hx : x.isFinite = true) :
    ∃ (s : Bool) (u v : Nat) (hu : OnGrid u) (hv : OnGrid v) (t : NumberText),
      x = finite s u hu ∧ t.Writes s u ∧
      Outgoing.bodyBytes (some (.json (.number x))) = encode t.chars ∧
      decode (encode t.chars) = .number (finite s v hv) ∧
      |(v : Int) - u| < 4 * spacing u ∧ (v = 0 ↔ u = 0) ∧
      (Json.ofDigits (t.whole ++ t.fraction) ≤ 2 ^ 53 →
        (t.power - t.fraction.length).natAbs ≤ 22 → v = u) := by
  cases x with
  | nan => cases hx
  | infinite => cases hx
  | finite s u hu =>
    obtain ⟨t, hwrites, htext⟩ := NumberText.exists_writes s hu
    obtain ⟨n, hn⟩ := hwrites.hasValue
    obtain ⟨v, hv, hvalue, hclose⟩ := hwrites.close hn
    refine ⟨s, u, v, hu, hv, t, rfl, hwrites, ?_, ?_, ?_, hwrites.eq_zero_iff hu hclose, ?_⟩
    · rw [Outgoing.bodyBytes, chars, if_pos hx, htext]
    · rw [decode_number hwrites.wellFormed hn, hvalue]
    · exact_mod_cast hwrites.abs_sub_lt hclose
    · intro hdigits hplace
      have hexact := hwrites.value?_exact hu hdigits hplace
      obtain rfl : n = .real (finite s u hu) rfl := Option.some.inj (hn.symm.trans hexact)
      injection hvalue with _ hunits
      exact hunits.symm

/-- One tenth, whose text has a digit after the point. -/
theorem decode_written_tenth :
    let x : Binary64 := .ofQuotient false Binary64.one 10
    x.isFinite = true ∧
      ∃ (s : Bool) (u v : Nat) (hu : OnGrid u) (hv : OnGrid v) (t : NumberText),
        x = finite s u hu ∧ t.Writes s u ∧
        Outgoing.bodyBytes (some (.json (.number x))) = encode t.chars ∧
        decode (encode t.chars) = .number (finite s v hv) ∧
        |(v : Int) - u| < 4 * spacing u ∧ (v = 0 ↔ u = 0) ∧
        (Json.ofDigits (t.whole ++ t.fraction) ≤ 2 ^ 53 →
          (t.power - t.fraction.length).natAbs ≤ 22 → v = u) := by
  have hfinite : (Binary64.ofQuotient false Binary64.one 10).isFinite = true := by decide +kernel
  exact ⟨hfinite, decode_written_number hfinite⟩

/-- The largest odd number of 53 bits is written with a zero behind its point, and its digits with
that zero are rounded. -/
theorem decode_written_odd :
    let x : Binary64 := .ofNat 9007199254740991
    x.isFinite = true ∧
      decode (Outgoing.bodyBytes (some (.json (.number x)))) = .number (.ofNat 9007199254740990) ∧
      decode (Outgoing.bodyBytes (some (.json (.number x)))) ≠ .number x := by
  intro x
  let t : NumberText := ⟨false, [9, 0, 0, 7, 1, 9, 9, 2, 5, 4, 7, 4, 0, 9, 9, 1], [0], none⟩
  have hfinite : x.isFinite = true := by decide +kernel
  have htext : x.text.toList = t.chars := by decide +kernel
  have hvalue : t.value?.map Json.Number.toBinary64 = some (.ofNat 9007199254740990) := by
    decide +kernel
  have hne : Binary64.ofNat 9007199254740990 ≠ x := by decide +kernel
  have hformed : t.WellFormed :=
    NumberText.wellFormed_of_point (by decide) nofun (by decide) (by decide)
  obtain ⟨n, hn, hround⟩ := Option.map_eq_some_iff.mp hvalue
  have hdecode : decode (Outgoing.bodyBytes (some (.json (.number x)))) =
      .number (.ofNat 9007199254740990) := by
    rw [Outgoing.bodyBytes, chars, if_pos hfinite, htext, decode_number hformed hn, hround]
  refine ⟨hfinite, hdecode, fun hsame => ?_⟩
  rw [hdecode] at hsame
  injection hsame with hsame
  exact hne hsame

end Variant

end Uplink

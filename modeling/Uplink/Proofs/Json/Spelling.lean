import Uplink.Json.Writer
import Uplink.Proofs.Json.Grammar
import Uplink.Proofs.Text.Utf8

/-! Spaces and strings against the grammar: what the reader takes is written as the grammar has it,
and whatever is so written it takes, and with that what the writer writes. -/

namespace Uplink.Json

open Grammar

variable {cs rest : List Char} {c : Char} {n : Nat}

/-! ### Spaces -/

theorem isSpace_iff : isSpace c = true ↔ c = ' ' ∨ c = '\t' ∨ c = '\n' ∨ c = '\r' := by
  simp [isSpace, or_assoc]

theorem skipSpace_of_not_space (h : isSpace c = false) (cs : List Char) :
    skipSpace (c :: cs) = c :: cs := by
  simp [skipSpace, h]

theorem exists_spaces (cs : List Char) : ∃ a, Spaces a ∧ cs = a ++ skipSpace cs := by
  induction cs with
  | nil => exact ⟨[], nofun, rfl⟩
  | cons c cs ih =>
    rw [skipSpace]
    split
    · next hc =>
      obtain ⟨a, ha, hcs⟩ := ih
      exact ⟨c :: a, List.forall_mem_cons.mpr ⟨isSpace_iff.mp hc, ha⟩, congrArg _ hcs⟩
    · exact ⟨[], nofun, rfl⟩

theorem skipSpace_append {a : List Char} (ha : Spaces a) (cs : List Char) :
    skipSpace (a ++ cs) = skipSpace cs := by
  induction a with
  | nil => rfl
  | cons c a ih =>
    obtain ⟨hc, ha⟩ := List.forall_mem_cons.mp ha
    rw [List.cons_append, skipSpace, if_pos (isSpace_iff.mpr hc), ih ha]

theorem skipSpace_skipSpace (cs : List Char) : skipSpace (skipSpace cs) = skipSpace cs := by
  obtain ⟨a, ha, hcs⟩ := exists_spaces cs
  calc skipSpace (skipSpace cs) = skipSpace (a ++ skipSpace cs) := (skipSpace_append ha _).symm
    _ = skipSpace cs := by rw [← hcs]

theorem spaces_of_skipSpace_eq_nil (h : skipSpace cs = []) : Spaces cs := by
  obtain ⟨a, ha, hcs⟩ := exists_spaces cs
  rw [h, List.append_nil] at hcs
  rwa [hcs]

/-! ### Hexadecimal digits -/

theorem hexDigit?_ascii : ∀ m < 128,
    (∀ n ∈ hexDigit? (Char.ofNat m), n < 16) ∧
      ∀ n < 16, hexDigit? (Char.ofNat m) = some n ↔
        (Char.ofNat m).toLower = Nat.digitChar n := by
  decide +kernel

/-- Beyond ASCII there is no digit. -/
theorem hexDigit?_of_le (hc : 128 ≤ c.toNat) :
    hexDigit? c = none ∧ ∀ n < 16, c.toLower ≠ Nat.digitChar n := by
  have hval : c.val.toNat = c.toNat := rfl
  have hdigit : ∀ n < 16, (Nat.digitChar n).toNat < 128 := by decide
  have hlower : c.toLower = c := by
    unfold Char.toLower
    rw [dif_neg]
    rintro ⟨-, hZ⟩
    have := UInt32.le_iff_toNat_le.mp hZ
    simp at this
    omega
  constructor
  · simp only [hexDigit?, Char.isDigit, Char.le_def, ge_iff_le, UInt32.le_iff_toNat_le, hval,
      Bool.and_eq_true, decide_eq_true_eq]
    simp only [Char.reduceVal, UInt32.reduceToNat]
    rw [if_neg (by omega), if_neg (by omega), if_neg (by omega)]
  · intro n hn heq
    have := hdigit n hn
    rw [← heq, hlower] at this
    omega

theorem hexDigit?_eq_some_iff : hexDigit? c = some n ↔ HexDigit c n := by
  rcases Nat.lt_or_ge c.toNat 128 with hc | hc
  · obtain ⟨hlt, hiff⟩ := hexDigit?_ascii c.toNat hc
    rw [Char.ofNat_toNat] at hlt hiff
    exact ⟨fun h => ⟨hlt n h, (hiff n (hlt n h)).mp h⟩, fun h => (hiff n h.1).mpr h.2⟩
  · obtain ⟨hnone, hne⟩ := hexDigit?_of_le hc
    rw [hnone]
    exact ⟨nofun, fun h => absurd h.2 (hne n h.1)⟩

theorem eq_of_hexUnit? (h : hexUnit? cs = some (n, rest)) :
    ∃ u, HexUnit u n ∧ cs = u ++ rest := by
  unfold hexUnit? at h
  split at h
  · next c₃ c₂ c₁ c₀ cs =>
    simp only [bind, Option.bind_eq_some_iff, Option.some.injEq, Prod.mk.injEq] at h
    obtain ⟨n₃, h₃, n₂, h₂, n₁, h₁, n₀, h₀, hn, rfl⟩ := h
    rw [hexDigit?_eq_some_iff] at h₃ h₂ h₁ h₀
    have hvalue : n = n₃ * 0x1000 + n₂ * 0x100 + n₁ * 0x10 + n₀ := by omega
    exact ⟨[c₃, c₂, c₁, c₀], hvalue ▸ .mk h₃ h₂ h₁ h₀, rfl⟩
  · cases h

theorem hexUnit?_append {u : List Char} (h : HexUnit u n) (rest : List Char) :
    hexUnit? (u ++ rest) = some (n, rest) := by
  obtain ⟨h₃, h₂, h₁, h₀⟩ := h
  rw [← hexDigit?_eq_some_iff] at h₃ h₂ h₁ h₀
  simp only [List.cons_append, List.nil_append, hexUnit?, h₃, h₂, h₁, h₀, bind, Option.bind,
    Option.some.injEq, Prod.mk.injEq, and_true]
  omega

/-! ### Escapes -/

theorem hexUnit_lt {u : List Char} (h : HexUnit u n) : n < 0x10000 := by
  obtain ⟨⟨h₃, -⟩, ⟨h₂, -⟩, ⟨h₁, -⟩, ⟨h₀, -⟩⟩ := h
  omega

theorem eq_of_unicodeEscape? (h : unicodeEscape? cs = some (c, rest)) :
    ∃ u, CharSpelled c ('\\' :: 'u' :: u) ∧ cs = u ++ rest := by
  simp only [unicodeEscape?, bind, Option.bind_eq_some_iff] at h
  obtain ⟨⟨high, cs'⟩, hunit, h⟩ := h
  obtain ⟨u, hhigh, rfl⟩ := eq_of_hexUnit? hunit
  have hlt := hexUnit_lt hhigh
  simp only at h
  split at h
  · next hscalar =>
    obtain ⟨rfl, rfl⟩ := Prod.mk.inj (Option.some.inj h)
    refine ⟨u, .unit ?_, rfl⟩
    rwa [Text.Utf8.toNat_ofNat_of_scalar (by omega)]
  · next hsurrogate =>
    split at h
    · cases h
    · split at h
      · next cs' =>
        simp only [Option.bind_eq_some_iff] at h
        obtain ⟨⟨low, cs''⟩, hunit, h⟩ := h
        obtain ⟨v, hlow, rfl⟩ := eq_of_hexUnit? hunit
        simp only at h
        split at h
        · next hrange =>
          obtain ⟨rfl, rfl⟩ := Prod.mk.inj (Option.some.inj h)
          have hc := Text.Utf8.toNat_ofNat_of_scalar
            (n := 0x10000 + (high - 0xd800) * 0x400 + (low - 0xdc00)) (by omega)
          have hhigh' : high = 0xd800 +
            (0x10000 + (high - 0xd800) * 0x400 + (low - 0xdc00) - 0x10000) / 0x400 := by omega
          have hlow' : low = 0xdc00 +
            (0x10000 + (high - 0xd800) * 0x400 + (low - 0xdc00) - 0x10000) % 0x400 := by omega
          refine ⟨u ++ '\\' :: 'u' :: v, .pair ?_ ?_ ?_, by simp⟩
          · omega
          · rwa [hc, ← hhigh']
          · rwa [hc, ← hlow']
        · cases h
      · cases h

theorem unicodeEscape?_unit {u : List Char} (h : HexUnit u c.toNat) (rest : List Char) :
    unicodeEscape? (u ++ rest) = some (c, rest) := by
  have hscalar : c.toNat < 0xd800 ∨ 0xdfff < c.toNat := c.valid.imp id And.left
  simp only [unicodeEscape?, hexUnit?_append h, bind, Option.bind, if_pos hscalar,
    Char.ofNat_toNat]

theorem unicodeEscape?_pair {high low : List Char} (hc : 0x10000 ≤ c.toNat)
    (hhigh : HexUnit high (0xd800 + (c.toNat - 0x10000) / 0x400))
    (hlow : HexUnit low (0xdc00 + (c.toNat - 0x10000) % 0x400)) (rest : List Char) :
    unicodeEscape? (high ++ '\\' :: 'u' :: (low ++ rest)) = some (c, rest) := by
  have hlt : c.toNat < 0xd800 ∨ 0xdfff < c.toNat ∧ c.toNat < 0x110000 := c.valid
  generalize hh : 0xd800 + (c.toNat - 0x10000) / 0x400 = h at hhigh
  generalize hl : 0xdc00 + (c.toNat - 0x10000) % 0x400 = l at hlow
  have hsurrogate : ¬(h < 0xd800 ∨ 0xdfff < h) := by omega
  have hfirst : ¬0xdc00 ≤ h := by omega
  have hsecond : 0xdc00 ≤ l ∧ l ≤ 0xdfff := by omega
  have hvalue : 0x10000 + (h - 0xd800) * 0x400 + (l - 0xdc00) = c.toNat := by omega
  simp only [unicodeEscape?, hexUnit?_append hhigh, hexUnit?_append hlow, bind, Option.bind,
    if_neg hsurrogate, if_neg hfirst, if_pos hsecond, hvalue, Char.ofNat_toNat]

/-- Behind a backslash, the reader takes what the grammar has there. -/
theorem eq_of_escape? (h : escape? cs = some (c, rest)) :
    ∃ u, CharSpelled c ('\\' :: u) ∧ cs = u ++ rest := by
  unfold escape? at h
  split at h
  case h_9 cs =>
    obtain ⟨u, hu, rfl⟩ := eq_of_unicodeEscape? h
    exact ⟨'u' :: u, hu, rfl⟩
  case h_10 => cases h
  -- The letters of the escapes of their own.
  all_goals
    obtain ⟨rfl, rfl⟩ := Prod.mk.inj (Option.some.inj h)
    exact ⟨_, .short (by decide), rfl⟩

theorem escape?_short {letter : Char} (h : (c, letter) ∈ shortEscapes) (rest : List Char) :
    escape? (letter :: rest) = some (c, rest) := by
  simp only [shortEscapes, List.mem_cons, Prod.mk.injEq, List.not_mem_nil, or_false] at h
  rcases h with ⟨rfl, rfl⟩ | ⟨rfl, rfl⟩ | ⟨rfl, rfl⟩ | ⟨rfl, rfl⟩ | ⟨rfl, rfl⟩ | ⟨rfl, rfl⟩ |
    ⟨rfl, rfl⟩ | ⟨rfl, rfl⟩ <;> rfl

theorem escape?_append {u : List Char} (h : CharSpelled c ('\\' :: u)) (rest : List Char) :
    escape? (u ++ rest) = some (c, rest) := by
  cases h with
  | plain _ _ hbackslash => exact absurd rfl hbackslash
  | short h => exact escape?_short h rest
  | unit h => exact unicodeEscape?_unit h rest
  | pair hc hhigh hlow =>
    rw [List.cons_append, List.append_assoc]
    exact unicodeEscape?_pair hc hhigh hlow rest

/-! ### Strings -/

/-- What is read up to a quote is a string as the grammar has it. -/
theorem eq_of_stringBody? {fuel : Nat} {read : List Char} {s : String}
    (h : stringBody? fuel read cs = some (s, rest)) : ∃ tail u, TextSpelled tail u ∧
      cs = u ++ '"' :: rest ∧ s = String.ofList (read.reverse ++ tail) := by
  induction fuel generalizing read cs with
  | zero => cases h
  | succ fuel ih =>
    unfold stringBody? at h
    split at h
    · cases h
    · next c cs =>
      split at h
      · next hquote =>
        obtain ⟨rfl, rfl⟩ := Prod.mk.inj (Option.some.inj h)
        exact ⟨[], [], .nil, by rw [hquote]; rfl, by rw [List.append_nil]⟩
      · next hquote =>
        split at h
        · next hbackslash =>
          subst hbackslash
          split at h
          · next e cs' hescape =>
            obtain ⟨u, hu, rfl⟩ := eq_of_escape? hescape
            obtain ⟨tail, us, htail, rfl, rfl⟩ := ih h
            exact ⟨e :: tail, _, .cons hu htail, by simp, by simp⟩
          · cases h
        · next hbackslash =>
          split at h
          · cases h
          · next hcontrol =>
            obtain ⟨tail, us, htail, rfl, rfl⟩ := ih h
            exact ⟨c :: tail, _, .cons (.plain (Nat.not_lt.mp hcontrol) hquote hbackslash) htail,
              by simp, by simp⟩

/-- One step takes one character, however it is written. -/
theorem stringBody?_spelled {u : List Char} (h : CharSpelled c u) (fuel : Nat)
    (read rest : List Char) :
    stringBody? (fuel + 1) read (u ++ rest) = stringBody? fuel (c :: read) rest := by
  have hescape : ∀ u, CharSpelled c ('\\' :: u) →
      stringBody? (fuel + 1) read ('\\' :: (u ++ rest)) = stringBody? fuel (c :: read) rest := by
    intro u hu
    have hquote : ('\\' : Char) ≠ '"' := by decide
    simp only [stringBody?, if_neg hquote, if_true, escape?_append hu]
  cases h with
  | plain hcontrol hquote hbackslash =>
    simp only [List.singleton_append, stringBody?, if_neg hquote, if_neg hbackslash,
      if_neg (Nat.not_lt.mpr hcontrol)]
  | short h => exact hescape _ (.short h)
  | unit h => exact hescape _ (.unit h)
  | pair hc hhigh hlow => exact hescape _ (.pair hc hhigh hlow)

theorem charSpelled_ne_nil {u : List Char} (h : CharSpelled c u) : u ≠ [] := by
  cases h <;> exact List.cons_ne_nil _ _

theorem length_le_of_textSpelled {u : List Char} (h : TextSpelled cs u) : cs.length ≤ u.length := by
  induction h with
  | nil => exact Nat.le_refl _
  | cons hc _ ih =>
    have := List.length_pos_iff.mpr (charSpelled_ne_nil hc)
    simp only [List.length_cons, List.length_append]
    omega

theorem stringBody?_of_textSpelled {fuel : Nat} {u : List Char} (h : TextSpelled cs u)
    (hfuel : cs.length < fuel) (read : List Char) : stringBody? fuel read (u ++ '"' :: rest) =
      some (String.ofList (read.reverse ++ cs), rest) := by
  induction h generalizing fuel read with
  | nil =>
    obtain ⟨fuel, rfl⟩ := Nat.exists_eq_succ_of_ne_zero (Nat.ne_zero_of_lt hfuel)
    simp [stringBody?]
  | cons hc _ ih =>
    obtain ⟨fuel, rfl⟩ := Nat.exists_eq_succ_of_ne_zero (Nat.ne_zero_of_lt hfuel)
    rw [List.append_assoc, stringBody?_spelled hc, ih (Nat.lt_of_succ_lt_succ hfuel)]
    simp

/-- Behind its opening quote a string is read up to the other, whatever comes behind. -/
theorem stringBody?_string {s : String} {u : List Char} (h : TextSpelled s.toList u) :
    stringBody? (u ++ '"' :: rest).length [] (u ++ '"' :: rest) = some (s, rest) := by
  have hlength := length_le_of_textSpelled h
  rw [stringBody?_of_textSpelled h, List.reverse_nil, List.nil_append, String.ofList_toList]
  rw [List.length_append, List.length_cons]
  omega

theorem hexDigit_digitChar (n : Nat) (hn : n < 16) : HexDigit (Nat.digitChar n) n := by
  have hlower : ∀ n < 16, (Nat.digitChar n).toLower = Nat.digitChar n := by decide
  exact ⟨hn, hlower n hn⟩

theorem charSpelled_escapeChar (c : Char) : CharSpelled c (escapeChar c) := by
  fun_cases escapeChar c
  case case8 hcontrol =>
    refine .unit ?_
    have hunit := HexUnit.mk (hexDigit_digitChar 0 (by decide)) (hexDigit_digitChar 0 (by decide))
      (hexDigit_digitChar (c.toNat / 16) (by omega)) (hexDigit_digitChar (c.toNat % 16) (by omega))
    have hvalue : 0 * 0x1000 + 0 * 0x100 + c.toNat / 16 * 0x10 + c.toNat % 16 = c.toNat := by omega
    rwa [hvalue] at hunit
  case case9 hquote hbackslash _ _ _ _ _ hplain =>
    exact .plain (Nat.not_lt.mp hplain) hquote hbackslash
  -- The characters with an escape of their own.
  all_goals
    subst_vars
    exact .short (by decide)

theorem textSpelled_escaped (cs : List Char) : TextSpelled cs (cs.flatMap escapeChar) := by
  induction cs with
  | nil => exact .nil
  | cons c cs ih =>
    rw [List.flatMap_cons]
    exact .cons (charSpelled_escapeChar c) ih

end Uplink.Json

import Uplink.Proofs.Variant.RoundTrip

/-! The text of a value is one line: whatever is written of characters, numbers and what lies
between them, none of it is a control. -/

namespace Uplink

namespace Json

variable {c d : Char}

/-- None of the characters of a text is a control if each passes the test. -/
theorem le_of_mem_of_all {cs : List Char}
    (hall : (cs.all fun c => decide (0x20 ≤ c.toNat)) = true) (h : d ∈ cs) : 0x20 ≤ d.toNat :=
  of_decide_eq_true (List.all_eq_true.mp hall d h)

theorem escapeChar_of_le (h : 0x20 ≤ c.toNat) :
    escapeChar c = ['\\', '"'] ∨ escapeChar c = ['\\', '\\'] ∨ escapeChar c = [c] := by
  have hne : ∀ d : Char, d.toNat < 0x20 → c ≠ d := by
    rintro d hd rfl
    exact absurd hd (Nat.not_lt.mpr h)
  by_cases hquote : c = '"'
  · exact .inl (by rw [hquote]; rfl)
  by_cases hbackslash : c = '\\'
  · exact .inr (.inl (by rw [hbackslash]; rfl))
  · refine .inr (.inr ?_)
    simp [escapeChar, hquote, hbackslash, hne '\x08' (by decide), hne '\t' (by decide),
      hne '\n' (by decide), hne '\x0c' (by decide), hne '\r' (by decide), Nat.not_lt.mpr h]

/-- What is written of a character is no control. -/
theorem le_of_mem_escapeChar (h : d ∈ escapeChar c) : 0x20 ≤ d.toNat := by
  rcases Nat.lt_or_ge c.toNat 0x20 with hc | hc
  · have hcontrols : ∀ n < 0x20,
        ((escapeChar (Char.ofNat n)).all fun c => decide (0x20 ≤ c.toNat)) = true := by decide
    rw [← Char.ofNat_toNat c] at h
    exact le_of_mem_of_all (hcontrols c.toNat hc) h
  · have hmarks : 0x20 ≤ '\\'.toNat ∧ 0x20 ≤ '"'.toNat := by decide
    rcases escapeChar_of_le hc with heq | heq | heq <;> rw [heq] at h <;> simp at h
    · rcases h with rfl | rfl
      exacts [hmarks.1, hmarks.2]
    · rw [h]
      exact hmarks.1
    · rwa [h]

theorem le_of_mem_quote {s : String} (h : d ∈ quote s) : 0x20 ≤ d.toNat := by
  have hmark : 0x20 ≤ '"'.toNat := by decide
  simp only [quote, List.cons_append, List.mem_cons, List.mem_append, List.mem_flatMap,
    List.not_mem_nil, or_false] at h
  rcases h with rfl | ⟨c, -, hc⟩ | rfl
  · exact hmark
  · exact le_of_mem_escapeChar hc
  · exact hmark

theorem NumberText.le_of_mem_chars {t : NumberText} (ht : t.WellFormed) (h : d ∈ t.chars) :
    0x20 ≤ d.toNat := by
  have hdigit : ∀ n < 10, 0x20 ≤ (Nat.digitChar n).toNat := by decide
  have hdigits (ds : List Nat) (hds : ∀ n ∈ ds, n < 10) (hmem : d ∈ ds.map Nat.digitChar) :
      0x20 ≤ d.toNat := by
    obtain ⟨n, hn, rfl⟩ := List.mem_map.mp hmem
    exact hdigit n (hds n hn)
  obtain ⟨negative, whole, fraction, exponent⟩ := t
  simp only [chars, List.mem_append] at h
  rcases h with hsign | hwhole | hfraction | hexponent
  · cases negative
    · exact absurd hsign List.not_mem_nil
    · obtain rfl := List.mem_singleton.mp hsign
      decide
  · exact hdigits whole ht.whole_lt hwhole
  · cases fraction with
    | nil => exact absurd hfraction List.not_mem_nil
    | cons n ns =>
      rcases List.mem_cons.mp hfraction with rfl | hmem
      · decide
      · exact hdigits _ ht.fraction_lt hmem
  · rcases exponent with _ | ⟨below, ds⟩
    · exact absurd hexponent List.not_mem_nil
    · simp only [exponentChars, List.mem_cons] at hexponent
      rcases hexponent with rfl | rfl | hmem
      · decide
      · cases below <;> decide
      · exact hdigits ds (ht.exponent_lt below ds rfl) hmem

end Json

namespace Variant

variable {d : Char}

mutual

/-- The text of a value has no controls, and with them no line breaks. -/
theorem le_of_mem_chars : ∀ {v : Variant}, d ∈ v.chars → 0x20 ≤ d.toNat
  | .null, h => Json.le_of_mem_of_all (by decide) h
  | .bool true, h => Json.le_of_mem_of_all (by decide) h
  | .bool false, h => Json.le_of_mem_of_all (by decide) h
  | .string s, h => Json.le_of_mem_quote h
  | .number x, h => by
    rw [chars] at h
    split at h
    · next hx =>
      obtain ⟨t, ht, htext, -⟩ := Json.NumberText.exists_text hx
      rw [htext] at h
      exact Json.NumberText.le_of_mem_chars ht h
    · exact Json.le_of_mem_of_all (by decide) h
  | .list [], h => Json.le_of_mem_of_all (by decide) h
  | .list (v :: rest), h => by
    rw [chars, List.mem_cons, List.mem_append] at h
    rcases h with rfl | hitem | hrest
    · exact (by decide : 0x20 ≤ '['.toNat)
    · exact le_of_mem_chars hitem
    · exact le_of_mem_itemChars hrest
  | .map [], h => Json.le_of_mem_of_all (by decide) h
  | .map ((k, v) :: rest), h => by
    rw [chars, List.mem_cons, List.mem_append, List.mem_cons, List.mem_append] at h
    rcases h with rfl | hkey | rfl | hvalue | hrest
    · exact (by decide : 0x20 ≤ '\x7b'.toNat)
    · exact Json.le_of_mem_quote hkey
    · exact (by decide : 0x20 ≤ ':'.toNat)
    · exact le_of_mem_chars hvalue
    · exact le_of_mem_entryChars hrest

theorem le_of_mem_itemChars : ∀ {items : List Variant}, d ∈ itemChars items → 0x20 ≤ d.toNat
  | [], h => Json.le_of_mem_of_all (by decide) h
  | v :: rest, h => by
    rw [itemChars, List.mem_cons, List.mem_append] at h
    rcases h with rfl | hitem | hrest
    · exact (by decide : 0x20 ≤ ','.toNat)
    · exact le_of_mem_chars hitem
    · exact le_of_mem_itemChars hrest

theorem le_of_mem_entryChars : ∀ {entries : List (String × Variant)}, d ∈ entryChars entries →
    0x20 ≤ d.toNat
  | [], h => Json.le_of_mem_of_all (by decide) h
  | (k, v) :: rest, h => by
    rw [entryChars, List.mem_cons, List.mem_append, List.mem_cons, List.mem_append] at h
    rcases h with rfl | hkey | rfl | hvalue | hrest
    · exact (by decide : 0x20 ≤ ','.toNat)
    · exact Json.le_of_mem_quote hkey
    · exact (by decide : 0x20 ≤ ':'.toNat)
    · exact le_of_mem_chars hvalue
    · exact le_of_mem_entryChars hrest

end

end Variant

end Uplink

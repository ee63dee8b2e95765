import Uplink.Proofs.Json.Spelling

/-! The reader takes the documents of the grammar and no other text. The induction is on the fuel:
the reader and its two loops spend one unit at each call, and of two calls in a row one takes a
character. -/

namespace Uplink.Json

open Grammar

variable {fuel depth : Nat} {cs rest : List Char} {j : Json}

/-! ### Numbers -/

theorem ne_of_number {c : Char} (hc : c = '-' ∨ c.isDigit = true) {d : Char} (hminus : d ≠ '-')
    (hdigit : d.isDigit = false) : c ≠ d := by
  rintro rfl
  rcases hc with h | h
  · exact hminus h
  · exact absurd h (by simp [hdigit])

theorem isSpace_of_number {c : Char} (hc : c = '-' ∨ c.isDigit = true) : isSpace c = false := by
  have hne := @ne_of_number c hc
  simp [isSpace, hne (d := ' ') (by decide) rfl, hne (d := '\t') (by decide) rfl,
    hne (d := '\n') (by decide) rfl, hne (d := '\r') (by decide) rfl]

/-- A character that a number starts with opens nothing else. -/
theorem value?_of_number {c : Char} (hc : c = '-' ∨ c.isDigit = true) :
    value? (fuel + 1) depth (c :: cs) = (do
      let (text, cs) ← NumberText.take? (c :: cs)
      let n ← text.value?
      some (.number n, cs)) := by
  have hquote : c ≠ '"' := ne_of_number hc (by decide) rfl
  have hbracket : c ≠ '[' := ne_of_number hc (by decide) rfl
  have hbrace : c ≠ '\x7b' := ne_of_number hc (by decide) rfl
  simp only [value?, skipSpace_of_not_space (isSpace_of_number hc), if_neg hquote,
    if_neg hbracket, if_neg hbrace, if_pos hc]

theorem value?_number {t : NumberText} {u : List Char} {n : Number} (ht : t.WellFormed)
    (hu : t.Spelled u) (hn : t.value? = some n) (hrest : EndsNumber rest) :
    value? (fuel + 1) depth (u ++ rest) = some (.number n, rest) := by
  have htake := NumberText.take?_spelled ht hu hrest
  obtain ⟨c, cs, rfl, hc⟩ := NumberText.spelled_head ht hu
  rw [List.cons_append] at htake ⊢
  rw [value?_of_number hc, htake]
  simp only [bind, Option.bind, hn]

/-! ### What is read -/

theorem eq_of_word? (h : word? cs = some (j, rest)) (depth : Nat) :
    ∃ u, Value depth u j ∧ cs = u ++ rest := by
  unfold word? at h
  split at h
  · obtain ⟨rfl, rfl⟩ := Prod.mk.inj (Option.some.inj h)
    exact ⟨_, .null depth, rfl⟩
  · obtain ⟨rfl, rfl⟩ := Prod.mk.inj (Option.some.inj h)
    exact ⟨_, .isTrue depth, rfl⟩
  · obtain ⟨rfl, rfl⟩ := Prod.mk.inj (Option.some.inj h)
    exact ⟨_, .isFalse depth, rfl⟩
  · cases h

/-- Space in front of a value is skipped. -/
theorem value?_skipSpace (fuel depth : Nat) (cs : List Char) :
    value? fuel depth (skipSpace cs) = value? fuel depth cs := by
  cases fuel with
  | zero => rfl
  | succ fuel => rw [value?, value?, skipSpace_skipSpace]

theorem items?_skipSpace (fuel depth : Nat) (read : List Json) (cs : List Char) :
    items? fuel depth read (skipSpace cs) = items? fuel depth read cs := by
  cases fuel with
  | zero => rfl
  | succ fuel => rw [items?, items?, value?_skipSpace]

theorem members?_skipSpace (fuel depth : Nat) (read : List (String × Json)) (cs : List Char) :
    members? fuel depth read (skipSpace cs) = members? fuel depth read cs := by
  cases fuel with
  | zero => rfl
  | succ fuel => rw [members?, members?, skipSpace_skipSpace]

/-- Members are put into the object one by one. -/
theorem ofPairs_eq (pairs : List (String × Json)) :
    ofPairs pairs = .object (pairs.foldl (fun read m => insertEntry m.1 m.2 read) []) := by
  have hfold (m : KeyMap Json) : (pairs.foldl (fun m p => m.insert p.1 p.2) m).entries =
      pairs.foldl (fun read p => insertEntry p.1 p.2 read) m.entries := by
    induction pairs generalizing m with
    | nil => rfl
    | cons p pairs ih => exact ih (m.insert p.1 p.2)
  exact congrArg Json.object (hfold ∅)

mutual

theorem eq_of_value? : ∀ {fuel depth : Nat} {cs rest : List Char} {j : Json},
    value? fuel depth cs = some (j, rest) →
      ∃ a u, Spaces a ∧ Value depth u j ∧ cs = a ++ (u ++ rest)
  | 0, _, _, _, _, h => by cases h
  | fuel + 1, depth, cs, rest, j, h => by
    obtain ⟨a, ha, hcs⟩ := exists_spaces cs
    suffices ∃ u, Value depth u j ∧ skipSpace cs = u ++ rest by
      obtain ⟨u, hu, hskip⟩ := this
      exact ⟨a, u, ha, hu, by rw [← hskip, ← hcs]⟩
    rw [value?] at h
    split at h
    · cases h
    · next c cs' hskip =>
      rw [hskip]
      split at h
      · next hquote =>
        obtain ⟨⟨s, cs''⟩, hbody, heq⟩ := Option.map_eq_some_iff.mp h
        obtain ⟨rfl, rfl⟩ := Prod.mk.inj heq
        obtain ⟨tail, u, htail, rfl, rfl⟩ := eq_of_stringBody? hbody
        refine ⟨_, .string depth (u := u) ?_, by simp [hquote]⟩
        simpa using htail
      · split at h
        · next hbracket =>
          subst hbracket
          split at h
          · cases h
          · next depth =>
            obtain ⟨b, hb, hcs'⟩ := exists_spaces cs'
            split at h
            · next hclose =>
              obtain ⟨rfl, rfl⟩ := Prod.mk.inj (Option.some.inj h)
              refine ⟨_, .emptyArray depth hb, ?_⟩
              rw [hcs', hclose]
              simp
            · rw [items?_skipSpace] at h
              obtain ⟨u, items, hu, rfl, rfl⟩ := eq_of_items? h
              exact ⟨_, .array hu, by simp⟩
        · split at h
          · next hbrace =>
            subst hbrace
            split at h
            · cases h
            · next depth =>
              obtain ⟨b, hb, hcs'⟩ := exists_spaces cs'
              split at h
              · next hclose =>
                obtain ⟨rfl, rfl⟩ := Prod.mk.inj (Option.some.inj h)
                refine ⟨_, .emptyObject depth hb, ?_⟩
                rw [hcs', hclose]
                simp
              · rw [members?_skipSpace] at h
                obtain ⟨u, members, hu, rfl, rfl⟩ := eq_of_members? h
                have hobject := Value.object hu
                rw [ofPairs_eq] at hobject
                exact ⟨_, hobject, by simp⟩
          · split at h
            · simp only [bind, Option.bind_eq_some_iff, Option.some.injEq, Prod.mk.injEq] at h
              obtain ⟨⟨t, cs''⟩, htake, n, hn, rfl, rfl⟩ := h
              obtain ⟨ht, u, hu, heq⟩ := NumberText.spelled_of_take? htake
              exact ⟨u, .number depth ht hu hn, heq⟩
            · exact eq_of_word? h depth

theorem eq_of_items? : ∀ {fuel depth : Nat} {read : List Json} {cs rest : List Char} {j : Json},
    items? fuel depth read cs = some (j, rest) →
      ∃ u items, Items depth u items ∧ cs = u ++ ']' :: rest ∧ j = .array (read.reverse ++ items)
  | 0, _, _, _, _, _, h => by cases h
  | fuel + 1, depth, read, cs, rest, j, h => by
    rw [items?] at h
    split at h
    · cases h
    · next item cs' hvalue =>
      obtain ⟨a, u, ha, hu, rfl⟩ := eq_of_value? hvalue
      obtain ⟨b, hb, hcs'⟩ := exists_spaces cs'
      have helement := Element.mk ha hu hb
      split at h
      · next hcomma =>
        obtain ⟨us, items, hus, rfl, rfl⟩ := eq_of_items? h
        refine ⟨_, _, .cons helement hus, ?_, by simp⟩
        rw [hcs', hcomma]
        simp
      · next hclose =>
        obtain ⟨rfl, rfl⟩ := Prod.mk.inj (Option.some.inj h)
        refine ⟨_, _, .one helement, ?_, by simp⟩
        rw [hcs', hclose]
        simp
      · cases h

theorem eq_of_members? : ∀ {fuel depth : Nat} {read : List (String × Json)} {cs rest : List Char}
    {j : Json}, members? fuel depth read cs = some (j, rest) →
      ∃ u members, Members depth u members ∧ cs = u ++ '\x7d' :: rest ∧
        j = .object (members.foldl (fun read m => insertEntry m.1 m.2 read) read)
  | 0, _, _, _, _, _, h => by cases h
  | fuel + 1, depth, read, cs, rest, j, h => by
    obtain ⟨a, ha, hcs⟩ := exists_spaces cs
    rw [members?] at h
    split at h
    · next cs' hquote =>
      split at h
      · cases h
      · next key cs'' hbody =>
        obtain ⟨tail, u, htail, rfl, rfl⟩ := eq_of_stringBody? hbody
        obtain ⟨b, hb, hcs''⟩ := exists_spaces cs''
        split at h
        · next hcolon =>
          split at h
          · cases h
          · next value cs''' hvalue =>
            obtain ⟨a', v, ha', hv, rfl⟩ := eq_of_value? hvalue
            obtain ⟨b', hb', hcs'''⟩ := exists_spaces cs'''
            have hmember : Member depth _ (String.ofList ([].reverse ++ tail), value) :=
              .mk ha (by simpa using htail) hb (.mk ha' hv hb')
            split at h
            · next hcomma =>
              obtain ⟨us, members, hus, rfl, rfl⟩ := eq_of_members? h
              refine ⟨_, _, .cons hmember hus, ?_, rfl⟩
              rw [hcs, hquote, hcs'', hcolon, hcs''', hcomma]
              simp
            · next hclose =>
              obtain ⟨rfl, rfl⟩ := Prod.mk.inj (Option.some.inj h)
              refine ⟨_, _, .one hmember, ?_, rfl⟩
              rw [hcs, hquote, hcs'', hcolon, hcs''', hclose]
              simp
            · cases h
        · cases h
    · cases h

end

/-! ### What is a document -/

theorem endsNumber_append {b : List Char} (hb : Spaces b) (hrest : EndsNumber rest) :
    EndsNumber (b ++ rest) := by
  cases b with
  | nil => exact hrest
  | cons c b => rcases hb c List.mem_cons_self with rfl | rfl | rfl | rfl <;>
      exact endsNumber_cons (by decide)

/-- A value starts with no space and closes nothing. -/
theorem value_head {u : List Char} (h : Value depth u j) :
    ∃ c cs, u = c :: cs ∧ isSpace c = false ∧ c ≠ ']' := by
  cases h with
  | number _ ht hu _ =>
    obtain ⟨c, cs, rfl, hc⟩ := NumberText.spelled_head ht hu
    exact ⟨c, cs, rfl, isSpace_of_number hc, ne_of_number hc (by decide) rfl⟩
  | _ => exact ⟨_, _, rfl, rfl, by decide⟩

theorem items_head {u : List Char} {items : List Json} (h : Items depth u items)
    (rest : List Char) : ∃ c cs, skipSpace (u ++ rest) = c :: cs ∧ c ≠ ']' := by
  obtain ⟨v, us, j, helement, rfl⟩ : ∃ v us j, Element depth v j ∧ u = v ++ us := by
    cases h with
    | one h => exact ⟨_, [], _, h, (List.append_nil _).symm⟩
    | cons h _ => exact ⟨_, _, _, h, rfl⟩
  obtain ⟨ha, hvalue, -⟩ := helement
  obtain ⟨c, cs, rfl, hspace, hc⟩ := value_head hvalue
  rw [List.append_assoc, List.append_assoc, skipSpace_append ha, List.cons_append, List.cons_append,
    skipSpace_of_not_space hspace]
  exact ⟨_, _, rfl, hc⟩

theorem members_head {u : List Char} {members : List (String × Json)}
    (h : Members depth u members) (rest : List Char) :
    ∃ cs, skipSpace (u ++ rest) = '"' :: cs := by
  obtain ⟨v, us, m, hmember, rfl⟩ : ∃ v us m, Member depth v m ∧ u = v ++ us := by
    cases h with
    | one h => exact ⟨_, [], _, h, (List.append_nil _).symm⟩
    | cons h _ => exact ⟨_, _, _, h, rfl⟩
  obtain ⟨ha, -, -, -⟩ := hmember
  rw [List.append_assoc, List.append_assoc, skipSpace_append ha, List.cons_append,
    skipSpace_of_not_space rfl]
  exact ⟨_, rfl⟩

section Member

variable {a u b v : List Char} {k : String}

/-- One turn of the loop over members reads a key and a value, and goes on behind a comma. -/
theorem members?_comma (ha : Spaces a) (hu : TextSpelled k.toList u) (hb : Spaces b)
    (hvalue : value? fuel depth v = some (j, cs)) (hskip : skipSpace cs = ',' :: rest)
    (read : List (String × Json)) :
    members? (fuel + 1) depth read (a ++ '"' :: (u ++ '"' :: (b ++ ':' :: v))) =
      members? fuel depth (insertEntry k j read) rest := by
  simp only [members?, skipSpace_append ha, skipSpace_of_not_space (c := '"') rfl,
    stringBody?_string hu, skipSpace_append hb, skipSpace_of_not_space (c := ':') rfl, hvalue,
    hskip]

/-- Behind a brace it ends. -/
theorem members?_brace (ha : Spaces a) (hu : TextSpelled k.toList u) (hb : Spaces b)
    (hvalue : value? fuel depth v = some (j, cs)) (hskip : skipSpace cs = '\x7d' :: rest)
    (read : List (String × Json)) :
    members? (fuel + 1) depth read (a ++ '"' :: (u ++ '"' :: (b ++ ':' :: v))) =
      some (.object (insertEntry k j read), rest) := by
  simp only [members?, skipSpace_append ha, skipSpace_of_not_space (c := '"') rfl,
    stringBody?_string hu, skipSpace_append hb, skipSpace_of_not_space (c := ':') rfl, hvalue,
    hskip]

end Member

mutual

theorem value?_of_value : ∀ {depth : Nat} {u : List Char} {j : Json}, Value depth u j →
    ∀ (fuel : Nat) (rest : List Char), 2 * u.length ≤ fuel → EndsNumber rest →
      value? fuel depth (u ++ rest) = some (j, rest)
  | depth, u, j, h, 0, _, hfuel, _ => by
    obtain ⟨c, cs, rfl, -⟩ := value_head h
    simp at hfuel
  | _, _, _, .null _, fuel + 1, _, _, _ => rfl
  | _, _, _, .isTrue _, fuel + 1, _, _, _ => rfl
  | _, _, _, .isFalse _, fuel + 1, _, _, _ => rfl
  | _, _, _, .number _ ht hu hn, fuel + 1, _, _, hrest => value?_number ht hu hn hrest
  | _, _, _, .string _ hs, fuel + 1, rest, _, _ => by
    simp only [List.cons_append, List.append_assoc, List.nil_append, value?,
      skipSpace_of_not_space (c := '"') rfl, if_true, stringBody?_string hs, Option.map_some]
  | _, _, _, .emptyArray _ hws, fuel + 1, rest, _, _ => by
    have hquote : ('[' : Char) ≠ '"' := by decide
    simp only [List.cons_append, List.append_assoc, List.nil_append, value?,
      skipSpace_of_not_space (c := '[') rfl, if_neg hquote, if_true, skipSpace_append hws,
      skipSpace_of_not_space (c := ']') rfl]
  | _, _, _, .array hitems, fuel + 1, rest, hfuel, _ => by
    rw [List.length_cons, List.length_append] at hfuel
    have hread := items?_of_items hitems fuel [] rest (by omega)
    have hquote : ('[' : Char) ≠ '"' := by decide
    obtain ⟨c, cs, hhead, hc⟩ := items_head hitems (']' :: rest)
    rw [← items?_skipSpace, hhead] at hread
    simp only [List.cons_append, List.append_assoc, List.nil_append, value?,
      skipSpace_of_not_space (c := '[') rfl, if_neg hquote, if_true, hhead]
    split
    · next hclose => exact absurd (List.cons.inj hclose).1 hc
    · exact hread
  | _, _, _, .emptyObject _ hws, fuel + 1, rest, _, _ => by
    have hquote : ('\x7b' : Char) ≠ '"' := by decide
    have hbracket : ('\x7b' : Char) ≠ '[' := by decide
    simp only [List.cons_append, List.append_assoc, List.nil_append, value?,
      skipSpace_of_not_space (c := '\x7b') rfl, if_neg hquote, if_neg hbracket, if_true,
      skipSpace_append hws, skipSpace_of_not_space (c := '\x7d') rfl]
  | _, _, _, .object hmembers, fuel + 1, rest, hfuel, _ => by
    rw [List.length_cons, List.length_append] at hfuel
    have hread := members?_of_members hmembers fuel [] rest (by omega)
    have hquote : ('\x7b' : Char) ≠ '"' := by decide
    have hbracket : ('\x7b' : Char) ≠ '[' := by decide
    obtain ⟨cs, hhead⟩ := members_head hmembers ('\x7d' :: rest)
    rw [← members?_skipSpace, hhead, ← ofPairs_eq] at hread
    simpa only [List.cons_append, List.append_assoc, List.nil_append, value?,
      skipSpace_of_not_space (c := '\x7b') rfl, if_neg hquote, if_neg hbracket, if_true, hhead]

/-- Of the space around a value, the reader leaves that behind it. -/
theorem value?_of_element : ∀ {depth : Nat} {u : List Char} {j : Json}, Element depth u j →
    ∀ (fuel : Nat) (rest : List Char), 2 * u.length ≤ fuel → EndsNumber rest →
      ∃ b, Spaces b ∧ value? fuel depth (u ++ rest) = some (j, b ++ rest)
  | _, _, _, .mk (b := b) ha hvalue hb, fuel, rest, hfuel, hrest => by
    rw [List.length_append, List.length_append] at hfuel
    have hread := value?_of_value hvalue fuel (b ++ rest) (by omega) (endsNumber_append hb hrest)
    refine ⟨b, hb, ?_⟩
    rw [List.append_assoc, List.append_assoc, ← value?_skipSpace, skipSpace_append ha,
      value?_skipSpace, hread]

theorem items?_of_items : ∀ {depth : Nat} {u : List Char} {items : List Json},
    Items depth u items → ∀ (fuel : Nat) (read : List Json) (rest : List Char),
      2 * u.length < fuel →
      items? fuel depth read (u ++ ']' :: rest) = some (.array (read.reverse ++ items), rest)
  | _, _, _, _, 0, _, _, hfuel => absurd hfuel (Nat.not_lt_zero _)
  | _, _, _, .one helement, fuel + 1, read, rest, hfuel => by
    obtain ⟨b, hb, hvalue⟩ := value?_of_element helement fuel (']' :: rest) (by omega)
      (endsNumber_cons (by decide))
    simp only [items?, hvalue, skipSpace_append hb, skipSpace_of_not_space (c := ']') rfl]
    simp
  | _, _, _, @Items.cons _ _ us j _ helement hitems, fuel + 1, read, rest, hfuel => by
    rw [List.length_append, List.length_cons] at hfuel
    obtain ⟨b, hb, hvalue⟩ := value?_of_element helement fuel (',' :: (us ++ ']' :: rest))
      (by omega) (endsNumber_cons (by decide))
    have hread := items?_of_items hitems fuel (j :: read) rest (by omega)
    rw [List.append_assoc, List.cons_append]
    simp only [items?, hvalue, skipSpace_append hb, skipSpace_of_not_space (c := ',') rfl, hread]
    simp

theorem members?_of_members : ∀ {depth : Nat} {u : List Char} {members : List (String × Json)},
    Members depth u members → ∀ (fuel : Nat) (read : List (String × Json)) (rest : List Char),
      2 * u.length < fuel → members? fuel depth read (u ++ '\x7d' :: rest) =
        some (.object (members.foldl (fun read m => insertEntry m.1 m.2 read) read), rest)
  | _, _, _, _, 0, _, _, hfuel => absurd hfuel (Nat.not_lt_zero _)
  | _, _, _, .one (.mk ha hu hb helement), fuel + 1, read, rest, hfuel => by
    simp only [List.length_append, List.length_cons] at hfuel
    obtain ⟨b', hb', hvalue⟩ := value?_of_element helement fuel ('\x7d' :: rest) (by omega)
      (endsNumber_cons (by decide))
    have hskip : skipSpace (b' ++ '\x7d' :: rest) = '\x7d' :: rest := by
      rw [skipSpace_append hb', skipSpace_of_not_space rfl]
    have hturn := members?_brace ha hu hb hvalue hskip read
    simpa only [List.append_assoc, List.cons_append, List.foldl_cons, List.foldl_nil] using hturn
  | _, _, _, @Members.cons _ _ us _ _ (.mk (k := k) (j := j) ha hu hb helement) hmembers, fuel + 1,
      read, rest, hfuel => by
    simp only [List.length_append, List.length_cons] at hfuel
    obtain ⟨b', hb', hvalue⟩ := value?_of_element helement fuel (',' :: (us ++ '\x7d' :: rest))
      (by omega) (endsNumber_cons (by decide))
    have hskip : skipSpace (b' ++ ',' :: (us ++ '\x7d' :: rest)) =
        ',' :: (us ++ '\x7d' :: rest) := by
      rw [skipSpace_append hb', skipSpace_of_not_space rfl]
    have hturn := members?_comma ha hu hb hvalue hskip read
    have hread := members?_of_members hmembers fuel (insertEntry k j read) rest (by omega)
    simpa only [List.append_assoc, List.cons_append, List.foldl_cons, hread] using hturn

end

/-- The reader takes a text for a document exactly if it is one, and for the document it is. -/
theorem ofChars?_eq_some_iff : ofChars? cs = some j ↔ Document cs j := by
  constructor
  · intro h
    unfold ofChars? at h
    split at h
    · next j' rest hvalue =>
      split at h
      · next hrest =>
        obtain rfl := Option.some.inj h
        obtain ⟨a, u, ha, hu, rfl⟩ := eq_of_value? hvalue
        exact .mk ha hu (spaces_of_skipSpace_eq_nil hrest)
      · cases h
    · cases h
  · intro h
    obtain ⟨b, hb, hvalue⟩ := value?_of_element h (2 * cs.length + 2) [] (Nat.le_add_right _ 2)
      (by decide)
    rw [List.append_nil] at hvalue
    simp only [ofChars?, hvalue, skipSpace_append hb, skipSpace, if_true]

end Uplink.Json

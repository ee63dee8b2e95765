import Uplink.Proofs.Json.Meaning
import Uplink.Proofs.Variant.Serialization

/-! What values mean, and that whole numbers up to `2^53` keep their meaning on the way from the
text of a document to a value and back to a text, in whatever order its maps are written. -/

namespace Uplink

section Entries

variable {α β : Type} {key : String} {value : α} {entries : List (String × α)}

theorem mem_of_lastEntry (h : lastEntry key entries = some value) : (key, value) ∈ entries := by
  obtain ⟨⟨k, v⟩, hfound, rfl⟩ := Option.map_eq_some_iff.mp h
  have hkey : k = key := by simpa using List.find?_some hfound
  exact hkey ▸ List.mem_reverse.mp (List.mem_of_find?_eq_some hfound)

/-- Where each key is bound once, it does not matter which pair is the last. -/
theorem lastEntry_eq_some_iff (honce : (entries.map (·.1)).Nodup) :
    lastEntry key entries = some value ↔ (key, value) ∈ entries := by
  refine ⟨mem_of_lastEntry, fun hmem => ?_⟩
  have hsome : (lastEntry key entries).isSome := by
    rw [lastEntry, Option.isSome_map, List.find?_isSome]
    exact ⟨_, List.mem_reverse.mpr hmem, by simp⟩
  obtain ⟨v, hv⟩ := Option.isSome_iff_exists.mp hsome
  have hsame := List.inj_on_of_nodup_map honce (mem_of_lastEntry hv) hmem rfl
  rw [hv, (Prod.mk.inj hsame).2]

theorem lastEntry_perm {es fs : List (String × α)} (honce : (es.map (·.1)).Nodup)
    (h : es.Perm fs) : lastEntry key es = lastEntry key fs := by
  have honce' : (fs.map (·.1)).Nodup := (h.map _).nodup_iff.mp honce
  refine Option.ext fun v => ?_
  rw [lastEntry_eq_some_iff honce, lastEntry_eq_some_iff honce', h.mem_iff]

theorem lastEntry_map (f : α → β) (key : String) (entries : List (String × α)) :
    lastEntry key (entries.map fun e => (e.1, f e.2)) = (lastEntry key entries).map f := by
  rw [lastEntry, lastEntry, ← List.map_reverse, List.find?_map, Option.map_map, Option.map_map]
  rfl

theorem KeyMap.lastEntry_ofList (key : String) (pairs : List (String × α)) :
    lastEntry key (ofList pairs).entries = lastEntry key pairs := by
  refine Option.ext fun v => ?_
  rw [lastEntry_eq_some_iff (ofList pairs).ordered.nodup_keys, ← get?_eq_some_iff, get?_ofList]
  rfl

end Entries

namespace Variant

open Binary64 (finite one onGrid_mul_one)
open Json (Meaning NumberText)
open Json.Denotation (Any)
open Json.NumberText (IsSmallInteger)

mutual

/-- What a value means as a document: a number that is not finite is written as null. -/
def meaning : Variant → Meaning
  | .null => .null
  | .bool b => .bool b
  | .number x => if x.isFinite then .number (x.units / one) else .null
  | .string s => .string s
  | .list items => .array (itemMeanings items)
  | .map entries => .ofPairs (entryMeanings entries)

def itemMeanings : List Variant → List Meaning
  | [] => []
  | v :: rest => v.meaning :: itemMeanings rest

def entryMeanings : List (String × Variant) → List (String × Meaning)
  | [] => []
  | (k, v) :: rest => (k, v.meaning) :: entryMeanings rest

end

mutual

/-- Every number inside is a whole number of `2^53` at most, with or without a sign. -/
def WholeNumbers : Variant → Prop
  | .number x => ∃ s n, ∃ h : n ≤ 2 ^ 53, x = finite s (n * one) (onGrid_mul_one h)
  | .list items => WholeItems items
  | .map entries => WholeEntries entries
  | _ => True

def WholeItems : List Variant → Prop
  | [] => True
  | v :: rest => v.WholeNumbers ∧ WholeItems rest

def WholeEntries : List (String × Variant) → Prop
  | [] => True
  | (_, v) :: rest => v.WholeNumbers ∧ WholeEntries rest

end

theorem entryMeanings_eq_map (entries : List (String × Variant)) :
    entryMeanings entries = entries.map fun e => (e.1, e.2.meaning) := by
  induction entries with
  | nil => rfl
  | cons e entries ih => rw [entryMeanings, ih, List.map_cons]

theorem wholeEntries_iff {entries : List (String × Variant)} :
    WholeEntries entries ↔ ∀ e ∈ entries, e.2.WholeNumbers := by
  induction entries with
  | nil => simp [WholeEntries]
  | cons e entries ih => rw [WholeEntries, ih, List.forall_mem_cons]

/-! ### The order of maps -/

theorem ofPairs_perm {es fs : List (String × Meaning)} (honce : (es.map (·.1)).Nodup)
    (h : es.Perm fs) : Meaning.ofPairs es = Meaning.ofPairs fs :=
  congrArg Meaning.object (funext fun _ => lastEntry_perm honce h)

mutual

/-- The order in which maps are written has no meaning. -/
theorem Same.meaning_eq {v w : Variant} : Same v w → v.KeysOnce → v.meaning = w.meaning
  | .null, _ => rfl
  | .bool _, _ => rfl
  | .number _, _ => rfl
  | .string _, _ => rfl
  | .list h, hkeys => congrArg Meaning.array (h.itemMeanings_eq hkeys)
  | .map hperm h, hkeys => by
    rw [meaning, meaning, ← h.entryMeanings_eq
      (keysOnceEntries_iff.mpr fun e he => keysOnceEntries_iff.mp hkeys.2 e (hperm.mem_iff.mpr he))]
    rw [entryMeanings_eq_map, entryMeanings_eq_map]
    exact ofPairs_perm (by simpa [Function.comp_def] using hkeys.1) (hperm.map _)

theorem SameItems.itemMeanings_eq {vs ws : List Variant} : SameItems vs ws → KeysOnceItems vs →
    itemMeanings vs = itemMeanings ws
  | .nil, _ => rfl
  | .cons h hs, hkeys => congrArg₂ List.cons (h.meaning_eq hkeys.1) (hs.itemMeanings_eq hkeys.2)

theorem SameEntries.entryMeanings_eq {es fs : List (String × Variant)} : SameEntries es fs →
    KeysOnceEntries es → entryMeanings es = entryMeanings fs
  | .nil, _ => rfl
  | .cons k h hs, hkeys => congrArg₂ (fun m ms => (k, m) :: ms) (h.meaning_eq hkeys.1)
      (hs.entryMeanings_eq hkeys.2)

end

mutual

theorem Same.wholeNumbers {v w : Variant} : Same v w → v.WholeNumbers → w.WholeNumbers
  | .null, h => h
  | .bool _, h => h
  | .number _, h => h
  | .string _, h => h
  | .list hs, h => hs.wholeItems h
  | .map hperm hs, h => hs.wholeEntries
      (wholeEntries_iff.mpr fun e he => wholeEntries_iff.mp h e (hperm.mem_iff.mpr he))

theorem SameItems.wholeItems {vs ws : List Variant} : SameItems vs ws → WholeItems vs →
    WholeItems ws
  | .nil, _ => trivial
  | .cons h hs, hwhole => ⟨h.wholeNumbers hwhole.1, hs.wholeItems hwhole.2⟩

theorem SameEntries.wholeEntries {es fs : List (String × Variant)} : SameEntries es fs →
    WholeEntries es → WholeEntries fs
  | .nil, _ => trivial
  | .cons _ h hs, hwhole => ⟨h.wholeNumbers hwhole.1, hs.wholeEntries hwhole.2⟩

end

/-! ### What is written -/

theorem meaning_number (s : Bool) {n : Nat} (h : n ≤ 2 ^ 53) :
    (number (finite s (n * one) (onGrid_mul_one h))).meaning =
      .number ((if s then -1 else 1) * (n : ℚ)) := by
  have hone : (one : ℚ) ≠ 0 := Binary64.one_cast_pos.ne'
  have hfinite : (finite s (n * one) (onGrid_mul_one h)).isFinite = true := rfl
  rw [meaning, if_pos hfinite]
  cases s <;> simp [Binary64.units, hone, neg_div]

theorem denotes_quote (k : String) {u : List Char} {m : Meaning}
    (h : Json.Denotation.Value Any u m) :
    Json.Denotation.Member Any (Json.quote k ++ ':' :: u) (k, m) := by
  have hmember := Json.Denotation.Member.mk Json.Grammar.spaces_nil
    (Json.textSpelled_escaped k.toList) Json.Grammar.spaces_nil (Json.Denotation.element_of_value h)
  simpa [Json.quote] using hmember

mutual

/-- The text of a value with whole numbers denotes what the value means. -/
theorem denotes_chars : ∀ v : Variant, v.WholeNumbers →
    Json.Denotation.Value Any v.chars v.meaning
  | .null, _ => .null
  | .bool true, _ => .isTrue
  | .bool false, _ => .isFalse
  | .string s, _ => .string (Json.textSpelled_escaped s.toList)
  | .number x, hwhole => by
    obtain ⟨s, n, hn, rfl⟩ := hwhole
    obtain ⟨t, ht, htext, hrational⟩ := NumberText.exists_text_mul_one s hn
    have hfinite : (finite s (n * one) (onGrid_mul_one hn)).isFinite = true := rfl
    rw [chars, if_pos hfinite, meaning_number s hn, htext, ← hrational]
    exact .number ht t.spelled_chars trivial
  | .list [], _ => .emptyArray Json.Grammar.spaces_nil
  | .list (v :: items), hwhole => by
    obtain ⟨u, hu, hchars⟩ := denotes_items items hwhole.2 (denotes_chars v hwhole.1)
    rw [chars, hchars]
    exact .array hu
  | .map [], _ => .emptyObject Json.Grammar.spaces_nil
  | .map ((k, v) :: entries), hwhole => by
    obtain ⟨u, hu, hchars⟩ := denotes_members entries hwhole.2
      (denotes_quote k (denotes_chars v hwhole.1))
    rw [List.append_assoc, List.cons_append] at hchars
    rw [chars, hchars]
    exact .object hu

/-- An item and those behind it, up to the bracket. -/
theorem denotes_items : ∀ items : List Variant, WholeItems items →
    ∀ {u : List Char} {m : Meaning}, Json.Denotation.Value Any u m →
      ∃ us, Json.Denotation.Items Any us (m :: itemMeanings items) ∧
        u ++ itemChars items = us ++ [']']
  | [], _, u, _, hu => ⟨u, .one (Json.Denotation.element_of_value hu), rfl⟩
  | v :: items, hwhole, u, _, hu => by
    obtain ⟨us, hus, hchars⟩ := denotes_items items hwhole.2 (denotes_chars v hwhole.1)
    refine ⟨u ++ ',' :: us, .cons (Json.Denotation.element_of_value hu) hus, ?_⟩
    rw [itemChars, hchars, List.append_assoc, List.cons_append]

/-- A member and those behind it, up to the brace. -/
theorem denotes_members : ∀ entries : List (String × Variant), WholeEntries entries →
    ∀ {u : List Char} {m : String × Meaning}, Json.Denotation.Member Any u m →
      ∃ us, Json.Denotation.Members Any us (m :: entryMeanings entries) ∧
        u ++ entryChars entries = us ++ ['\x7d']
  | [], _, u, _, hu => ⟨u, .one hu, rfl⟩
  | (k, v) :: entries, hwhole, u, _, hu => by
    obtain ⟨us, hus, hchars⟩ := denotes_members entries hwhole.2
      (denotes_quote k (denotes_chars v hwhole.1))
    refine ⟨u ++ ',' :: us, .cons hu hus, ?_⟩
    rw [List.append_assoc, List.cons_append] at hchars
    rw [entryChars, hchars, List.append_assoc, List.cons_append]

end

/-! ### What is read -/

/-- A value with whole numbers that means `m`. -/
structure Keeps (v : Variant) (m : Meaning) : Prop where
  meaning_eq : v.meaning = m
  keysOnce : v.KeysOnce
  wholeNumbers : v.WholeNumbers

/-- Pairs of a key and such a value, where keys may be bound more than once. -/
structure KeepsPairs (es : List (String × Variant)) (ms : List (String × Meaning)) : Prop where
  meaning_eq : entryMeanings es = ms
  keysOnce : KeysOnceEntries es
  wholeNumbers : WholeEntries es

variable {v : Variant} {m : Meaning} {vs : List Variant} {ms : List Meaning}

theorem Keeps.cons (h : Keeps v m) (hs : Keeps (.list vs) (.array ms)) :
    Keeps (.list (v :: vs)) (.array (m :: ms)) := by
  have hitems : itemMeanings vs = ms := Meaning.array.inj hs.meaning_eq
  refine ⟨?_, ⟨h.keysOnce, hs.keysOnce⟩, ⟨h.wholeNumbers, hs.wholeNumbers⟩⟩
  rw [meaning, itemMeanings, h.meaning_eq, hitems]

theorem KeepsPairs.cons {k : String} {es : List (String × Variant)}
    {ps : List (String × Meaning)} (hs : KeepsPairs es ps) (h : Keeps v m) :
    KeepsPairs ((k, v) :: es) ((k, m) :: ps) := by
  refine ⟨?_, ⟨h.keysOnce, hs.keysOnce⟩, ⟨h.wholeNumbers, hs.wholeNumbers⟩⟩
  rw [entryMeanings, h.meaning_eq, hs.meaning_eq]

/-- An object binds each key to the last of its values. -/
theorem KeepsPairs.object {members : List (String × Json)} {pairs : List (String × Meaning)}
    (h : KeepsPairs (ofMembers members) pairs) :
    Keeps (ofJson (.ofPairs members)) (.ofPairs pairs) := by
  have hmem : ∀ e ∈ ofMembers (KeyMap.ofList members).entries, e ∈ ofMembers members := by
    rw [ofMembers_eq_map, ofMembers_eq_map]
    intro e he
    obtain ⟨⟨k, j⟩, hmem, rfl⟩ := List.mem_map.mp he
    rw [← lastEntry_eq_some_iff (KeyMap.ofList members).ordered.nodup_keys,
      KeyMap.lastEntry_ofList] at hmem
    exact List.mem_map.mpr ⟨_, mem_of_lastEntry hmem, rfl⟩
  have hmeaning (members : List (String × Json)) : entryMeanings (ofMembers members) =
      members.map fun e => (e.1, (ofJson e.2).meaning) := by
    rw [entryMeanings_eq_map, ofMembers_eq_map, List.map_map]
    rfl
  rw [Json.ofPairs, ofJson]
  refine ⟨?_, ⟨?_, keysOnceEntries_iff.mpr fun e he => ?_⟩, wholeEntries_iff.mpr fun e he => ?_⟩
  · rw [meaning, ← h.meaning_eq, hmeaning, hmeaning, Meaning.ofPairs, Meaning.ofPairs]
    refine congrArg Meaning.object (funext fun key => ?_)
    rw [lastEntry_map fun j => (ofJson j).meaning, lastEntry_map fun j => (ofJson j).meaning,
      KeyMap.lastEntry_ofList]
  · simpa [ofMembers_eq_map, Function.comp_def] using (KeyMap.ofList members).ordered.nodup_keys
  · exact keysOnceEntries_iff.mp h.keysOnce e (hmem e he)
  · exact wholeEntries_iff.mp h.wholeNumbers e (hmem e he)

mutual

/-- A document of small integers is read as a value of the same meaning, if values may lie deep
enough in it. -/
theorem exists_value : ∀ {u : List Char} {m : Meaning},
    Json.Denotation.Value IsSmallInteger u m →
      ∃ depth j, Json.Grammar.Value depth u j ∧ Keeps (ofJson j) m
  | _, _, .null => ⟨0, _, .null 0, rfl, trivial, trivial⟩
  | _, _, .isTrue => ⟨0, _, .isTrue 0, rfl, trivial, trivial⟩
  | _, _, .isFalse => ⟨0, _, .isFalse 0, rfl, trivial, trivial⟩
  | _, _, .string h => ⟨0, _, .string 0 h, rfl, trivial, trivial⟩
  | _, _, .number (t := t) ht hu hsmall => by
    obtain ⟨n, hn, hvalue⟩ := NumberText.value?_of_isSmallInteger ht hsmall
    refine ⟨0, _, .number 0 ht hu hn, ?_, trivial, t.negative, _, hsmall.le, hvalue⟩
    rw [ofJson, hvalue, meaning_number t.negative hsmall.le,
      NumberText.rational_of_isSmallInteger hsmall]
  | _, _, .emptyArray hws => ⟨1, _, .emptyArray 0 hws, rfl, trivial, trivial⟩
  | _, _, .array h => by
    obtain ⟨depth, items, hitems, hkeeps⟩ := exists_items h
    exact ⟨depth + 1, _, .array hitems, hkeeps⟩
  | _, _, .emptyObject hws =>
    ⟨1, _, .emptyObject 0 hws, rfl, ⟨List.nodup_nil, trivial⟩, trivial⟩
  | _, _, .object h => by
    obtain ⟨depth, members, hmembers, hkeeps⟩ := exists_members h
    exact ⟨depth + 1, _, .object hmembers, hkeeps.object⟩

theorem exists_element : ∀ {u : List Char} {m : Meaning},
    Json.Denotation.Element IsSmallInteger u m →
      ∃ depth j, Json.Grammar.Element depth u j ∧ Keeps (ofJson j) m
  | _, _, .mk ha hu hb => by
    obtain ⟨depth, j, hvalue, hkeeps⟩ := exists_value hu
    exact ⟨depth, j, .mk ha hvalue hb, hkeeps⟩

theorem exists_items : ∀ {u : List Char} {ms : List Meaning},
    Json.Denotation.Items IsSmallInteger u ms →
      ∃ depth items, Json.Grammar.Items depth u items ∧
        Keeps (.list (ofItems items)) (.array ms)
  | _, _, .one h => by
    obtain ⟨depth, j, helement, hkeeps⟩ := exists_element h
    exact ⟨depth, [j], .one helement, hkeeps.cons ⟨rfl, trivial, trivial⟩⟩
  | _, _, .cons h hs => by
    obtain ⟨depth, j, helement, hkeeps⟩ := exists_element h
    obtain ⟨depth', items, hitems, hkeeps'⟩ := exists_items hs
    exact ⟨max depth depth', j :: items, .cons (helement.mono (Nat.le_max_left _ _))
      (hitems.mono (Nat.le_max_right _ _)), hkeeps.cons hkeeps'⟩

theorem exists_member : ∀ {u : List Char} {m : String × Meaning},
    Json.Denotation.Member IsSmallInteger u m →
      ∃ depth j, Json.Grammar.Member depth u (m.1, j) ∧ Keeps (ofJson j) m.2
  | _, _, .mk ha hu hb hv => by
    obtain ⟨depth, j, helement, hkeeps⟩ := exists_element hv
    exact ⟨depth, j, .mk ha hu hb helement, hkeeps⟩

theorem exists_members : ∀ {u : List Char} {ms : List (String × Meaning)},
    Json.Denotation.Members IsSmallInteger u ms →
      ∃ depth members, Json.Grammar.Members depth u members ∧ KeepsPairs (ofMembers members) ms
  | _, _, .one h => by
    obtain ⟨depth, j, hmember, hkeeps⟩ := exists_member h
    exact ⟨depth, [_], .one hmember, KeepsPairs.cons ⟨rfl, trivial, trivial⟩ hkeeps⟩
  | _, _, .cons h hs => by
    obtain ⟨depth, j, hmember, hkeeps⟩ := exists_member h
    obtain ⟨depth', members, hmembers, hkeeps'⟩ := exists_members hs
    exact ⟨max depth depth', _ :: members, .cons (hmember.mono (Nat.le_max_left _ _))
      (hmembers.mono (Nat.le_max_right _ _)), hkeeps'.cons hkeeps⟩

end

/-- What is read from a document of small integers, however it is written again, denotes the same.
-/
theorem denotes_read {cs : List Char} {j : Json} {w : Variant}
    (hdenotes : Json.Denotes IsSmallInteger cs m) (hdocument : Json.Grammar.Document cs j)
    (hw : Same (ofJson j) w) : Json.Denotes Any w.chars m := by
  obtain ⟨depth, j', helement, hkeeps⟩ := exists_element hdenotes
  obtain rfl := hdocument.unique helement
  rw [← hkeeps.meaning_eq, hw.meaning_eq hkeeps.keysOnce]
  exact Json.Denotation.element_of_value (denotes_chars w (hw.wholeNumbers hkeeps.wholeNumbers))

end Variant

end Uplink

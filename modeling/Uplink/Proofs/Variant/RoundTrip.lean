import Uplink.Outgoing
import Uplink.Proofs.Json.Documents
import Uplink.Proofs.Json.ShortestText
import Uplink.Proofs.Text.Utf8

/-! Decoding undoes writing. The text of a value is read as a document, whatever the order its maps
are written in, and the value of that document differs from the one written in its numbers only: a
number that is not finite has become null, and any other the number its own text is read as. -/

namespace Uplink

namespace Variant

mutual

/-- How many lists and maps the innermost parts of a value lie in. -/
def depth : Variant → Nat
  | .list items => depthItems items + 1
  | .map entries => depthEntries entries + 1
  | _ => 0

def depthItems : List Variant → Nat
  | [] => 0
  | v :: rest => max v.depth (depthItems rest)

def depthEntries : List (String × Variant) → Nat
  | [] => 0
  | (_, v) :: rest => max v.depth (depthEntries rest)

end

mutual

/-- Every map inside binds each key once. -/
def KeysOnce : Variant → Prop
  | .list items => KeysOnceItems items
  | .map entries => (entries.map (·.1)).Nodup ∧ KeysOnceEntries entries
  | _ => True

def KeysOnceItems : List Variant → Prop
  | [] => True
  | v :: rest => v.KeysOnce ∧ KeysOnceItems rest

def KeysOnceEntries : List (String × Variant) → Prop
  | [] => True
  | (_, v) :: rest => v.KeysOnce ∧ KeysOnceEntries rest

end

mutual

/-- The value with every number that is not finite replaced by null, and every other by what
`decode` makes of the number's own text. -/
def reread : Variant → Variant
  | .null => .null
  | .bool b => .bool b
  | .number x => if x.isFinite then decode (Text.Utf8.encode x.text.toList) else .null
  | .string s => .string s
  | .list items => .list (rereadItems items)
  | .map entries => .map (rereadEntries entries)

def rereadItems : List Variant → List Variant
  | [] => []
  | v :: rest => v.reread :: rereadItems rest

def rereadEntries : List (String × Variant) → List (String × Variant)
  | [] => []
  | (k, v) :: rest => (k, v.reread) :: rereadEntries rest

end

mutual

/-- Values that differ in the order of map entries at most. -/
inductive Same : Variant → Variant → Prop
  | null : Same .null .null
  | bool (b : Bool) : Same (.bool b) (.bool b)
  | number (x : Binary64) : Same (.number x) (.number x)
  | string (s : String) : Same (.string s) (.string s)
  | list : SameItems xs ys → Same (.list xs) (.list ys)
  | map : es.Perm fs → SameEntries fs gs → Same (.map es) (.map gs)

inductive SameItems : List Variant → List Variant → Prop
  | nil : SameItems [] []
  | cons : Same v w → SameItems vs ws → SameItems (v :: vs) (w :: ws)

/-- Entries of the same keys in the same order. -/
inductive SameEntries : List (String × Variant) → List (String × Variant) → Prop
  | nil : SameEntries [] []
  | cons (k : String) : Same v w → SameEntries es fs → SameEntries ((k, v) :: es) ((k, w) :: fs)

end

mutual

theorem Same.refl : ∀ v : Variant, Same v v
  | .null => .null
  | .bool b => .bool b
  | .number x => .number x
  | .string s => .string s
  | .list items => .list (SameItems.refl items)
  | .map entries => .map (.refl entries) (SameEntries.refl entries)

theorem SameItems.refl : ∀ items : List Variant, SameItems items items
  | [] => .nil
  | v :: items => .cons (Same.refl v) (SameItems.refl items)

theorem SameEntries.refl : ∀ entries : List (String × Variant), SameEntries entries entries
  | [] => .nil
  | (k, v) :: entries => .cons k (Same.refl v) (SameEntries.refl entries)

end

mutual

/-- The document that the text of a value is read as. -/
def document : Variant → Json
  | .null => .null
  | .bool b => .bool b
  | .number x => if x.isFinite then (Json.ofChars? x.text.toList).getD .null else .null
  | .string s => .string s
  | .list items => .array (itemDocuments items)
  | .map entries => .ofPairs (entryDocuments entries)

def itemDocuments : List Variant → List Json
  | [] => []
  | v :: rest => v.document :: itemDocuments rest

def entryDocuments : List (String × Variant) → List (String × Json)
  | [] => []
  | (k, v) :: rest => (k, v.document) :: entryDocuments rest

end

/-- A finite number is read back from its text as some number. -/
theorem exists_document_number {x : Binary64} (hx : x.isFinite = true) : ∃ n,
    (Variant.number x).document = .number n ∧ Json.ofChars? x.text.toList = some (.number n) ∧
      ∀ depth, Json.Grammar.Value depth x.text.toList (.number n) := by
  obtain ⟨t, ht, hchars, n, hn⟩ := Json.NumberText.exists_text hx
  have hvalue (depth : Nat) : Json.Grammar.Value depth x.text.toList (.number n) := by
    rw [hchars]
    exact .number depth ht t.spelled_chars hn
  have hwhole := Json.ofChars?_eq_some_iff.mpr (Json.Grammar.document_of_value (hvalue _))
  exact ⟨n, by rw [document, if_pos hx, hwhole, Option.getD_some], hwhole, hvalue⟩

theorem member_quote {depth : Nat} {u : List Char} {j : Json} (k : String)
    (h : Json.Grammar.Value depth u j) :
    Json.Grammar.Member depth (Json.quote k ++ ':' :: u) (k, j) := by
  have hmember := Json.Grammar.Member.mk Json.Grammar.spaces_nil
    (Json.textSpelled_escaped k.toList) Json.Grammar.spaces_nil (Json.Grammar.element_of_value h)
  simpa [Json.quote] using hmember

mutual

/-- The text of a value is one of its document. -/
theorem value_chars : ∀ (v : Variant) (depth : Nat), v.depth ≤ depth →
    Json.Grammar.Value depth v.chars v.document
  | .null, depth, _ => .null depth
  | .bool true, depth, _ => .isTrue depth
  | .bool false, depth, _ => .isFalse depth
  | .string s, depth, _ => .string depth (Json.textSpelled_escaped s.toList)
  | .number x, depth, _ => by
    by_cases hx : x.isFinite = true
    · obtain ⟨n, hn, -, hvalue⟩ := exists_document_number hx
      rw [chars, if_pos hx, hn]
      exact hvalue depth
    · rw [chars, document, if_neg hx, if_neg hx]
      exact .null depth
  | .list [], depth + 1, _ => .emptyArray depth Json.Grammar.spaces_nil
  | .list (v :: items), depth + 1, hdepth => by
    rw [Variant.depth, depthItems, Nat.add_le_add_iff_right, Nat.max_le] at hdepth
    obtain ⟨u, hu, hchars⟩ := items_chars items depth hdepth.2 (value_chars v depth hdepth.1)
    rw [chars, hchars]
    exact .array hu
  | .map [], depth + 1, _ => .emptyObject depth Json.Grammar.spaces_nil
  | .map ((k, v) :: entries), depth + 1, hdepth => by
    rw [Variant.depth, depthEntries, Nat.add_le_add_iff_right, Nat.max_le] at hdepth
    obtain ⟨u, hu, hchars⟩ := members_chars entries depth hdepth.2
      (member_quote k (value_chars v depth hdepth.1))
    rw [List.append_assoc, List.cons_append] at hchars
    rw [chars, hchars]
    exact .object hu

/-- An item and those behind it, up to the bracket. -/
theorem items_chars : ∀ (items : List Variant) (depth : Nat), depthItems items ≤ depth →
    ∀ {u : List Char} {j : Json}, Json.Grammar.Value depth u j →
      ∃ us, Json.Grammar.Items depth us (j :: itemDocuments items) ∧
        u ++ itemChars items = us ++ [']']
  | [], _, _, u, _, hu => ⟨u, .one (Json.Grammar.element_of_value hu), rfl⟩
  | v :: items, depth, hdepth, u, _, hu => by
    rw [depthItems, Nat.max_le] at hdepth
    obtain ⟨us, hus, hchars⟩ := items_chars items depth hdepth.2 (value_chars v depth hdepth.1)
    refine ⟨u ++ ',' :: us, .cons (Json.Grammar.element_of_value hu) hus, ?_⟩
    rw [itemChars, hchars, List.append_assoc, List.cons_append]

/-- A member and those behind it, up to the brace. -/
theorem members_chars : ∀ (entries : List (String × Variant)) (depth : Nat),
    depthEntries entries ≤ depth →
    ∀ {u : List Char} {m : String × Json}, Json.Grammar.Member depth u m →
      ∃ us, Json.Grammar.Members depth us (m :: entryDocuments entries) ∧
        u ++ entryChars entries = us ++ ['\x7d']
  | [], _, _, u, _, hu => ⟨u, .one hu, rfl⟩
  | (k, v) :: entries, depth, hdepth, u, _, hu => by
    rw [depthEntries, Nat.max_le] at hdepth
    obtain ⟨us, hus, hchars⟩ := members_chars entries depth hdepth.2
      (member_quote k (value_chars v depth hdepth.1))
    refine ⟨u ++ ',' :: us, .cons hu hus, ?_⟩
    rw [List.append_assoc, List.cons_append] at hchars
    rw [entryChars, hchars, List.append_assoc, List.cons_append]

end

theorem ofChars?_chars {v : Variant} (hdepth : v.depth ≤ Json.nestingLimit) :
    Json.ofChars? v.chars = some v.document :=
  Json.ofChars?_eq_some_iff.mpr (Json.Grammar.document_of_value (value_chars v _ hdepth))

theorem decode_encode {cs : List Char} {j : Json} (h : Json.ofChars? cs = some j) :
    decode (Text.Utf8.encode cs) = ofJson j := by
  have hread : (Text.Utf8.decode? (Text.Utf8.encode cs) >>= Json.ofChars?) = some j := by
    rw [Text.Utf8.decode?_encode]
    exact h
  rw [decode, hread]

theorem ofMembers_eq_map (members : List (String × Json)) :
    ofMembers members = members.map fun m => (m.1, ofJson m.2) := by
  induction members with
  | nil => rfl
  | cons m members ih => rw [ofMembers, ih, List.map_cons]

theorem keys_entryDocuments (entries : List (String × Variant)) :
    (entryDocuments entries).map (·.1) = entries.map (·.1) := by
  induction entries with
  | nil => rfl
  | cons e entries ih => rw [entryDocuments, List.map_cons, List.map_cons, ih]

mutual

/-- The value of a value's document is the value up to its numbers and the order of map entries. -/
theorem same_document : ∀ v : Variant, v.KeysOnce → Same (ofJson v.document) v.reread
  | .null, _ => .null
  | .bool b, _ => .bool b
  | .string s, _ => .string s
  | .number x, _ => by
    by_cases hx : x.isFinite = true
    · obtain ⟨n, hn, hread, -⟩ := exists_document_number hx
      rw [reread, if_pos hx, decode_encode hread, hn, ofJson]
      exact .number _
    · rw [document, reread, if_neg hx, if_neg hx]
      exact .null
  | .list items, hkeys => by
    rw [document, reread, ofJson]
    exact .list (same_itemDocuments items hkeys)
  | .map entries, hkeys => by
    have honce : ((entryDocuments entries).map (·.1)).Nodup := by
      rw [keys_entryDocuments]
      exact hkeys.1
    have hperm : (ofMembers (KeyMap.ofList (entryDocuments entries)).entries).Perm
        (ofMembers (entryDocuments entries)) := by
      rw [ofMembers_eq_map, ofMembers_eq_map]
      exact (KeyMap.ofList_perm honce).map _
    rw [document, reread, Json.ofPairs, ofJson]
    exact .map hperm (same_entryDocuments entries hkeys.2)

theorem same_itemDocuments : ∀ items : List Variant, KeysOnceItems items →
    SameItems (ofItems (itemDocuments items)) (rereadItems items)
  | [], _ => .nil
  | v :: items, hkeys => .cons (same_document v hkeys.1) (same_itemDocuments items hkeys.2)

theorem same_entryDocuments : ∀ entries : List (String × Variant), KeysOnceEntries entries →
    SameEntries (ofMembers (entryDocuments entries)) (rereadEntries entries)
  | [], _ => .nil
  | (k, v) :: entries, hkeys =>
    .cons k (same_document v hkeys.1) (same_entryDocuments entries hkeys.2)

end

/-- The bytes of a value, with its maps written in any order, are a document, and decode to the
value itself but for its numbers: what is not finite is null, and any other is the number, finite
again, that its own text decodes to. -/
theorem decode_written {v : Variant} (hkeys : v.KeysOnce) (hdepth : v.depth ≤ 127) :
    (∃ j, (Text.Utf8.decode? (Outgoing.bodyBytes (some (.json v))) >>= Json.ofChars?) = some j) ∧
      Same (decode (Outgoing.bodyBytes (some (.json v)))) v.reread ∧
      ∀ x : Binary64, x.isFinite = true →
        ∃ y, decode (Text.Utf8.encode x.text.toList) = .number y ∧ y.isFinite = true := by
  have hread := ofChars?_chars hdepth
  refine ⟨⟨v.document, ?_⟩, ?_, fun x hx => ?_⟩
  · rw [Outgoing.bodyBytes, Text.Utf8.decode?_encode]
    exact hread
  · rw [Outgoing.bodyBytes, decode_encode hread]
    exact same_document v hkeys
  · obtain ⟨n, -, hnumber, -⟩ := exists_document_number hx
    exact ⟨n.toBinary64, by rw [decode_encode hnumber, ofJson], n.isFinite_toBinary64⟩

/-- A map out of the order of its keys, around a list with a number and with what is none, and a
text of characters that are escaped, a character that is not, and one beyond the first plane. -/
theorem decode_written_nested :
    let v : Variant := .map [("b", .list [.number (.ofNat 3), .number .nan, .null]),
      ("a", .string "\"\\\n\x7f😀")]
    v.KeysOnce ∧ v.depth ≤ 127 ∧
      (∃ j, (Text.Utf8.decode? (Outgoing.bodyBytes (some (.json v))) >>= Json.ofChars?) = some j) ∧
      Same (decode (Outgoing.bodyBytes (some (.json v)))) v.reread ∧
      ∀ x : Binary64, x.isFinite = true →
        ∃ y, decode (Text.Utf8.encode x.text.toList) = .number y ∧ y.isFinite = true := by
  intro v
  have hkeys : v.KeysOnce := by simp [v, KeysOnce, KeysOnceEntries, KeysOnceItems]
  have hdepth : v.depth ≤ 127 := by simp [v, depth, depthEntries, depthItems]
  exact ⟨hkeys, hdepth, decode_written hkeys hdepth⟩

end Variant

end Uplink

import Uplink.Proofs.Variant.Conversion
import Uplink.Stream.Message

/-! The two ways of a value to its text: straight, as the body of a request, and through a document,
as a message of a stream. The document has the keys of every object in order; where the maps of the
value have theirs so, both texts are the same. -/

namespace Uplink

variable {α : Type}

/-- There is one order of the same entries. -/
theorem Ordered.eq_of_perm {es fs : List (String × α)} (hes : Ordered es) (hfs : Ordered fs)
    (h : es.Perm fs) : es = fs :=
  h.eq_of_pairwise (fun a _ _ _ hab hba => absurd (String.lt_trans hab hba) (String.lt_irrefl a.1))
    hes hfs

theorem Ordered.nodup_keys {es : List (String × α)} (h : Ordered es) : (es.map (·.1)).Nodup := by
  apply (ordered_iff_keys.mp h).imp
  intro a b hlt heq
  exact String.lt_irrefl b (heq ▸ hlt)

theorem Json.canonicalMembers_iff {members : List (String × Json)} :
    CanonicalMembers members ↔ ∀ m ∈ members, m.2.Canonical := by
  induction members with
  | nil => simp [CanonicalMembers]
  | cons m members ih => rw [CanonicalMembers, ih, List.forall_mem_cons]

namespace Variant

mutual

/-- The entries of every map inside are in the order of their keys. -/
def KeysInOrder : Variant → Prop
  | .list items => KeysInOrderItems items
  | .map entries => Ordered entries ∧ KeysInOrderEntries entries
  | _ => True

def KeysInOrderItems : List Variant → Prop
  | [] => True
  | v :: rest => v.KeysInOrder ∧ KeysInOrderItems rest

def KeysInOrderEntries : List (String × Variant) → Prop
  | [] => True
  | (_, v) :: rest => v.KeysInOrder ∧ KeysInOrderEntries rest

end

mutual

/-- The value with the entries of every map inside put in the order of their keys. -/
def sorted : Variant → Variant
  | .list items => .list (sortedItems items)
  | .map entries => .map (sortedEntries entries)
  | v => v

def sortedItems : List Variant → List Variant
  | [] => []
  | v :: rest => v.sorted :: sortedItems rest

def sortedEntries : List (String × Variant) → List (String × Variant)
  | [] => []
  | (k, v) :: rest => insertEntry k v.sorted (sortedEntries rest)

end

theorem sortedEntries_eq_inOrder (entries : List (String × Variant)) :
    sortedEntries entries = inOrder sorted entries := by
  induction entries with
  | nil => rfl
  | cons e entries ih => rw [sortedEntries, ih]; rfl

theorem keysInOrderEntries_iff {entries : List (String × Variant)} :
    KeysInOrderEntries entries ↔ ∀ e ∈ entries, e.2.KeysInOrder := by
  induction entries with
  | nil => simp [KeysInOrderEntries]
  | cons e entries ih => rw [KeysInOrderEntries, ih, List.forall_mem_cons]

theorem keysOnceEntries_iff {entries : List (String × Variant)} :
    KeysOnceEntries entries ↔ ∀ e ∈ entries, e.2.KeysOnce := by
  induction entries with
  | nil => simp [KeysOnceEntries]
  | cons e entries ih => rw [KeysOnceEntries, ih, List.forall_mem_cons]

/-! ### Putting keys in order -/

/-- What holds of `f` of each value holds of each value after the entries were put in order. -/
theorem forall_mem_inOrder {β : Type} {f : Variant → β} {p : β → Prop}
    {entries : List (String × Variant)} (honce : (entries.map (·.1)).Nodup)
    (h : ∀ e ∈ entries, p (f e.2)) : ∀ e ∈ inOrder f entries, p e.2 := by
  intro e he
  obtain ⟨e', he', rfl⟩ := List.mem_map.mp ((inOrder_perm f honce).mem_iff.mp he)
  exact h e' he'

mutual

theorem keysInOrder_sorted : ∀ v : Variant, v.KeysOnce → v.sorted.KeysInOrder
  | .null, _ => trivial
  | .bool _, _ => trivial
  | .number _, _ => trivial
  | .string _, _ => trivial
  | .list items, h => keysInOrder_sortedItems items h
  | .map entries, h => by
    rw [sorted, KeysInOrder, sortedEntries_eq_inOrder, keysInOrderEntries_iff]
    exact ⟨ordered_inOrder _ _, forall_mem_inOrder h.1 (keysInOrder_sortedValues entries h.2)⟩

theorem keysInOrder_sortedItems : ∀ items : List Variant, KeysOnceItems items →
    KeysInOrderItems (sortedItems items)
  | [], _ => trivial
  | v :: rest, h => ⟨keysInOrder_sorted v h.1, keysInOrder_sortedItems rest h.2⟩

theorem keysInOrder_sortedValues : ∀ entries : List (String × Variant), KeysOnceEntries entries →
    ∀ e ∈ entries, e.2.sorted.KeysInOrder
  | [], _ => fun _ he => nomatch he
  | (_, v) :: rest, h =>
    List.forall_mem_cons.mpr ⟨keysInOrder_sorted v h.1, keysInOrder_sortedValues rest h.2⟩

end

theorem SameEntries.insertEntry {k : String} {v w : Variant} {es fs : List (String × Variant)}
    (hv : Same v w) (h : SameEntries es fs) :
    SameEntries (insertEntry k v es) (insertEntry k w fs) := by
  cases h with
  | nil => exact .cons k hv .nil
  | cons k' hv' hs =>
    rw [Uplink.insertEntry, Uplink.insertEntry]
    split
    · exact .cons k hv hs
    · split
      · exact .cons k hv (.cons k' hv' hs)
      · exact .cons k' hv' (hs.insertEntry hv)

mutual

theorem same_sorted : ∀ v : Variant, v.KeysOnce → Same v v.sorted
  | .null, _ => .null
  | .bool b, _ => .bool b
  | .number x, _ => .number x
  | .string s, _ => .string s
  | .list items, h => .list (same_sortedItems items h)
  | .map entries, h => by
    have hperm := (inOrder_perm id h.1).symm
    simp only [id, Prod.mk.eta, List.map_id'] at hperm
    exact .map hperm (same_sortedEntries entries h.2)

theorem same_sortedItems : ∀ items : List Variant, KeysOnceItems items →
    SameItems items (sortedItems items)
  | [], _ => .nil
  | v :: rest, h => .cons (same_sorted v h.1) (same_sortedItems rest h.2)

theorem same_sortedEntries : ∀ entries : List (String × Variant), KeysOnceEntries entries →
    SameEntries (inOrder id entries) (sortedEntries entries)
  | [], _ => .nil
  | (_, v) :: rest, h => (same_sortedEntries rest h.2).insertEntry (same_sorted v h.1)

end

/-! ### The document -/

mutual

/-- The document of a value has its keys in order at every level. -/
theorem canonical_toJson : ∀ v : Variant, v.KeysOnce → v.toJson.Canonical
  | .null, _ => trivial
  | .bool _, _ => trivial
  | .number x, _ => by
    rw [toJson, Json.ofBinary64]
    split <;> trivial
  | .string _, _ => trivial
  | .list items, h => canonical_toItems items h
  | .map entries, h => by
    rw [toJson, Json.Canonical, toMembers_eq_inOrder, Json.canonicalMembers_iff]
    exact ⟨ordered_inOrder _ _, forall_mem_inOrder h.1 (canonical_values entries h.2)⟩

theorem canonical_toItems : ∀ items : List Variant, KeysOnceItems items →
    Json.CanonicalItems (toItems items)
  | [], _ => trivial
  | v :: rest, h => ⟨canonical_toJson v h.1, canonical_toItems rest h.2⟩

theorem canonical_values : ∀ entries : List (String × Variant), KeysOnceEntries entries →
    ∀ e ∈ entries, e.2.toJson.Canonical
  | [], _ => fun _ he => nomatch he
  | (_, v) :: rest, h =>
    List.forall_mem_cons.mpr ⟨canonical_toJson v h.1, canonical_values rest h.2⟩

end

/-- In which order the entries of a map are kept makes no difference for its members. -/
theorem toMembers_eq_of_perm {es fs : List (String × Variant)} (honce : (es.map (·.1)).Nodup)
    (h : es.Perm fs) : toMembers es = toMembers fs := by
  have honce' : (fs.map (·.1)).Nodup := (h.map _).nodup_iff.mp honce
  rw [toMembers_eq_inOrder, toMembers_eq_inOrder]
  refine (ordered_inOrder _ _).eq_of_perm (ordered_inOrder _ _) ?_
  exact (inOrder_perm toJson honce).trans ((h.map _).trans (inOrder_perm toJson honce').symm)

mutual

theorem Same.toJson_eq {v w : Variant} : Same v w → v.KeysOnce → v.toJson = w.toJson
  | .null, _ => rfl
  | .bool _, _ => rfl
  | .number _, _ => rfl
  | .string _, _ => rfl
  | .list h, hkeys => congrArg Json.array (h.toItems_eq hkeys)
  | .map hperm h, hkeys => by
    have hvalues := keysOnceEntries_iff.mp hkeys.2
    have hkeys' := keysOnceEntries_iff.mpr fun e he => hvalues e (hperm.mem_iff.mpr he)
    rw [toJson, toJson, toMembers_eq_of_perm hkeys.1 hperm, h.toMembers_eq hkeys']

theorem SameItems.toItems_eq {vs ws : List Variant} : SameItems vs ws → KeysOnceItems vs →
    toItems vs = toItems ws
  | .nil, _ => rfl
  | .cons h hs, hkeys => congrArg₂ List.cons (h.toJson_eq hkeys.1) (hs.toItems_eq hkeys.2)

theorem SameEntries.toMembers_eq {es fs : List (String × Variant)} : SameEntries es fs →
    KeysOnceEntries es → toMembers es = toMembers fs
  | .nil, _ => rfl
  | .cons k h hs, hkeys =>
    congrArg₂ (Uplink.insertEntry k) (h.toJson_eq hkeys.1) (hs.toMembers_eq hkeys.2)

end

/-! ### The texts -/

/-- Entries in order become members one by one. -/
theorem toMembers_cons {k : String} {v : Variant} {rest : List (String × Variant)}
    (h : Ordered ((k, v) :: rest)) :
    toMembers ((k, v) :: rest) = (k, v.toJson) :: toMembers rest := by
  obtain ⟨hfirst, hrest⟩ := List.pairwise_cons.mp (ordered_iff_keys.mp h)
  have hkeys : ((toMembers rest).map (·.1)).Perm (rest.map (·.1)) := by
    have hperm := (inOrder_perm toJson (ordered_iff_keys.mpr hrest).nodup_keys).map (·.1)
    rwa [← toMembers_eq_inOrder, List.map_map] at hperm
  rw [toMembers, insertEntry_of_lt]
  exact fun k' hk' => hfirst k' (hkeys.mem_iff.mp hk')

mutual

/-- Where all keys are in order, the text of a value is that of its document. -/
theorem chars_toJson : ∀ v : Variant, v.KeysInOrder → v.toJson.chars = v.chars
  | .null, _ => rfl
  | .bool true, _ => rfl
  | .bool false, _ => rfl
  | .string _, _ => rfl
  | .number x, _ => by
    rw [toJson, Json.ofBinary64, chars]
    split <;> rfl
  | .list [], _ => rfl
  | .list (v :: rest), h => by
    rw [toJson, toItems, Json.chars, chars, chars_toJson v h.1, itemChars_toItems rest h.2]
  | .map [], _ => rfl
  | .map ((k, v) :: rest), h => by
    rw [toJson, toMembers_cons h.1, Json.chars, chars, chars_toJson v h.2.1,
      memberChars_toMembers rest (List.pairwise_cons.mp h.1).2 h.2.2]

theorem itemChars_toItems : ∀ items : List Variant, KeysInOrderItems items →
    Json.itemChars (toItems items) = itemChars items
  | [], _ => rfl
  | v :: rest, h => by
    rw [toItems, Json.itemChars, itemChars, chars_toJson v h.1, itemChars_toItems rest h.2]

theorem memberChars_toMembers : ∀ entries : List (String × Variant), Ordered entries →
    KeysInOrderEntries entries → Json.memberChars (toMembers entries) = entryChars entries
  | [], _, _ => rfl
  | (k, v) :: rest, hordered, h => by
    rw [toMembers_cons hordered, Json.memberChars, entryChars, chars_toJson v h.1,
      memberChars_toMembers rest (List.pairwise_cons.mp hordered).2 h.2]

end

/-- The message of a stream has the keys of every object in order, and its text is that of the
request body, once the keys of the body are in order too: a value has an arrangement in that order,
and any such is written as the message. -/
theorem serializations_agree {v : Variant} (hkeys : v.KeysOnce) :
    v.toJson.Canonical ∧ (∃ w, Same v w ∧ w.KeysInOrder) ∧
      ∀ w, Same v w → w.KeysInOrder →
        Outgoing.bodyBytes (some (.json w)) = (Stream.Message.ofVariant v).payload := by
  refine ⟨canonical_toJson v hkeys, ⟨v.sorted, same_sorted v hkeys, keysInOrder_sorted v hkeys⟩, ?_⟩
  intro w hsame hw
  rw [Outgoing.bodyBytes, Stream.Message.ofVariant, Stream.Message.ofJson, Stream.Message.payload,
    Json.text, String.toList_ofList, hsame.toJson_eq hkeys, chars_toJson w hw]

/-- Keys out of order at two levels, around a negative zero, an infinity and an empty list. -/
theorem serializations_agree_nested :
    let v : Variant := .map [("b", .map [("y", .number .negativeZero), ("x", .list [])]),
      ("a", .number (.infinite false))]
    v.KeysOnce ∧ v.toJson.Canonical ∧ (∃ w, Same v w ∧ w.KeysInOrder) ∧
      ∀ w, Same v w → w.KeysInOrder →
        Outgoing.bodyBytes (some (.json w)) = (Stream.Message.ofVariant v).payload := by
  intro v
  have hkeys : v.KeysOnce := by simp [v, KeysOnce, KeysOnceEntries, KeysOnceItems]
  exact ⟨hkeys, serializations_agree hkeys⟩

end Variant

end Uplink

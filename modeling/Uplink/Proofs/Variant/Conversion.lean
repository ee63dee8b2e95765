import Uplink.Proofs.Variant.RoundTrip

/-! Values and documents turned into one another. A value comes back from its document with null in
place of each number that is not finite, and unchanged where there is none; a document comes back
from its value with each number the nearest binary64 number to it. -/

namespace Uplink

variable {α β : Type} {key : String} {value : α}

/-- The pairs put in order one by one, the last first, with `f` of each value. -/
def inOrder (f : α → β) (entries : List (String × α)) : List (String × β) :=
  entries.foldr (fun e rest => insertEntry e.1 (f e.2) rest) []

theorem ordered_inOrder (f : α → β) (entries : List (String × α)) :
    Ordered (inOrder f entries) := by
  induction entries with
  | nil => exact List.Pairwise.nil
  | cons e entries ih => exact ih.insertEntry

/-- Where each key is bound once, nothing is lost on the way into order. -/
theorem inOrder_perm (f : α → β) {entries : List (String × α)}
    (honce : (entries.map (·.1)).Nodup) :
    (inOrder f entries).Perm (entries.map fun e => (e.1, f e.2)) := by
  induction entries with
  | nil => exact .refl _
  | cons e entries ih =>
    obtain ⟨hnew, hrest⟩ := List.nodup_cons.mp honce
    have hkeys : ((inOrder f entries).map (·.1)).Perm (entries.map (·.1)) := by
      simpa [Function.comp_def] using (ih hrest).map (·.1)
    rw [List.map_cons]
    exact (insertEntry_perm (mt hkeys.mem_iff.mp hnew)).trans ((ih hrest).cons _)

/-- A key below all others goes to the front. -/
theorem insertEntry_of_lt {entries : List (String × α)} (h : ∀ k ∈ entries.map (·.1), key < k) :
    insertEntry key value entries = (key, value) :: entries := by
  cases entries with
  | nil => rfl
  | cons e rest =>
    have hlt : key < e.1 := h e.1 List.mem_cons_self
    have hne : key ≠ e.1 := fun heq => String.lt_irrefl key (heq ▸ hlt)
    rw [insertEntry, if_neg hne, if_pos hlt]

theorem ordered_iff_keys {entries : List (String × α)} :
    Ordered entries ↔ (entries.map (·.1)).Pairwise (· < ·) := by
  rw [Ordered, List.pairwise_map]

/-- Where each key is bound once, an entry is what its key is bound to. -/
theorem findEntry_of_mem {entries : List (String × α)} (honce : (entries.map (·.1)).Nodup)
    (h : (key, value) ∈ entries) : findEntry key entries = some value := by
  induction entries with
  | nil => cases h
  | cons e rest ih =>
    obtain ⟨k, v⟩ := e
    obtain ⟨hnew, hrest⟩ := List.nodup_cons.mp honce
    rw [findEntry]
    rcases List.mem_cons.mp h with heq | hmem
    · obtain ⟨rfl, rfl⟩ := Prod.ext_iff.mp heq
      rw [if_pos rfl]
    · have hne : key ≠ k := by
        rintro rfl
        exact hnew (List.mem_map.mpr ⟨_, hmem, rfl⟩)
      rw [if_neg hne, ih hrest hmem]

namespace Json

mutual

/-- The document with every number replaced by the nearest binary64 number. -/
def rounded : Json → Json
  | .null => .null
  | .bool b => .bool b
  | .number n => .number (.real n.toBinary64 n.isFinite_toBinary64)
  | .string s => .string s
  | .array items => .array (roundedItems items)
  | .object members => .object (roundedMembers members)

def roundedItems : List Json → List Json
  | [] => []
  | j :: rest => j.rounded :: roundedItems rest

def roundedMembers : List (String × Json) → List (String × Json)
  | [] => []
  | (k, j) :: rest => (k, j.rounded) :: roundedMembers rest

end

theorem keys_roundedMembers (members : List (String × Json)) :
    (roundedMembers members).map (·.1) = members.map (·.1) := by
  induction members with
  | nil => rfl
  | cons m members ih => rw [roundedMembers, List.map_cons, List.map_cons, ih]

mutual

theorem canonical_rounded : ∀ j : Json, j.Canonical → j.rounded.Canonical
  | .null, _ => trivial
  | .bool _, _ => trivial
  | .number _, _ => trivial
  | .string _, _ => trivial
  | .array items, h => canonical_roundedItems items h
  | .object members, h => by
    rw [rounded, Canonical, ordered_iff_keys, keys_roundedMembers, ← ordered_iff_keys]
    exact ⟨h.1, canonical_roundedMembers members h.2⟩

theorem canonical_roundedItems : ∀ items : List Json, CanonicalItems items →
    CanonicalItems (roundedItems items)
  | [], _ => trivial
  | j :: rest, h => ⟨canonical_rounded j h.1, canonical_roundedItems rest h.2⟩

theorem canonical_roundedMembers : ∀ members : List (String × Json), CanonicalMembers members →
    CanonicalMembers (roundedMembers members)
  | [], _ => trivial
  | (_, j) :: rest, h => ⟨canonical_rounded j h.1, canonical_roundedMembers rest h.2⟩

end

mutual

theorem rounded_rounded : ∀ j : Json, j.rounded.rounded = j.rounded
  | .null => rfl
  | .bool _ => rfl
  | .number _ => rfl
  | .string _ => rfl
  | .array items => congrArg Json.array (roundedItems_roundedItems items)
  | .object members => congrArg Json.object (roundedMembers_roundedMembers members)

theorem roundedItems_roundedItems : ∀ items : List Json,
    roundedItems (roundedItems items) = roundedItems items
  | [] => rfl
  | j :: rest => congrArg₂ List.cons (rounded_rounded j) (roundedItems_roundedItems rest)

theorem roundedMembers_roundedMembers : ∀ members : List (String × Json),
    roundedMembers (roundedMembers members) = roundedMembers members
  | [] => rfl
  | (k, j) :: rest =>
    congrArg₂ List.cons (congrArg (Prod.mk k) (rounded_rounded j))
      (roundedMembers_roundedMembers rest)

end

end Json

namespace Variant

mutual

/-- The value with null in place of every number that is not finite. -/
def nulled : Variant → Variant
  | .null => .null
  | .bool b => .bool b
  | .number x => if x.isFinite then .number x else .null
  | .string s => .string s
  | .list items => .list (nulledItems items)
  | .map entries => .map (nulledEntries entries)

def nulledItems : List Variant → List Variant
  | [] => []
  | v :: rest => v.nulled :: nulledItems rest

def nulledEntries : List (String × Variant) → List (String × Variant)
  | [] => []
  | (k, v) :: rest => (k, v.nulled) :: nulledEntries rest

end

mutual

/-- Every number inside is finite. -/
def AllFinite : Variant → Prop
  | .number x => x.isFinite = true
  | .list items => AllFiniteItems items
  | .map entries => AllFiniteEntries entries
  | _ => True

def AllFiniteItems : List Variant → Prop
  | [] => True
  | v :: rest => v.AllFinite ∧ AllFiniteItems rest

def AllFiniteEntries : List (String × Variant) → Prop
  | [] => True
  | (_, v) :: rest => v.AllFinite ∧ AllFiniteEntries rest

end

theorem toMembers_eq_inOrder (entries : List (String × Variant)) :
    toMembers entries = inOrder toJson entries := by
  induction entries with
  | nil => rfl
  | cons e entries ih => rw [toMembers, ih]; rfl

theorem ofMembers_toMembers_perm {entries : List (String × Variant)}
    (honce : (entries.map (·.1)).Nodup) :
    (ofMembers (toMembers entries)).Perm (entries.map fun e => (e.1, ofJson e.2.toJson)) := by
  rw [ofMembers_eq_map, toMembers_eq_inOrder]
  simpa [Function.comp_def] using (inOrder_perm toJson honce).map fun m => (m.1, ofJson m.2)

theorem ofJson_ofBinary64 (x : Binary64) :
    ofJson (.ofBinary64 x) = if x.isFinite then .number x else .null := by
  rw [Json.ofBinary64]
  split <;> simp_all [ofJson, Json.Number.toBinary64]

mutual

/-- A value comes back from its document but for the numbers that no document has. -/
theorem same_nulled : ∀ v : Variant, v.KeysOnce → Same (ofJson v.toJson) v.nulled
  | .null, _ => .null
  | .bool b, _ => .bool b
  | .string s, _ => .string s
  | .number x, _ => by
    rw [toJson, ofJson_ofBinary64, nulled]
    split
    · exact .number x
    · exact .null
  | .list items, hkeys => .list (same_nulledItems items hkeys)
  | .map entries, hkeys =>
    .map (ofMembers_toMembers_perm hkeys.1) (same_nulledEntries entries hkeys.2)

theorem same_nulledItems : ∀ items : List Variant, KeysOnceItems items →
    SameItems (ofItems (toItems items)) (nulledItems items)
  | [], _ => .nil
  | v :: rest, hkeys => .cons (same_nulled v hkeys.1) (same_nulledItems rest hkeys.2)

theorem same_nulledEntries : ∀ entries : List (String × Variant), KeysOnceEntries entries →
    SameEntries (entries.map fun e => (e.1, ofJson e.2.toJson)) (nulledEntries entries)
  | [], _ => .nil
  | (k, v) :: rest, hkeys => .cons k (same_nulled v hkeys.1) (same_nulledEntries rest hkeys.2)

end

/-- Entries are equal to those of a map if each is bound there to an equal value. -/
theorem eqEntries_iff {es fs : List (String × Variant)} :
    eqEntries es fs = true ↔ ∀ e ∈ es, ∃ w, findEntry e.1 fs = some w ∧ e.2.eq w = true := by
  induction es with
  | nil => simp [eqEntries]
  | cons e es ih =>
    obtain ⟨k, v⟩ := e
    rw [eqEntries, Bool.and_eq_true, ih, List.forall_mem_cons]
    refine and_congr_left fun _ => ?_
    cases findEntry k fs <;> simp

/-- A map comes back equal if each of its values does. -/
theorem eq_ofJson_toJson_map {entries : List (String × Variant)}
    (honce : (entries.map (·.1)).Nodup) :
    (ofJson (toJson (.map entries))).eq (.map entries) = true ↔
      ∀ e ∈ entries, (ofJson e.2.toJson).eq e.2 = true := by
  have hperm := ofMembers_toMembers_perm honce
  have hlength : (ofMembers (toMembers entries)).length = entries.length := by
    rw [hperm.length_eq, List.length_map]
  rw [toJson, ofJson, eq, hlength, beq_self_eq_true, Bool.true_and, eqEntries_iff]
  constructor
  · intro h e he
    obtain ⟨w, hw, heq⟩ := h (e.1, ofJson e.2.toJson)
      (hperm.mem_iff.mpr (List.mem_map.mpr ⟨e, he, rfl⟩))
    rw [findEntry_of_mem honce he] at hw
    rwa [← Option.some.inj hw] at heq
  · intro h e he
    obtain ⟨f, hf, rfl⟩ := List.mem_map.mp (hperm.mem_iff.mp he)
    exact ⟨f.2, findEntry_of_mem honce hf, h f hf⟩

mutual

/-- A value is equal to what comes back from its document only if its numbers are finite: null is
equal to no number. -/
theorem eq_ofJson_toJson : ∀ v : Variant, v.KeysOnce →
    ((ofJson v.toJson).eq v = true ↔ v.AllFinite)
  | .null, _ => by simp [toJson, ofJson, eq, AllFinite]
  | .bool _, _ => by simp [toJson, ofJson, eq, AllFinite]
  | .string _, _ => by simp [toJson, ofJson, eq, AllFinite]
  | .number x, _ => by
    rw [toJson, ofJson_ofBinary64, AllFinite]
    cases x <;> simp [Binary64.isFinite, eq, Binary64.eq]
  | .list items, hkeys => eqItems_ofItems_toItems items hkeys
  | .map entries, hkeys =>
    (eq_ofJson_toJson_map hkeys.1).trans (eq_ofJson_toJson_entries entries hkeys.2)

theorem eqItems_ofItems_toItems : ∀ items : List Variant, KeysOnceItems items →
    (eqItems (ofItems (toItems items)) items = true ↔ AllFiniteItems items)
  | [], _ => by simp [toItems, ofItems, eqItems, AllFiniteItems]
  | v :: rest, hkeys => by
    rw [toItems, ofItems, eqItems, Bool.and_eq_true, AllFiniteItems]
    exact and_congr (eq_ofJson_toJson v hkeys.1) (eqItems_ofItems_toItems rest hkeys.2)

theorem eq_ofJson_toJson_entries : ∀ entries : List (String × Variant), KeysOnceEntries entries →
    ((∀ e ∈ entries, (ofJson e.2.toJson).eq e.2 = true) ↔ AllFiniteEntries entries)
  | [], _ => by simp [AllFiniteEntries]
  | (k, v) :: rest, hkeys => by
    rw [List.forall_mem_cons, AllFiniteEntries]
    exact and_congr (eq_ofJson_toJson v hkeys.1) (eq_ofJson_toJson_entries rest hkeys.2)

end

mutual

/-- A document comes back from its value with its numbers rounded. -/
theorem toJson_ofJson : ∀ j : Json, j.Canonical → (ofJson j).toJson = j.rounded
  | .null, _ => rfl
  | .bool _, _ => rfl
  | .string _, _ => rfl
  | .number n, _ => by rw [ofJson, toJson, Json.ofBinary64, dif_pos n.isFinite_toBinary64,
      Json.rounded]
  | .array items, h => congrArg Json.array (toItems_ofItems items h)
  | .object members, h => congrArg Json.object (toMembers_ofMembers members h.1 h.2)

theorem toItems_ofItems : ∀ items : List Json, Json.CanonicalItems items →
    toItems (ofItems items) = Json.roundedItems items
  | [], _ => rfl
  | j :: rest, h => congrArg₂ List.cons (toJson_ofJson j h.1) (toItems_ofItems rest h.2)

theorem toMembers_ofMembers : ∀ members : List (String × Json), Ordered members →
    Json.CanonicalMembers members → toMembers (ofMembers members) = Json.roundedMembers members
  | [], _, _ => rfl
  | (k, j) :: rest, hordered, h => by
    obtain ⟨hfirst, hrest⟩ := List.pairwise_cons.mp (ordered_iff_keys.mp hordered)
    rw [ofMembers, toMembers, toJson_ofJson j h.1,
      toMembers_ofMembers rest (ordered_iff_keys.mpr hrest) h.2, insertEntry_of_lt,
      Json.roundedMembers]
    rwa [Json.keys_roundedMembers]

end

/-- Conversion to a document and back is the identity on values of finite numbers and on no others,
where it puts null for the numbers that are not finite. Conversion of a document to a value and back
rounds its numbers, does nothing else, and nothing more the second time. -/
theorem conversions_inverse_on_finite :
    (∀ v : Variant, v.KeysOnce → Same (ofJson v.toJson) v.nulled ∧
      ((ofJson v.toJson).eq v = true ↔ v.AllFinite)) ∧
    ∀ j : Json, j.Canonical → (ofJson j).toJson = j.rounded ∧
      (ofJson (ofJson j).toJson).toJson = (ofJson j).toJson := by
  refine ⟨fun v hkeys => ⟨same_nulled v hkeys, eq_ofJson_toJson v hkeys⟩, fun j hj => ?_⟩
  have hback := toJson_ofJson j hj
  refine ⟨hback, ?_⟩
  rw [hback, toJson_ofJson _ (Json.canonical_rounded j hj), Json.rounded_rounded]

/-- A map out of the order of its keys with numbers that are none and an infinite one below it, and
an object with a whole number that is rounded. -/
theorem conversions_inverse_mixed :
    let v : Variant := .map [("b", .list [.number .nan, .map [("x", .number (.infinite true))]]),
      ("a", .number (.ofNat 3))]
    let j : Json := .object [("a", .number (.integer 0x20000000000001 (by decide))),
      ("b", .array [.null, .object []])]
    (v.KeysOnce ∧ Same (ofJson v.toJson) v.nulled ∧
      ((ofJson v.toJson).eq v = true ↔ v.AllFinite)) ∧
    (j.Canonical ∧ (ofJson j).toJson = j.rounded ∧
      (ofJson (ofJson j).toJson).toJson = (ofJson j).toJson) := by
  intro v j
  have hkeys : v.KeysOnce := by simp [v, KeysOnce, KeysOnceEntries, KeysOnceItems]
  have hkey : ("a" : String) < "b" := by decide
  have hordered : j.Canonical := by
    simp only [j, Json.Canonical, Json.CanonicalMembers, Json.CanonicalItems, Ordered,
      List.pairwise_cons, List.forall_mem_cons, List.not_mem_nil, hkey]
    simp
  exact ⟨⟨hkeys, conversions_inverse_on_finite.1 v hkeys⟩,
    hordered, conversions_inverse_on_finite.2 j hordered⟩

end Variant

end Uplink

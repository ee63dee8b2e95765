/-! Maps from text keys to values, kept as pairs in the order of their keys. `insertEntry` is the
operation on the pairs, which values with maps inside them use directly; `KeyMap` adds the order as
part of the type, so that equal maps are equal values. -/

namespace Uplink

/-- The pairs with `key` bound to `value`: in place if it is bound, else before the first larger
key. -/
def insertEntry {α : Type u} (key : String) (value : α) : List (String × α) → List (String × α)
  | [] => [(key, value)]
  | (k, v) :: rest =>
    if key = k then (key, value) :: rest
    else if key < k then (key, value) :: (k, v) :: rest
    else (k, v) :: insertEntry key value rest

/-- The value bound to `key` in a list of pairs. -/
def findEntry {α : Type u} (key : String) : List (String × α) → Option α
  | [] => none
  | (k, v) :: rest => if key = k then some v else findEntry key rest

/-- Keys strictly increase along the pairs. -/
def Ordered {α : Type u} (entries : List (String × α)) : Prop :=
  entries.Pairwise fun a b => a.1 < b.1

theorem mem_keys_insertEntry {α : Type u} {key : String} {value : α}
    {entries : List (String × α)} {e : String × α} (h : e ∈ insertEntry key value entries) :
    e.1 = key ∨ e ∈ entries := by
  induction entries with
  | nil => simp only [insertEntry, List.mem_singleton] at h; exact .inl (congrArg Prod.fst h)
  | cons p rest ih =>
    obtain ⟨k, v⟩ := p
    simp only [insertEntry] at h
    split at h
    · rcases List.mem_cons.mp h with rfl | h
      · exact .inl rfl
      · exact .inr (List.mem_cons_of_mem _ h)
    · split at h
      · rcases List.mem_cons.mp h with rfl | h
        · exact .inl rfl
        · exact .inr h
      · rcases List.mem_cons.mp h with rfl | h
        · exact .inr List.mem_cons_self
        · exact (ih h).imp id (List.mem_cons_of_mem _)

theorem key_lt_of_not_lt {key k : String} (hne : key ≠ k) (hlt : ¬ key < k) : k < key := by
  rcases Std.lt_trichotomy key k with h | h | h
  · exact absurd h hlt
  · exact absurd h hne
  · exact h

theorem Ordered.insertEntry {α : Type u} {key : String} {value : α}
    {entries : List (String × α)} (h : Ordered entries) :
    Ordered (insertEntry key value entries) := by
  induction entries with
  | nil => exact List.pairwise_singleton _ _
  | cons p rest ih =>
    obtain ⟨k, v⟩ := p
    obtain ⟨hhead, htail⟩ := List.pairwise_cons.mp h
    simp only [Uplink.insertEntry]
    split
    · next he => subst he; exact List.pairwise_cons.mpr ⟨hhead, htail⟩
    · next hne =>
      split
      · next hlt =>
        refine List.pairwise_cons.mpr ⟨?_, h⟩
        intro e he
        rcases List.mem_cons.mp he with rfl | he
        · exact hlt
        · exact String.lt_trans hlt (hhead e he)
      · next hlt =>
        refine List.pairwise_cons.mpr ⟨?_, ih htail⟩
        intro e he
        rcases mem_keys_insertEntry he with he | he
        · rw [he]; exact key_lt_of_not_lt hne hlt
        · exact hhead e he

theorem Ordered.filter {α : Type u} {p : String × α → Bool} {entries : List (String × α)}
    (h : Ordered entries) : Ordered (entries.filter p) :=
  List.Pairwise.filter p h

theorem findEntry_insertEntry {α : Type u} (key k : String) (value : α)
    (entries : List (String × α)) :
    findEntry k (insertEntry key value entries) = if k = key then some value
      else findEntry k entries := by
  induction entries with
  | nil => simp [insertEntry, findEntry]
  | cons p rest ih =>
    obtain ⟨k', v⟩ := p
    simp only [insertEntry]
    split
    · next he => subst he; simp only [findEntry]; split <;> rfl
    · split
      · simp only [findEntry]
      · next hne _ =>
        simp only [findEntry, ih]
        by_cases h1 : k = k'
        · have : k ≠ key := fun h => hne (h ▸ h1)
          simp [h1, Ne.symm hne]
        · simp [h1]

theorem findEntry_filter_ne {α : Type u} (key k : String) (entries : List (String × α)) :
    findEntry k (entries.filter (·.1 != key)) = if k = key then none else findEntry k entries := by
  induction entries with
  | nil => simp [findEntry]
  | cons p rest ih =>
    obtain ⟨k', v⟩ := p
    by_cases h : k' = key
    · subst h
      simp only [List.filter_cons, bne_self_eq_false, Bool.false_eq_true, ↓reduceIte, findEntry]
      rw [ih]
      by_cases h1 : k = k' <;> simp [h1]
    · have hk : (k' != key) = true := by simpa using h
      simp only [List.filter_cons, hk, ↓reduceIte, findEntry]
      rw [ih]
      by_cases h1 : k = k'
      · simp [h1, h]
      · simp [h1]

theorem findEntry_eq_some_iff {α : Type u} {key : String} {value : α}
    {entries : List (String × α)} (h : Ordered entries) :
    findEntry key entries = some value ↔ (key, value) ∈ entries := by
  induction entries with
  | nil => simp [findEntry]
  | cons p rest ih =>
    obtain ⟨k, v⟩ := p
    obtain ⟨hhead, htail⟩ := List.pairwise_cons.mp h
    rw [findEntry, List.mem_cons, Prod.mk.injEq]
    split
    · next hk =>
      -- The key stands at the head only: all keys after it are larger.
      subst hk
      have hnot : (key, value) ∉ rest := fun hmem => String.lt_irrefl key (hhead _ hmem)
      simp [hnot, eq_comm]
    · next hk => simp [hk, ih htail]

/-- A key that is not bound yet is added to the pairs. -/
theorem insertEntry_perm {α : Type u} {key : String} {value : α} {entries : List (String × α)}
    (h : key ∉ entries.map (·.1)) :
    (insertEntry key value entries).Perm ((key, value) :: entries) := by
  induction entries with
  | nil => exact .refl _
  | cons p rest ih =>
    obtain ⟨k, v⟩ := p
    obtain ⟨hne, hrest⟩ : key ≠ k ∧ key ∉ rest.map (·.1) :=
      not_or.mp fun hmem => h (List.mem_cons.mpr hmem)
    simp only [insertEntry, if_neg hne]
    split
    · exact .refl _
    · exact ((ih hrest).cons _).trans (.swap _ _ _)

structure KeyMap (α : Type u) where
  entries : List (String × α)
  ordered : Ordered entries
deriving DecidableEq

namespace KeyMap

variable {α : Type u}

def empty : KeyMap α := ⟨[], List.Pairwise.nil⟩

instance : EmptyCollection (KeyMap α) := ⟨empty⟩
instance : Inhabited (KeyMap α) := ⟨∅⟩

def get? (m : KeyMap α) (key : String) : Option α := findEntry key m.entries

def insert (m : KeyMap α) (key : String) (value : α) : KeyMap α :=
  ⟨insertEntry key value m.entries, m.ordered.insertEntry⟩

/-- The map without `key`. -/
def erase (m : KeyMap α) (key : String) : KeyMap α :=
  ⟨m.entries.filter (·.1 != key), m.ordered.filter⟩

def keys (m : KeyMap α) : List String := m.entries.map (·.1)

def size (m : KeyMap α) : Nat := m.entries.length

/-- The map that binds each pair in turn, so that a later pair wins. -/
def ofList (pairs : List (String × α)) : KeyMap α :=
  pairs.foldl (fun m p => m.insert p.1 p.2) ∅

@[simp] theorem get?_empty (key : String) : (∅ : KeyMap α).get? key = none := rfl

theorem get?_insert (m : KeyMap α) (key k : String) (value : α) :
    (m.insert key value).get? k = if k = key then some value else m.get? k :=
  findEntry_insertEntry key k value m.entries

/-- Of the pairs with a key that are bound in turn, the last counts. -/
theorem get?_foldl_insert (m : KeyMap α) (pairs : List (String × α)) (key : String) :
    (pairs.foldl (fun m p => m.insert p.1 p.2) m).get? key =
      ((pairs.reverse.find? (·.1 == key)).map (·.2)).or (m.get? key) := by
  induction pairs generalizing m with
  | nil => rfl
  | cons p pairs ih =>
    rw [List.foldl_cons, ih, get?_insert, List.reverse_cons, List.find?_append, Option.map_or,
      Option.or_assoc]
    congr 1
    by_cases hkey : key = p.1
    · simp [hkey]
    · simp [hkey, Ne.symm hkey]

theorem get?_ofList (pairs : List (String × α)) (key : String) :
    (ofList pairs).get? key = (pairs.reverse.find? (·.1 == key)).map (·.2) := by
  rw [ofList, get?_foldl_insert, get?_empty, Option.or_none]

theorem get?_erase (m : KeyMap α) (key k : String) :
    (m.erase key).get? k = if k = key then none else m.get? k :=
  findEntry_filter_ne key k m.entries

theorem get?_eq_some_iff {m : KeyMap α} {key : String} {value : α} :
    m.get? key = some value ↔ (key, value) ∈ m.entries :=
  findEntry_eq_some_iff m.ordered

theorem nodup_entries (m : KeyMap α) : m.entries.Nodup :=
  m.ordered.imp (S := (· ≠ ·)) fun {_ b} hlt heq => String.lt_irrefl b.1 (heq ▸ hlt)

/-- Pairs that bind each key once are all in the map. -/
theorem foldl_insert_perm (m : KeyMap α) (pairs : List (String × α))
    (h : ((pairs ++ m.entries).map (·.1)).Nodup) :
    (pairs.foldl (fun m p => m.insert p.1 p.2) m).entries.Perm (pairs ++ m.entries) := by
  induction pairs generalizing m with
  | nil => exact .refl _
  | cons p pairs ih =>
    have hnew : p.1 ∉ m.entries.map (·.1) := by
      rw [List.cons_append, List.map_cons, List.nodup_cons, List.map_append] at h
      exact fun hmem => h.1 (List.mem_append_right _ hmem)
    have hperm : (pairs ++ (m.insert p.1 p.2).entries).Perm (p :: pairs ++ m.entries) :=
      ((insertEntry_perm hnew).append_left pairs).trans List.perm_middle
    exact (ih _ ((hperm.map _).nodup_iff.mpr h)).trans hperm

theorem ofList_perm {pairs : List (String × α)} (h : (pairs.map (·.1)).Nodup) :
    (ofList pairs).entries.Perm pairs := by
  have hperm := foldl_insert_perm ∅ pairs (by rwa [show (∅ : KeyMap α).entries = [] from rfl,
    List.append_nil])
  rwa [show (∅ : KeyMap α).entries = [] from rfl, List.append_nil] at hperm

/-- Maps that bind each key to the same are equal. -/
theorem ext_get? {m m' : KeyMap α} (h : ∀ key, m.get? key = m'.get? key) : m = m' := by
  have hperm : m.entries.Perm m'.entries := by
    rw [List.perm_ext_iff_of_nodup m.nodup_entries m'.nodup_entries]
    intro e
    rw [← get?_eq_some_iff, ← get?_eq_some_iff, h]
  have hentries := hperm.eq_of_pairwise
    (fun a b _ _ hab hba => absurd (String.lt_trans hab hba) (String.lt_irrefl a.1))
    m.ordered m'.ordered
  obtain ⟨entries, ordered⟩ := m
  cases hentries
  rfl

/-- Nothing is lost with a key that is not there. -/
theorem erase_eq_self {m : KeyMap α} {key : String} (h : m.get? key = none) : m.erase key = m := by
  refine ext_get? fun k => ?_
  rw [get?_erase]
  split
  · next hk => rw [hk, h]
  · rfl

theorem insert_erase_self (m : KeyMap α) (key : String) (value : α) :
    (m.erase key).insert key value = m.insert key value := by
  refine ext_get? fun k => ?_
  rw [get?_insert, get?_insert, get?_erase]
  split <;> rfl

end KeyMap

end Uplink

import Uplink.Toml

/-! The tables of a document while it is read. A table remembers whether it was only implied by a
longer path and whether dotted keys made it, since a header may complete an implied table once, and
dotted keys may extend only tables that dotted keys made. -/

namespace Uplink.Toml

inductive Node where
  | value (content : Toml)
  /-- The tables of repeated headers in double brackets. -/
  | tables (items : List (List (String × Node)))
  | table (implied dotted : Bool) (entries : List (String × Node))

/-- The entries of a table while it is read. -/
abbrev Entries := List (String × Node)

namespace Node

mutual

def toToml : Node → Toml
  | .value content => content
  | .tables items => .array (toArray items)
  | .table _ _ entries => .table (toEntries entries)

def toArray : List Entries → List Toml
  | [] => []
  | entries :: rest => .table (toEntries entries) :: toArray rest

def toEntries : Entries → List (String × Toml)
  | [] => []
  | (k, n) :: rest => (k, n.toToml) :: toEntries rest

end

end Node

/-- Changes the entries at a path by `change`, which is told whether dotted keys made their table.
Tables missing on the way are implied, by dotted keys if `dotted`; the way leads through the last of
repeated tables; dotted keys do not lead into a table that is not implied. -/
def Entries.edit (dotted : Bool) (change : Bool → Entries → Option Entries) :
    List String → Bool → Entries → Option Entries
  | [], made, entries => change made entries
  | key :: path, _, entries =>
    match findEntry key entries with
    | none => (edit dotted change path dotted []).map fun inner =>
        insertEntry key (.table true dotted inner) entries
    | some (.value _) => none
    | some (.tables items) =>
      match items.getLast? with
      | none => none
      | some last => (edit dotted change path false last).map fun inner =>
          insertEntry key (.tables (items.dropLast ++ [inner])) entries
    | some (.table implied made inner) =>
      if dotted ∧ !implied then none
      else (edit dotted change path made inner).map fun inner =>
        insertEntry key (.table implied made inner) entries

/-- Binds a dotted key to a value. The key must be new, and its table must be one that dotted keys
made, unless the key has one part. -/
def Entries.bind (path : List String) (key : String) (content : Toml) (made : Bool)
    (entries : Entries) : Option Entries :=
  Entries.edit true (fun made entries =>
    if made = path.isEmpty then none
    else match findEntry key entries with
      | some _ => none
      | none => some (insertEntry key (.value content) entries)) path made entries

/-- Binds a dotted key inside the table of a header. -/
def Entries.bindUnder (header path : List String) (key : String) (content : Toml)
    (entries : Entries) : Option Entries :=
  Entries.edit false (Entries.bind path key content) header false entries

/-- Opens the table of a header: new, or implied by longer headers and not opened yet. -/
def Entries.openTable (path : List String) (key : String) (entries : Entries) : Option Entries :=
  Entries.edit false (fun _ entries =>
    match findEntry key entries with
    | none => some (insertEntry key (.table false false []) entries)
    | some (.table true false inner) => some (insertEntry key (.table false false inner) entries)
    | some _ => none) path false entries

/-- Opens one more table of a header in double brackets. -/
def Entries.appendTable (path : List String) (key : String) (entries : Entries) : Option Entries :=
  Entries.edit false (fun _ entries =>
    match findEntry key entries with
    | none => some (insertEntry key (.tables [[]]) entries)
    | some (.tables items) => some (insertEntry key (.tables (items ++ [[]])) entries)
    | some _ => none) path false entries

end Uplink.Toml

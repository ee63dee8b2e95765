import Uplink.Toml.Number
import Uplink.Toml.Tree

/-! Reading TOML documents: `parse?` gives the table a text describes, if it is a document as a
whole. -/

namespace Uplink.Toml

/-- The words for truth values. -/
def word? : List Char → Option (Toml × List Char)
  | 't' :: 'r' :: 'u' :: 'e' :: cs => some (.boolean true, cs)
  | 'f' :: 'a' :: 'l' :: 's' :: 'e' :: cs => some (.boolean false, cs)
  | _ => none

/-- A path of keys as its last key and those before it. -/
def splitPath : List String → List String × String
  | [] => ([], "")
  | [key] => ([], key)
  | key :: rest => let (path, last) := splitPath rest; (key :: path, last)

mutual

/-- The value in front of a text, where `depth` more arrays and inline tables may be opened. -/
def value? : Nat → Nat → List Char → Option (Toml × List Char)
  | 0, _, _ => none
  | fuel + 1, depth, cs =>
    match cs with
    | [] => none
    | c :: rest =>
      if c = '"' ∨ c = '\'' then (string? cs).map fun (s, cs) => (.string s, cs)
      else if c = '[' then
        match depth with
        | 0 => none
        | depth + 1 =>
          match skipLines (rest.length + 1) rest with
          | ']' :: cs => some (.array [], cs)
          | cs => items? fuel depth [] cs
      else if c = '\x7b' then
        match depth with
        | 0 => none
        | depth + 1 =>
          match skipBlanks rest with
          | '\x7d' :: cs => some (.table [], cs)
          | cs => members? fuel depth [] cs
      else if c = '+' ∨ c = '-' ∨ c.isDigit then scalar? cs
      else (word? cs).orElse fun _ => (specialFloat? cs).map fun (x, cs) => (.float x, cs)

/-- The items of an array after those of `read` (latest first), up to its closing bracket. Blanks,
line ends, comments and one comma after the last item are skipped. -/
def items? : Nat → Nat → List Toml → List Char → Option (Toml × List Char)
  | 0, _, _, _ => none
  | fuel + 1, depth, read, cs =>
    match value? fuel depth cs with
    | none => none
    | some (item, cs) =>
      match skipLines (cs.length + 1) cs with
      | ']' :: cs => some (.array (item :: read).reverse, cs)
      | ',' :: cs =>
        match skipLines (cs.length + 1) cs with
        | ']' :: cs => some (.array (item :: read).reverse, cs)
        | cs => items? fuel depth (item :: read) cs
      | _ => none

/-- The members of an inline table after those of `read`, up to its closing brace. -/
def members? : Nat → Nat → Entries → List Char → Option (Toml × List Char)
  | 0, _, _, _ => none
  | fuel + 1, depth, read, cs =>
    match path? cs with
    | some (keys, '=' :: cs) =>
      match value? fuel depth (skipBlanks cs) with
      | none => none
      | some (content, cs) =>
        let (path, key) := splitPath keys
        match Entries.bind path key content false read with
        | none => none
        | some read =>
          match skipBlanks cs with
          | ',' :: cs => members? fuel depth read cs
          | '\x7d' :: cs => some ((Node.table false false read).toToml, cs)
          | _ => none
    | _ => none

end

/-- A document while it is read: its tables so far, and the header whose table is open. -/
structure Draft where
  entries : Entries
  header : List String

/-- Reads a line that binds a key. -/
def Draft.binding? (d : Draft) (cs : List Char) : Option (Draft × List Char) := do
  match path? cs with
  | some (keys, '=' :: cs) =>
    let cs := skipBlanks cs
    let (content, cs) ← value? (2 * cs.length + 2) (depthLimit - 1) cs
    let cs ← lineRest? cs
    let (path, key) := splitPath keys
    let entries ← Entries.bindUnder d.header path key content d.entries
    some (⟨entries, d.header⟩, cs)
  | _ => none

/-- Reads a header line, after its first bracket. -/
def Draft.header? (d : Draft) (cs : List Char) : Option (Draft × List Char) :=
  match cs with
  | '[' :: cs =>
    match path? cs with
    | some (keys, ']' :: ']' :: cs) => do
      let cs ← lineRest? cs
      let (path, key) := splitPath keys
      some (⟨← Entries.appendTable path key d.entries, keys⟩, cs)
    | _ => none
  | _ =>
    match path? cs with
    | some (keys, ']' :: cs) => do
      let cs ← lineRest? cs
      let (path, key) := splitPath keys
      some (⟨← Entries.openTable path key d.entries, keys⟩, cs)
    | _ => none

/-- Reads the lines that follow, each of which consumes a character. -/
def Draft.lines? : Nat → Draft → List Char → Option Draft
  | 0, _, _ => none
  | fuel + 1, d, cs =>
    match skipLines (cs.length + 1) cs with
    | [] => some d
    | '[' :: cs =>
      match d.header? cs with
      | some (d, cs) => lines? fuel d cs
      | none => none
    | cs =>
      match d.binding? cs with
      | some (d, cs) => lines? fuel d cs
      | none => none

/-- The table of a document. A byte order mark in front is skipped. -/
def parse? (text : String) : Option Toml :=
  let cs := match text.toList with
    | '\ufeff' :: cs => cs
    | cs => cs
  (Draft.lines? (cs.length + 1) ⟨[], []⟩ cs).map fun d => (Node.table false false d.entries).toToml

end Uplink.Toml

import Uplink.Json.Number

/-! Reading JSON documents: `parse?` accepts a text that is one document as a whole, with
at most 127 arrays and objects around any value. Of members with the same key the last wins. -/

namespace Uplink.Json

/-- The most arrays and objects a value may lie in. -/
def nestingLimit : Nat := 127

def isSpace (c : Char) : Bool := c = ' ' || c = '\t' || c = '\n' || c = '\r'

def skipSpace : List Char → List Char
  | c :: cs => if isSpace c then skipSpace cs else c :: cs
  | [] => []

/-- The value of a hexadecimal digit. -/
def hexDigit? (c : Char) : Option Nat :=
  if c.isDigit then some (c.toNat - 48)
  else if 'a' ≤ c ∧ c ≤ 'f' then some (c.toNat - 87)
  else if 'A' ≤ c ∧ c ≤ 'F' then some (c.toNat - 55)
  else none

/-- The code unit written by four hexadecimal digits. -/
def hexUnit? : List Char → Option (Nat × List Char)
  | a :: b :: c :: d :: cs => do
    let a ← hexDigit? a
    let b ← hexDigit? b
    let c ← hexDigit? c
    let d ← hexDigit? d
    some (((a * 16 + b) * 16 + c) * 16 + d, cs)
  | _ => none

/-- The character of a `\u` escape, after the `u`: one code unit, or a pair of surrogates. -/
def unicodeEscape? (cs : List Char) : Option (Char × List Char) := do
  let (high, cs) ← hexUnit? cs
  if high < 0xd800 ∨ 0xdfff < high then some (Char.ofNat high, cs)
  else if 0xdc00 ≤ high then none
  else match cs with
    | '\\' :: 'u' :: cs => do
      let (low, cs) ← hexUnit? cs
      if 0xdc00 ≤ low ∧ low ≤ 0xdfff then
        some (Char.ofNat (0x10000 + (high - 0xd800) * 0x400 + (low - 0xdc00)), cs)
      else none
    | _ => none

/-- The character of an escape, after the backslash. -/
def escape? : List Char → Option (Char × List Char)
  | '"' :: cs => some ('"', cs)
  | '\\' :: cs => some ('\\', cs)
  | '/' :: cs => some ('/', cs)
  | 'b' :: cs => some ('\x08', cs)
  | 'f' :: cs => some ('\x0c', cs)
  | 'n' :: cs => some ('\n', cs)
  | 'r' :: cs => some ('\r', cs)
  | 't' :: cs => some ('\t', cs)
  | 'u' :: cs => unicodeEscape? cs
  | _ => none

/-- The rest of a string after its opening quote: its characters after those of `read` (latest
first), and what follows the closing quote. Each step consumes a character, so that a fuel of the
length of the text is enough. -/
def stringBody? : Nat → List Char → List Char → Option (String × List Char)
  | 0, _, _ => none
  | fuel + 1, read, cs =>
    match cs with
    | [] => none
    | c :: cs =>
      if c = '"' then some (String.ofList read.reverse, cs)
      else if c = '\\' then
        match escape? cs with
        | some (e, cs) => stringBody? fuel (e :: read) cs
        | none => none
      else if c.toNat < 0x20 then none
      else stringBody? fuel (c :: read) cs

/-- The words of JSON and their values. -/
def word? : List Char → Option (Json × List Char)
  | 'n' :: 'u' :: 'l' :: 'l' :: cs => some (.null, cs)
  | 't' :: 'r' :: 'u' :: 'e' :: cs => some (.bool true, cs)
  | 'f' :: 'a' :: 'l' :: 's' :: 'e' :: cs => some (.bool false, cs)
  | _ => none

mutual

/-- The value in front of a text and what follows it, where `depth` more arrays and objects may be
opened. Of two calls in a row one consumes a character, so that a fuel beyond twice the length of
the text is enough. -/
def value? : Nat → Nat → List Char → Option (Json × List Char)
  | 0, _, _ => none
  | fuel + 1, depth, cs =>
    match skipSpace cs with
    | [] => none
    | c :: cs =>
      if c = '"' then
        (stringBody? cs.length [] cs).map fun (s, cs) => (.string s, cs)
      else if c = '[' then
        match depth with
        | 0 => none
        | depth + 1 =>
          match skipSpace cs with
          | ']' :: cs => some (.array [], cs)
          | cs => items? fuel depth [] cs
      else if c = '\x7b' then
        match depth with
        | 0 => none
        | depth + 1 =>
          match skipSpace cs with
          | '\x7d' :: cs => some (.object [], cs)
          | cs => members? fuel depth [] cs
      else if c = '-' ∨ c.isDigit then do
        let (text, cs) ← NumberText.take? (c :: cs)
        let n ← text.value?
        some (.number n, cs)
      else word? (c :: cs)

/-- The items of an array after those of `read` (latest first), up to its closing bracket. -/
def items? : Nat → Nat → List Json → List Char → Option (Json × List Char)
  | 0, _, _, _ => none
  | fuel + 1, depth, read, cs =>
    match value? fuel depth cs with
    | none => none
    | some (item, cs) =>
      match skipSpace cs with
      | ',' :: cs => items? fuel depth (item :: read) cs
      | ']' :: cs => some (.array (item :: read).reverse, cs)
      | _ => none

/-- The members of an object after those of `read`, up to its closing brace. -/
def members? : Nat → Nat → List (String × Json) → List Char → Option (Json × List Char)
  | 0, _, _, _ => none
  | fuel + 1, depth, read, cs =>
    match skipSpace cs with
    | '"' :: cs =>
      match stringBody? cs.length [] cs with
      | none => none
      | some (key, cs) =>
        match skipSpace cs with
        | ':' :: cs =>
          match value? fuel depth cs with
          | none => none
          | some (value, cs) =>
            match skipSpace cs with
            | ',' :: cs => members? fuel depth (insertEntry key value read) cs
            | '\x7d' :: cs => some (.object (insertEntry key value read), cs)
            | _ => none
        | _ => none
    | _ => none

end

/-- The document that a text is as a whole, spaces around it aside. -/
def ofChars? (cs : List Char) : Option Json :=
  match value? (2 * cs.length + 2) nestingLimit cs with
  | some (j, rest) => if skipSpace rest = [] then some j else none
  | none => none

def parse? (text : String) : Option Json := ofChars? text.toList

end Uplink.Json

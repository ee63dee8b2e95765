import Uplink.Text.Hidden
import Uplink.Url.Punycode

/-! Domain names in ASCII: letters become small, wide forms become plain, and a label with
characters beyond ASCII is written in Punycode behind its mark. -/

namespace Uplink.Url

/-- The small form of a letter, of a wide form of an ASCII character, and of a full stop; nothing
for a character that is left out. Letters with other small forms are kept as they are. -/
def foldChar? (c : Char) : Option Char :=
  let n := c.toNat
  if n < 0x80 then some c.toLower
  else if n = 0xad ∨ n = 0x200b ∨ n = 0x2060 ∨ n = 0xfeff ∨ (0xfe00 ≤ n ∧ n ≤ 0xfe0f) then none
  else if n = 0x3002 ∨ n = 0xff0e ∨ n = 0xff61 then some '.'
  else if 0xff01 ≤ n ∧ n ≤ 0xff5e then some (Char.ofNat (n - 0xfee0)).toLower
  else if 0xc0 ≤ n ∧ n ≤ 0xde ∧ n ≠ 0xd7 then some (Char.ofNat (n + 0x20))
  else if (0x100 ≤ n ∧ n ≤ 0x12f ∨ 0x14a ≤ n ∧ n ≤ 0x177) ∧ n % 2 = 0 then some (Char.ofNat (n + 1))
  else if (0x139 ≤ n ∧ n ≤ 0x148 ∨ 0x179 ≤ n ∧ n ≤ 0x17e) ∧ n % 2 = 1 then some (Char.ofNat (n + 1))
  else if 0x391 ≤ n ∧ n ≤ 0x3a9 then some (Char.ofNat (n + 0x20))
  else if 0x410 ≤ n ∧ n ≤ 0x42f then some (Char.ofNat (n + 0x20))
  else if 0x400 ≤ n ∧ n ≤ 0x40f then some (Char.ofNat (n + 0x50))
  else some c

/-- Whether a character may stand in no domain name: controls, the space and the delimiters of
URLs. -/
def isForbidden (c : Char) : Bool :=
  c.toNat ≤ 0x20 || c.toNat = 0x7f || "%#/:<>?@[\\]^|".toList.contains c

/-- The parts of a text between separators. -/
def splitAt (sep : Char) : List Char → List (List Char)
  | [] => [[]]
  | c :: cs =>
    if c = sep then [] :: splitAt sep cs
    else
      match splitAt sep cs with
      | [] => [[c]]
      | part :: parts => (c :: part) :: parts

/-- Whether a label beyond ASCII has visible characters only, the first of which stands alone. -/
def isLabel (label : List Char) : Bool :=
  label.all fun c => c.toNat < 0x80 || (!Text.isHidden c || isMark c) && foldChar? c = some c
where
  /-- Characters that extend the one before them and may stand inside a label. -/
  isMark (c : Char) : Bool :=
    label.head? ≠ some c &&
      (0x300 ≤ c.toNat && c.toNat ≤ 0x36f || 0x590 ≤ c.toNat && c.toNat < 0x1000)

/-- A label in ASCII; nothing if it is no label. A label with the mark of Punycode must stand for
one beyond ASCII. -/
def asciiLabel? (label : List Char) : Option (List Char) :=
  if label.all (·.toNat < 0x80) then
    match label with
    | 'x' :: 'n' :: '-' :: '-' :: rest => do
      let decoded ← Punycode.decode? rest
      if decoded.any (0x80 ≤ ·.toNat) && isLabel decoded then some label else none
    | _ => some label
  else if isLabel label then some ('x' :: 'n' :: '-' :: '-' :: Punycode.encode label)
  else none

/-- Labels joined by full stops. -/
def joinLabels : List (List Char) → List Char
  | [] => []
  | [label] => label
  | label :: labels => label ++ '.' :: joinLabels labels

/-- A domain name in ASCII; nothing if it is none. -/
def asciiDomain? (cs : List Char) : Option (List Char) := do
  let labels ← (splitAt '.' (cs.filterMap foldChar?)).mapM asciiLabel?
  let name := joinLabels labels
  if name.any isForbidden then none else some name

end Uplink.Url

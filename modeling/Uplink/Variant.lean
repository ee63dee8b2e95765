import Uplink.Json.Reader
import Uplink.Json.Writer
import Uplink.Text.Utf8

/-! The loosely typed values that cross the network. `decode` reads bytes as a JSON document and
keeps any other bytes as text; `toJson` and `chars` are the two ways back, through a document and
straight to its text. A map keeps its entries in some order, each key once; the order carries no
meaning, and `eq` does not look at it. -/

namespace Uplink

inductive Variant where
  | null
  | bool (value : Bool)
  | number (value : Binary64)
  | string (value : String)
  | list (items : List Variant)
  | map (entries : List (String × Variant))

namespace Variant

instance : Inhabited Variant := ⟨.null⟩

mutual

/-- The value of a document: every number becomes the nearest binary64 number. -/
def ofJson : Json → Variant
  | .null => .null
  | .bool b => .bool b
  | .number n => .number n.toBinary64
  | .string s => .string s
  | .array items => .list (ofItems items)
  | .object members => .map (ofMembers members)

def ofItems : List Json → List Variant
  | [] => []
  | j :: rest => ofJson j :: ofItems rest

def ofMembers : List (String × Json) → List (String × Variant)
  | [] => []
  | (k, j) :: rest => (k, ofJson j) :: ofMembers rest

end

mutual

/-- The document of a value: a number that is not finite becomes null, and entries are put in the
order of their keys. -/
def toJson : Variant → Json
  | .null => .null
  | .bool b => .bool b
  | .number x => .ofBinary64 x
  | .string s => .string s
  | .list items => .array (toItems items)
  | .map entries => .object (toMembers entries)

def toItems : List Variant → List Json
  | [] => []
  | v :: rest => v.toJson :: toItems rest

def toMembers : List (String × Variant) → List (String × Json)
  | [] => []
  | (k, v) :: rest => insertEntry k v.toJson (toMembers rest)

end

mutual

/-- The JSON text of a value, with entries in the order they are kept. -/
def chars : Variant → List Char
  | .null => ['n', 'u', 'l', 'l']
  | .bool true => ['t', 'r', 'u', 'e']
  | .bool false => ['f', 'a', 'l', 's', 'e']
  | .number x => if x.isFinite then x.text.toList else ['n', 'u', 'l', 'l']
  | .string s => Json.quote s
  | .list [] => ['[', ']']
  | .list (v :: rest) => '[' :: (v.chars ++ itemChars rest)
  | .map [] => ['\x7b', '\x7d']
  | .map ((k, v) :: rest) => '\x7b' :: (Json.quote k ++ ':' :: (v.chars ++ entryChars rest))

/-- The items after the first, and the closing bracket. -/
def itemChars : List Variant → List Char
  | [] => [']']
  | v :: rest => ',' :: (v.chars ++ itemChars rest)

/-- The entries after the first, and the closing brace. -/
def entryChars : List (String × Variant) → List Char
  | [] => ['\x7d']
  | (k, v) :: rest => ',' :: (Json.quote k ++ ':' :: (v.chars ++ entryChars rest))

end

def text (v : Variant) : String := String.ofList v.chars

/-- The value of bytes from the network: their document if they are one as a whole, else their
text. -/
def decode (bytes : List UInt8) : Variant :=
  match Text.Utf8.decode? bytes >>= Json.ofChars? with
  | some j => ofJson j
  | none => .string (String.ofList (Text.Utf8.lossy bytes))

mutual

/-- Equality of values: numbers as numbers, so that what is no number equals nothing, and maps as
maps. -/
def eq : Variant → Variant → Bool
  | .null, .null => true
  | .bool a, .bool b => a == b
  | .number x, .number y => x.eq y
  | .string s, .string t => s == t
  | .list xs, .list ys => eqItems xs ys
  | .map es, .map fs => es.length == fs.length && eqEntries es fs
  | _, _ => false

def eqItems : List Variant → List Variant → Bool
  | [], [] => true
  | x :: xs, y :: ys => x.eq y && eqItems xs ys
  | _, _ => false

/-- Whether every entry of the first list is found in the second with an equal value. -/
def eqEntries : List (String × Variant) → List (String × Variant) → Bool
  | [], _ => true
  | (k, v) :: rest, fs =>
    (match findEntry k fs with
     | some w => v.eq w
     | none => false) && eqEntries rest fs

end

/-- The value under a key of a map. -/
def get? (key : String) : Variant → Option Variant
  | .map entries => findEntry key entries
  | _ => none

/-- The map with the given entries, of which a later one wins. -/
def ofPairs (pairs : List (String × Variant)) : Variant := .map (KeyMap.ofList pairs).entries

end Variant

end Uplink

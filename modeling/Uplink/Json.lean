import Uplink.Binary64
import Uplink.KeyMap

/-! JSON documents as values. An object keeps its members in the order of their keys, each key once;
`Canonical` says so at every level. -/

namespace Uplink

/-- A JSON number is a 64-bit integer, with or without a sign, or any other finite number. -/
inductive Json.Number where
  | integer (value : Int) (inRange : -0x8000000000000000 ≤ value ∧ value < 0x10000000000000000)
  | real (value : Binary64) (isFinite : value.isFinite = true)
deriving DecidableEq

inductive Json where
  | null
  | bool (value : Bool)
  | number (value : Json.Number)
  | string (value : String)
  | array (items : List Json)
  | object (members : List (String × Json))

namespace Json

instance : Inhabited Json := ⟨.null⟩

/-- The number nearest to a JSON number. -/
def Number.toBinary64 : Number → Binary64
  | .integer i _ => .ofInt i
  | .real x _ => x

/-- A finite number as a JSON number, and `null` for any other. -/
def ofBinary64 (x : Binary64) : Json :=
  if h : x.isFinite = true then .number (.real x h) else .null

/-- A natural number below `2^64`; larger ones become real numbers. -/
def ofNat (n : Nat) : Json :=
  if h : (n : Int) < 0x10000000000000000 then .number (.integer n ⟨by omega, h⟩)
  else ofBinary64 (.ofNat n)

/-- The object with the given members, of which a later one wins. -/
def ofPairs (pairs : List (String × Json)) : Json :=
  .object (KeyMap.ofList pairs).entries

/-- The member of an object under a key. -/
def get? (key : String) : Json → Option Json
  | .object members => findEntry key members
  | _ => none

mutual

/-- Every object inside has its keys in order. -/
def Canonical : Json → Prop
  | .array items => CanonicalItems items
  | .object members => Ordered members ∧ CanonicalMembers members
  | _ => True

def CanonicalItems : List Json → Prop
  | [] => True
  | j :: rest => Canonical j ∧ CanonicalItems rest

def CanonicalMembers : List (String × Json) → Prop
  | [] => True
  | (_, j) :: rest => Canonical j ∧ CanonicalMembers rest

end

end Json

end Uplink

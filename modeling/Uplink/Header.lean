import Uplink.Text.Quoted

/-! Names and values of header fields, and when a pair of texts may be sent as a field. -/

namespace Uplink.Header

/-- Whether a character may stand in a name: letters, digits and some marks of ASCII. -/
def isTokenChar (c : Char) : Bool :=
  c.isAlphanum || "!#$%&'*+-.^_\x60|~".toList.contains c

/-- A name or method is a token: not empty, and of token characters. -/
def isToken (text : String) : Bool := text ≠ "" && text.toList.all isTokenChar

/-- The most characters of a name. -/
def nameLimit : Nat := 65535

def isName (text : String) : Bool := isToken text && text.length ≤ nameLimit

/-- A value has no controls other than the tab. -/
def isValue (text : String) : Bool :=
  text.toList.all fun c => c = '\t' || 0x20 ≤ c.toNat && c.toNat ≠ 0x7f

/-- Small letters of ASCII. Names that differ only in case are equal. -/
def lower (name : String) : String := name.map Char.toLower

/-- Why a pair of texts is no field, if it is none. -/
def problem? (name value : String) : Option String :=
  if !isName name then some ("header name " ++ Text.quoted name ++ ": invalid HTTP header name")
  else if !isValue value then some ("header " ++ name ++ ": failed to parse header value")
  else none

end Uplink.Header

import Uplink.Json.Reader
import Uplink.Proofs.Json.NumberText

/-! The grammar of JSON documents, as RFC 8259 has it: which texts are documents, and which document
each of them is. It says how every character, string, number and value may be written, and knows
nothing of a reader. -/

namespace Uplink.Json.Grammar

/-- Space, tab, line feed and carriage return are space. -/
def Spaces (cs : List Char) : Prop := ∀ c ∈ cs, c = ' ' ∨ c = '\t' ∨ c = '\n' ∨ c = '\r'

/-- A hexadecimal digit has small or large letters. -/
def HexDigit (c : Char) (n : Nat) : Prop := n < 16 ∧ c.toLower = Nat.digitChar n

/-- A code unit as four hexadecimal digits. -/
inductive HexUnit : List Char → Nat → Prop
  | mk {c₃ c₂ c₁ c₀ : Char} {n₃ n₂ n₁ n₀ : Nat} (h₃ : HexDigit c₃ n₃) (h₂ : HexDigit c₂ n₂)
      (h₁ : HexDigit c₁ n₁) (h₀ : HexDigit c₀ n₀) :
      HexUnit [c₃, c₂, c₁, c₀] (n₃ * 0x1000 + n₂ * 0x100 + n₁ * 0x10 + n₀)

/-- The characters with an escape of their own, each with the letter of it. -/
def shortEscapes : List (Char × Char) :=
  [('"', '"'), ('\\', '\\'), ('/', '/'), ('\x08', 'b'), ('\x0c', 'f'), ('\n', 'n'), ('\r', 'r'),
    ('\t', 't')]

/-- How a character may stand in a string: as itself, unless it is a control or means something
else there, by an escape of its own, by its code unit, or by its pair of surrogates. -/
inductive CharSpelled : Char → List Char → Prop
  | plain {c : Char} (hcontrol : 0x20 ≤ c.toNat) (hquote : c ≠ '"') (hbackslash : c ≠ '\\') :
      CharSpelled c [c]
  | short {c letter : Char} (h : (c, letter) ∈ shortEscapes) : CharSpelled c ['\\', letter]
  | unit {c : Char} {u : List Char} (h : HexUnit u c.toNat) : CharSpelled c ('\\' :: 'u' :: u)
  | pair {c : Char} {high low : List Char} (hc : 0x10000 ≤ c.toNat)
      (hhigh : HexUnit high (0xd800 + (c.toNat - 0x10000) / 0x400))
      (hlow : HexUnit low (0xdc00 + (c.toNat - 0x10000) % 0x400)) :
      CharSpelled c ('\\' :: 'u' :: (high ++ '\\' :: 'u' :: low))

/-- A string between its quotes is written character by character. -/
inductive TextSpelled : List Char → List Char → Prop
  | nil : TextSpelled [] []
  | cons {c : Char} {u cs us : List Char} : CharSpelled c u → TextSpelled cs us →
      TextSpelled (c :: cs) (u ++ us)

mutual

/-- A value in which up to `depth` arrays and objects lie in one another, without space around it.
Of members with the same key the last wins. -/
inductive Value : Nat → List Char → Json → Prop
  | null (depth : Nat) : Value depth ['n', 'u', 'l', 'l'] .null
  | isTrue (depth : Nat) : Value depth ['t', 'r', 'u', 'e'] (.bool true)
  | isFalse (depth : Nat) : Value depth ['f', 'a', 'l', 's', 'e'] (.bool false)
  | number (depth : Nat) {t : NumberText} {u : List Char} {n : Number} (ht : t.WellFormed)
      (hu : t.Spelled u) (hn : t.value? = some n) : Value depth u (.number n)
  | string (depth : Nat) {s : String} {u : List Char} (h : TextSpelled s.toList u) :
      Value depth ('"' :: (u ++ ['"'])) (.string s)
  | emptyArray (depth : Nat) {ws : List Char} (h : Spaces ws) :
      Value (depth + 1) ('[' :: (ws ++ [']'])) (.array [])
  | array {depth : Nat} {u : List Char} {items : List Json} (h : Items depth u items) :
      Value (depth + 1) ('[' :: (u ++ [']'])) (.array items)
  | emptyObject (depth : Nat) {ws : List Char} (h : Spaces ws) :
      Value (depth + 1) ('\x7b' :: (ws ++ ['\x7d'])) (.object [])
  | object {depth : Nat} {u : List Char} {members : List (String × Json)}
      (h : Members depth u members) :
      Value (depth + 1) ('\x7b' :: (u ++ ['\x7d'])) (.ofPairs members)

/-- A value with space around it. -/
inductive Element : Nat → List Char → Json → Prop
  | mk {depth : Nat} {a u b : List Char} {j : Json} (ha : Spaces a) (hu : Value depth u j)
      (hb : Spaces b) : Element depth (a ++ (u ++ b)) j

/-- Values with commas between them. -/
inductive Items : Nat → List Char → List Json → Prop
  | one {depth : Nat} {u : List Char} {j : Json} (h : Element depth u j) : Items depth u [j]
  | cons {depth : Nat} {u us : List Char} {j : Json} {items : List Json} (h : Element depth u j)
      (hs : Items depth us items) : Items depth (u ++ ',' :: us) (j :: items)

/-- A key, a colon and a value, with space around the key. -/
inductive Member : Nat → List Char → String × Json → Prop
  | mk {depth : Nat} {a u b v : List Char} {k : String} {j : Json} (ha : Spaces a)
      (hu : TextSpelled k.toList u) (hb : Spaces b) (hv : Element depth v j) :
      Member depth (a ++ '"' :: (u ++ '"' :: (b ++ ':' :: v))) (k, j)

/-- Members with commas between them. -/
inductive Members : Nat → List Char → List (String × Json) → Prop
  | one {depth : Nat} {u : List Char} {m : String × Json} (h : Member depth u m) :
      Members depth u [m]
  | cons {depth : Nat} {u us : List Char} {m : String × Json} {members : List (String × Json)}
      (h : Member depth u m) (hs : Members depth us members) :
      Members depth (u ++ ',' :: us) (m :: members)

end

/-- A text that is a document, and which one. -/
def Document (cs : List Char) (j : Json) : Prop := Element nestingLimit cs j

variable {depth : Nat} {u : List Char} {j : Json}

theorem spaces_nil : Spaces [] := nofun

/-- A value may stand without space around it. -/
theorem element_of_value (h : Value depth u j) : Element depth u j := by
  have helement := Element.mk spaces_nil h spaces_nil
  rwa [List.nil_append, List.append_nil] at helement

theorem document_of_value (h : Value nestingLimit u j) : Document u j := element_of_value h

end Uplink.Json.Grammar

import Uplink.Binary64.Shortest
import Uplink.Json

/-! Writing JSON documents: compact, or indented by two spaces. Members are written in the order
they are kept; a real number has its shortest digits. -/

namespace Uplink.Json

/-- Escapes what must be escaped: the quote, the backslash and the controls. -/
def escapeChar (c : Char) : List Char :=
  if c = '"' then ['\\', '"']
  else if c = '\\' then ['\\', '\\']
  else if c = '\x08' then ['\\', 'b']
  else if c = '\t' then ['\\', 't']
  else if c = '\n' then ['\\', 'n']
  else if c = '\x0c' then ['\\', 'f']
  else if c = '\r' then ['\\', 'r']
  else if c.toNat < 0x20 then
    ['\\', 'u', '0', '0', Nat.digitChar (c.toNat / 16), Nat.digitChar (c.toNat % 16)]
  else [c]

/-- A text as a JSON string. -/
def quote (s : String) : List Char := '"' :: s.toList.flatMap escapeChar ++ ['"']

def Number.chars : Number → List Char
  | .integer i _ => if i < 0 then '-' :: Nat.toDigits 10 i.natAbs else Nat.toDigits 10 i.natAbs
  | .real x _ => x.text.toList

mutual

/-- The document without spaces. -/
def chars : Json → List Char
  | .null => ['n', 'u', 'l', 'l']
  | .bool true => ['t', 'r', 'u', 'e']
  | .bool false => ['f', 'a', 'l', 's', 'e']
  | .number n => n.chars
  | .string s => quote s
  | .array [] => ['[', ']']
  | .array (j :: rest) => '[' :: (j.chars ++ itemChars rest)
  | .object [] => ['\x7b', '\x7d']
  | .object ((k, j) :: rest) => '\x7b' :: (quote k ++ ':' :: (j.chars ++ memberChars rest))

/-- The items after the first, and the closing bracket. -/
def itemChars : List Json → List Char
  | [] => [']']
  | j :: rest => ',' :: (j.chars ++ itemChars rest)

/-- The members after the first, and the closing brace. -/
def memberChars : List (String × Json) → List Char
  | [] => ['\x7d']
  | (k, j) :: rest => ',' :: (quote k ++ ':' :: (j.chars ++ memberChars rest))

end

def text (j : Json) : String := String.ofList j.chars

/-- The start of a new line at a depth. -/
def newLine (depth : Nat) : List Char := '\n' :: List.replicate (2 * depth) ' '

mutual

/-- The document with an item or member to a line; what is inside lies one step deeper. -/
def prettyChars (depth : Nat) : Json → List Char
  | .array (j :: rest) =>
    '[' :: (newLine (depth + 1) ++ (j.prettyChars (depth + 1) ++ prettyItems depth rest))
  | .object ((k, j) :: rest) =>
    '\x7b' :: (newLine (depth + 1) ++ (quote k ++ ':' :: ' ' ::
      (j.prettyChars (depth + 1) ++ prettyMembers depth rest)))
  | j => j.chars

def prettyItems (depth : Nat) : List Json → List Char
  | [] => newLine depth ++ [']']
  | j :: rest =>
    ',' :: (newLine (depth + 1) ++ (j.prettyChars (depth + 1) ++ prettyItems depth rest))

def prettyMembers (depth : Nat) : List (String × Json) → List Char
  | [] => newLine depth ++ ['\x7d']
  | (k, j) :: rest =>
    ',' :: (newLine (depth + 1) ++ (quote k ++ ':' :: ' ' ::
      (j.prettyChars (depth + 1) ++ prettyMembers depth rest)))

end

def pretty (j : Json) : String := String.ofList (j.prettyChars 0)

end Uplink.Json

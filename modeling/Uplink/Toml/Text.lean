import Uplink.Json.Reader

/-! The lexical pieces of TOML: blanks, line ends, comments, the four kinds of strings, and keys.
Each reader gives what it read and the text that follows. -/

namespace Uplink.Toml

def isBlank (c : Char) : Bool := c = ' ' || c = '\t'

def skipBlanks : List Char → List Char
  | c :: cs => if isBlank c then skipBlanks cs else c :: cs
  | [] => []

/-- The text after a line end: a line feed, which a carriage return may precede. -/
def lineEnd? : List Char → Option (List Char)
  | '\n' :: cs => some cs
  | '\r' :: '\n' :: cs => some cs
  | _ => none

/-- Controls other than the tab may stand in no comment and no string. -/
def isPlain (c : Char) : Bool := c = '\t' || (0x20 ≤ c.toNat && c.toNat ≠ 0x7f)

/-- The text after a comment, if one starts here. -/
def skipComment : List Char → List Char
  | '#' :: cs => cs.dropWhile isPlain
  | cs => cs

/-- The text after the rest of a line that holds nothing more but blanks and a comment. -/
def lineRest? (cs : List Char) : Option (List Char) :=
  match skipComment (skipBlanks cs) with
  | [] => some []
  | cs => lineEnd? cs

/-- The text after blanks, line ends and comments. -/
def skipLines : Nat → List Char → List Char
  | 0, cs => cs
  | fuel + 1, cs =>
    match skipBlanks cs with
    | '#' :: cs => skipLines fuel (cs.dropWhile isPlain)
    | cs =>
      match lineEnd? cs with
      | some cs => skipLines fuel cs
      | none => cs

/-- The code point written by `n` hexadecimal digits after those of value `acc`. -/
def codePoint? (acc : Nat) : Nat → List Char → Option (Char × List Char)
  | 0, cs => if h : acc.isValidChar then some (⟨acc.toUInt32, by
      rw [Nat.toUInt32, UInt32.isValidChar, UInt32.toNat_ofNat_of_lt' (by
        have := h; simp only [Nat.isValidChar] at this; simp only [UInt32.size]; omega)]
      exact h⟩, cs) else none
  | n + 1, c :: cs => do codePoint? (acc * 16 + (← Json.hexDigit? c)) n cs
  | _ + 1, [] => none

/-- The character of an escape, after the backslash. -/
def escape? : List Char → Option (Char × List Char)
  | 'b' :: cs => some ('\x08', cs)
  | 't' :: cs => some ('\t', cs)
  | 'n' :: cs => some ('\n', cs)
  | 'f' :: cs => some ('\x0c', cs)
  | 'r' :: cs => some ('\r', cs)
  | '"' :: cs => some ('"', cs)
  | '\\' :: cs => some ('\\', cs)
  | 'u' :: cs => codePoint? 0 4 cs
  | 'U' :: cs => codePoint? 0 8 cs
  | _ => none

/-- The rest of a string of one line after its opening quote. Inside double quotes escapes are
read. The characters read so far come latest first. -/
def lineString? (quote : Char) : Nat → List Char → List Char → Option (String × List Char)
  | 0, _, _ => none
  | _ + 1, _, [] => none
  | fuel + 1, read, c :: cs =>
    if c = quote then some (String.ofList read.reverse, cs)
    else if c = '\\' ∧ quote = '"' then
      match escape? cs with
      | some (e, cs) => lineString? quote fuel (e :: read) cs
      | none => none
    else if isPlain c then lineString? quote fuel (c :: read) cs
    else none

/-- The text after blanks and line ends. -/
def skipEmptyLines : Nat → List Char → List Char
  | 0, cs => cs
  | fuel + 1, cs =>
    let cs := skipBlanks cs
    match lineEnd? cs with
    | some cs => skipEmptyLines fuel cs
    | none => cs

/-- The text after a backslash at the end of a line: the line end and all blanks and line ends that
follow it. -/
def joinLines? (cs : List Char) : Option (List Char) :=
  (lineEnd? (skipBlanks cs)).map (skipEmptyLines cs.length)

/-- The rest of a string of several lines after its opening quotes. Up to two quotes may stand
before the closing three; a line end is read as a line feed. -/
def linesString? (quote : Char) : Nat → List Char → List Char → Option (String × List Char)
  | 0, _, _ => none
  | _ + 1, _, [] => none
  | fuel + 1, read, c :: cs =>
    if c = quote then
      match (c :: cs).takeWhile (· = quote), (c :: cs).dropWhile (· = quote) with
      | quotes, rest =>
        if quotes.length < 3 then linesString? quote fuel (quotes ++ read) rest
        else
          let extra := min (quotes.length - 3) 2
          some (String.ofList (read.reverse ++ List.replicate extra quote),
            List.replicate (quotes.length - 3 - extra) quote ++ rest)
    else if c = '\\' ∧ quote = '"' then
      match joinLines? cs with
      | some cs => linesString? quote fuel read cs
      | none =>
        match escape? cs with
        | some (e, cs) => linesString? quote fuel (e :: read) cs
        | none => none
    else if isPlain c then linesString? quote fuel (c :: read) cs
    else
      match lineEnd? (c :: cs) with
      | some cs => linesString? quote fuel ('\n' :: read) cs
      | none => none

/-- The string in front of a text. A line end right after three opening quotes is no part of it. -/
def string? : List Char → Option (String × List Char)
  | '"' :: '"' :: '"' :: cs => linesString? '"' (cs.length + 1) [] ((lineEnd? cs).getD cs)
  | '\'' :: '\'' :: '\'' :: cs => linesString? '\'' (cs.length + 1) [] ((lineEnd? cs).getD cs)
  | '"' :: cs => lineString? '"' (cs.length + 1) [] cs
  | '\'' :: cs => lineString? '\'' (cs.length + 1) [] cs
  | _ => none

/-- Whether a character may stand in a key without quotes. -/
def isKeyChar (c : Char) : Bool := c.isAlphanum || c = '-' || c = '_'

/-- A key: a word, or a string of one line. -/
def simpleKey? : List Char → Option (String × List Char)
  | '"' :: cs => lineString? '"' (cs.length + 1) [] cs
  | '\'' :: cs => lineString? '\'' (cs.length + 1) [] cs
  | cs =>
    match cs.takeWhile isKeyChar with
    | [] => none
    | word => some (String.ofList word, cs.dropWhile isKeyChar)

/-- The keys that follow one another, joined by points, with blanks around each. -/
def keyPath? : Nat → List Char → Option (List String × List Char)
  | 0, _ => none
  | fuel + 1, cs => do
    let (key, cs) ← simpleKey? (skipBlanks cs)
    match skipBlanks cs with
    | '.' :: cs =>
      match keyPath? fuel cs with
      | some (keys, cs) => some (key :: keys, cs)
      | none => none
    | cs => some ([key], cs)

/-- The most keys in a row, one more than allowed. -/
def depthLimit : Nat := 80

/-- The path of keys in front of a text: fewer than `depthLimit`. -/
def path? (cs : List Char) : Option (List String × List Char) := do
  let (keys, cs) ← keyPath? (cs.length + 1) cs
  if keys.length < depthLimit then some (keys, cs) else none

end Uplink.Toml

import Uplink.KeyMap
import Uplink.Text.Blank
import Uplink.Text.Utf8

/-! Files of variables, a name and a value around an equals sign to a line. Values may be quoted and
may run over lines inside quotes; outside of strong quotes they may name earlier variables. The
first line that is none of these ends the file. -/

namespace Uplink.Cli.EnvFile

/-- Where the end of a line is reached. -/
inductive LineState where
  | complete
  | blank
  | escaped
  | weak
  | weakEscaped
  | strong
  | strongEscaped
deriving DecidableEq

/-- The state after one character, unless a comment starts with it. -/
def LineState.next? (s : LineState) (c : Char) : Option LineState :=
  let opens : LineState :=
    if c = '\\' then .escaped
    else if c = '"' then .weak
    else if c = '\'' then .strong
    else .complete
  match s with
  | .blank => if c = '#' then none else some opens
  | .complete =>
    some (if Text.isBlank c && c ≠ '\n' && c ≠ '\r' then .blank else opens)
  | .escaped => some .complete
  | .weak => some (if c = '\\' then .weakEscaped else if c = '"' then .complete else .weak)
  | .weakEscaped => some .weak
  | .strong => some (if c = '\\' then .strongEscaped else if c = '\'' then .complete else .strong)
  | .strongEscaped => some .strong

/-- The state at the end of a line, or what precedes a comment in it. -/
def scanLine (s : LineState) (read : List Char) : List Char → LineState ⊕ List Char
  | [] => .inl s
  | c :: cs =>
    match s.next? c with
    | none => .inr read.reverse
    | some s => scanLine s (c :: read) cs

/-- A line without its line end. -/
def chomp (line : List Char) : List Char :=
  match line.reverse with
  | '\n' :: '\r' :: rest | '\n' :: rest => rest.reverse
  | _ => line

/-- Joins lines that a quoted value connects; an end inside of one gives nothing. -/
def joinLines (s : LineState) (before : List Char) : List (List Char) → List (Option (List Char))
  | [] => if s = .complete then [] else [none]
  | line :: rest =>
    let whole := before ++ line
    if (whole.dropWhile Text.isBlank).head? = some '#' then some [] :: joinLines .complete [] rest
    else
      match scanLine s [] line with
      | .inr front => some (before ++ front) :: joinLines .complete [] rest
      | .inl .complete => some (chomp whole) :: joinLines .complete [] rest
      | .inl s => joinLines s whole rest

/-- The name of a variable whose value is put in place, as far as it has been read. -/
inductive Reference where
  | none
  | plain (name : List Char)
  | braced (name : List Char)
deriving DecidableEq

structure ValueState where
  strong : Bool
  weak : Bool
  escaped : Bool
  /-- A blank has ended the value. -/
  ended : Bool
  reference : Reference
  output : List Char

/-- A value character by character: nothing if it is malformed. `look` gives the values of earlier
variables; `output` is reversed. -/
def readValue (look : String → String) (s : ValueState) : List Char → Option (List Char)
  | [] =>
    match s.reference with
    | .braced _ => none
    | .plain name =>
      if s.strong || s.weak then none
      else some (s.output.reverse ++ (look (String.ofList name.reverse)).toList)
    | .none => if s.strong || s.weak then none else some s.output.reverse
  | c :: cs =>
    let put (text : List Char) : List Char := text.reverse ++ s.output
    if s.ended then
      if c = ' ' ∨ c = '\t' then readValue look s cs
      else if c = '#' then readValue look s []
      else none
    else if s.escaped then
      if c = '\\' ∨ c = '\'' ∨ c = '"' ∨ c = '$' ∨ c = ' ' then
        readValue look { s with escaped := false, output := c :: s.output } cs
      else if c = 'n' then readValue look { s with escaped := false, output := '\n' :: s.output } cs
      else none
    else if s.strong then
      if c = '\'' then readValue look { s with strong := false } cs
      else readValue look { s with output := c :: s.output } cs
    else
      match s.reference with
      | .plain name =>
        if c.isAlphanum then readValue look { s with reference := .plain (c :: name) } cs
        else if c = '\x7b' ∧ name = [] then readValue look { s with reference := .braced [] } cs
        else
          let value := (look (String.ofList name.reverse)).toList
          if c = '$' then readValue look { s with reference := .plain [], output := put value } cs
          else readValue look { s with reference := .none, output := c :: put value } cs
      | .braced name =>
        if c = '\x7d' then
          let value := (look (String.ofList name.reverse)).toList
          readValue look { s with reference := .none, output := put value } cs
        else readValue look { s with reference := .braced (c :: name) } cs
      | .none =>
        if c = '$' then readValue look { s with reference := .plain [] } cs
        else if s.weak then
          if c = '"' then readValue look { s with weak := false } cs
          else if c = '\\' then readValue look { s with escaped := true } cs
          else readValue look { s with output := c :: s.output } cs
        else if c = '\'' then readValue look { s with strong := true } cs
        else if c = '"' then readValue look { s with weak := true } cs
        else if c = '\\' then readValue look { s with escaped := true } cs
        else if c = ' ' ∨ c = '\t' then readValue look { s with ended := true } cs
        else readValue look { s with output := c :: s.output } cs
termination_by cs => cs.length
decreasing_by all_goals simp_wf

/-- Whether a character may stand in a name. -/
def isNameChar (c : Char) : Bool := c.isAlphanum || c = '_' || c = '.'

/-- The name in front of a text, and what follows it behind blanks. -/
def readName? (cs : List Char) : Option (String × List Char) :=
  match cs with
  | c :: _ =>
    if c.isAlpha || c = '_' then
      some (String.ofList (cs.takeWhile isNameChar),
        (cs.dropWhile isNameChar).dropWhile Text.isBlank)
    else none
  | [] => none

/-- The name in front of an equals sign and what follows that; the word `export` may precede it. -/
def readAssignment? (cs : List Char) : Option (String × List Char) :=
  match readName? cs with
  | some (name, '=' :: rest) => some (name, rest)
  | some ("export", rest) =>
    match readName? rest with
    | some (name, '=' :: rest) => some (name, rest)
    | _ => none
  | _ => none

/-- A line as a variable and its value: `none` outside for a malformed line, inside for a line that
sets nothing. -/
def readLine (look : String → String) (line : List Char) : Option (Option (String × String)) :=
  let body := Text.trimChars line
  if body = [] ∨ body.head? = some '#' then some none
  else do
    let (name, rest) ← readAssignment? body
    let rest := rest.dropWhile Text.isBlank
    if rest = [] ∨ rest.head? = some '#' then some (some (name, ""))
    else
      let value ← readValue look ⟨false, false, false, false, .none, []⟩ rest
      some (some (name, String.ofList value))

/-- Sets the variables of lines that the environment does not have yet. -/
def loadLines (environment seen : KeyMap String) : List (Option (List Char)) → KeyMap String
  | [] | none :: _ => environment
  | some line :: rest =>
    let look (name : String) : String :=
      ((environment.get? name).orElse fun _ => seen.get? name).getD ""
    match readLine look line with
    | none => environment
    | some none => loadLines environment seen rest
    | some (some (name, value)) =>
      let extended :=
        if (environment.get? name).isSome then environment else environment.insert name value
      loadLines extended (seen.insert name value) rest

/-- The lines of a file up to the first that is no text. -/
def textLines (content : List UInt8) : List (List Char) :=
  let lines := content.splitBy fun b _ => b ≠ 0x0a
  ((lines.map Text.Utf8.decode?).takeWhile Option.isSome).filterMap id

/-- The environment with the variables of a file that it does not have yet. -/
def load (environment : KeyMap String) (content : List UInt8) : KeyMap String :=
  let lines := match textLines content with
    | ('\ufeff' :: cs) :: lines => if cs = [] then lines else cs :: lines
    | lines => lines
  loadLines environment ∅ (joinLines .complete [] lines)

end Uplink.Cli.EnvFile

/-! Options and operands of a command line. An option has a long name and may have a letter; its
value is the next argument, or is attached. Two hyphens alone end the options. -/

namespace Uplink.Cli

/-- Whether an option takes a value, and how often it may be given. -/
inductive Arity where
  | flag
  | once
  | many
deriving DecidableEq

structure Opt where
  name : String
  letter : Option Char
  arity : Arity
  /-- Whether a text is a value of the option. -/
  accepts : String → Bool := fun _ => true

/-- Why reading stops before its end. -/
inductive Stop where
  | misuse
  | help
  | version
deriving DecidableEq

/-- What has been read: options with their values, and operands. -/
structure Given where
  values : List (String × String)
  operands : List String
deriving DecidableEq

namespace Given

def nothing : Given := ⟨[], []⟩

/-- Every value of an option. -/
def valuesOf (g : Given) (name : String) : List String :=
  (g.values.filter (·.1 == name)).map (·.2)

def has (g : Given) (name : String) : Bool := g.values.any (·.1 == name)

/-- Adds an option, which must not be there already unless it may be given often. -/
def add (g : Given) (o : Opt) (value : String) : Except Stop Given :=
  if o.name = "help" then .error .help
  else if o.name = "version" then .error .version
  else if !o.accepts value || (o.arity ≠ .many && g.has o.name) then .error .misuse
  else .ok { g with values := g.values ++ [(o.name, value)] }

end Given

/-- Reads letters behind one hyphen. An option that still needs its value comes with the result. -/
def readLetters (options : List Opt) (g : Given) : List Char → Except Stop (Given × Option Opt)
  | [] => .ok (g, none)
  | c :: cs =>
    match options.find? (·.letter == some c) with
    | none => .error .misuse
    | some o =>
      if o.arity = .flag then do readLetters options (← g.add o "") cs
      else
        match cs with
        | [] => .ok (g, some o)
        | '=' :: value => do .ok (← g.add o (String.ofList value), none)
        | value => do .ok (← g.add o (String.ofList value), none)

/-- Reads a name behind two hyphens, with a value if one is attached. -/
def readName (options : List Opt) (g : Given) (cs : List Char) : Except Stop (Given × Option Opt) :=
  let name := String.ofList (cs.takeWhile (· ≠ '='))
  match options.find? (·.name == name), cs.dropWhile (· ≠ '=') with
  | none, _ => .error .misuse
  | some o, [] =>
    if o.arity = .flag then do .ok (← g.add o "", none) else .ok (g, some o)
  | some o, _ :: value =>
    if o.arity = .flag then .error .misuse
    else do .ok (← g.add o (String.ofList value), none)

/-- Arguments that are operands whatever they look like, up to a number of operands. -/
def readOperands (limit : Nat) (g : Given) (words : List String) : Except Stop Given :=
  if limit < g.operands.length + words.length then .error .misuse
  else .ok { g with operands := g.operands ++ words }

/-- Reads arguments up to the name of a command, if there are any; that name and what follows it
come with the result. -/
def readArguments (options : List Opt) (commands : List String) (limit : Nat) (g : Given)
    (waiting : Option Opt) : List String → Except Stop (Given × Option (String × List String))
  | [] => if waiting.isSome then .error .misuse else .ok (g, none)
  | word :: rest =>
    match word.toList, waiting with
    | '-' :: '-' :: _, some _ | '-' :: _ :: _, some _ => .error .misuse
    | ['-', '-'], none => do .ok (← readOperands limit g rest, none)
    | '-' :: '-' :: cs, none => do
      let (g, waiting) ← readName options g cs
      readArguments options commands limit g waiting rest
    | '-' :: c :: cs, none => do
      let (g, waiting) ← readLetters options g (c :: cs)
      readArguments options commands limit g waiting rest
    | _, some o => do readArguments options commands limit (← g.add o word) none rest
    | _, none =>
      if commands.contains word then .ok (g, some (word, rest))
      else do readArguments options commands limit (← readOperands limit g [word]) none rest

end Uplink.Cli

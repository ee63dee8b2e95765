import Uplink.Cli.Options

/-! What a command line asks for: a file of settings, and a request to issue or a stream to
print. -/

namespace Uplink.Cli

structure Fetch where
  url : String
  method : String := "GET"
  /-- Headers as they were given, a name and a value around a colon. -/
  headers : List String := []
  data : Option String := none
  rateLimitKey : Option String := none
  retry : Bool := true
deriving DecidableEq

structure Listen where
  address : String
  topic : String := "default"
  sends : List String := []
  /-- How many messages to print. -/
  count : Option Nat := none
deriving DecidableEq

inductive Command where
  | fetch (command : Fetch)
  | stream (command : Listen)
deriving DecidableEq

structure Invocation where
  config : String := "config.toml"
  command : Command
deriving DecidableEq

/-- A count: digits after an optional plus sign, for a number of 64 bits. -/
def count? (text : String) : Option Nat :=
  let digits := match text.toList with
    | '+' :: ds => ds
    | ds => ds
  if digits ≠ [] ∧ digits.all Char.isDigit then
    let n := digits.foldl (fun n c => 10 * n + (c.toNat - 48)) 0
    if n < 0x10000000000000000 then some n else none
  else none

/-- The options that may stand before and behind the name of a command. -/
def commonOptions : List Opt :=
  [⟨"config", some 'c', .once, (· ≠ "")⟩, ⟨"help", some 'h', .flag, fun _ => true⟩]

def mainOptions : List Opt := ⟨"version", some 'V', .flag, fun _ => true⟩ :: commonOptions

def fetchOptions : List Opt :=
  [{ name := "method", letter := some 'X', arity := .once },
    { name := "header", letter := some 'H', arity := .many },
    { name := "data", letter := some 'd', arity := .once },
    { name := "rate-limit-key", letter := none, arity := .once },
    { name := "no-retry", letter := none, arity := .flag }] ++ commonOptions

def streamOptions : List Opt :=
  [{ name := "topic", letter := some 't', arity := .once },
    { name := "send", letter := some 's', arity := .many },
    { name := "count", letter := some 'n', arity := .once,
      accepts := fun s => (count? s).isSome }] ++
    commonOptions

/-- The options and the single operand of a command. -/
def readCommand (options : List Opt) (words : List String) : Except Stop (Given × String) := do
  let (given, _) ← readArguments options [] 1 .nothing none words
  match given.operands with
  | [operand] => .ok (given, operand)
  | _ => .error .misuse

/-- Only the names of commands may follow a call for help. -/
def readHelp : List String → Except Stop Invocation
  | [] | ["fetch"] | ["stream"] | ["help"] => .error .help
  | _ => .error .misuse

def Fetch.ofGiven (g : Given) (url : String) : Fetch where
  url := url
  method := (g.valuesOf "method").head?.getD "GET"
  headers := g.valuesOf "header"
  data := (g.valuesOf "data").head?
  rateLimitKey := (g.valuesOf "rate-limit-key").head?
  retry := !g.has "no-retry"

def Listen.ofGiven (g : Given) (address : String) : Listen where
  address := address
  topic := (g.valuesOf "topic").head?.getD "default"
  sends := g.valuesOf "send"
  count := (g.valuesOf "count").head?.bind count?

namespace Invocation

/-- The file of settings that is named behind the command, or before it. -/
def configOf (outer inner : Given) : String :=
  let given := (inner.valuesOf "config").head?.orElse fun _ => (outer.valuesOf "config").head?
  given.getD "config.toml"

/-- Reads the arguments of a program. -/
def parse (words : List String) : Except Stop Invocation := do
  match ← readArguments mainOptions ["fetch", "stream", "help"] 0 .nothing none words with
  | (outer, some ("fetch", rest)) => do
    let (inner, url) ← readCommand fetchOptions rest
    .ok ⟨configOf outer inner, .fetch (.ofGiven inner url)⟩
  | (outer, some ("stream", rest)) => do
    let (inner, address) ← readCommand streamOptions rest
    .ok ⟨configOf outer inner, .stream (.ofGiven inner address)⟩
  | (_, some (_, rest)) => readHelp rest
  | (_, none) => .error .misuse

end Invocation

end Uplink.Cli

import Uplink.KeyMap

/-! Which log lines are shown. A filter is a list of directives, a level for everything or for the
targets that begin with a word; the longest word that fits decides. -/

namespace Uplink.Cli

/-- A level by how much it shows: nothing, errors, warnings, and so on. -/
abbrev LogLevel := Nat

structure LogDirective where
  target : String
  level : LogLevel
deriving DecidableEq

namespace LogDirective

/-- The level that a word or a number names, in any case. -/
def level? (text : String) : Option LogLevel :=
  let names := ["off", "error", "warn", "info", "debug", "trace"]
  (names.idxOf? (text.map Char.toLower)).orElse fun _ =>
    ["0", "1", "2", "3", "4", "5"].idxOf? text

/-- A level, a target, or both around an equals sign. A target alone is shown in full. -/
def parse? (text : String) : Option LogDirective :=
  match level? text with
  | some level => some ⟨"", level⟩
  | none =>
    let cs := text.toList
    let target := String.ofList (cs.takeWhile (· ≠ '='))
    match cs.dropWhile (· ≠ '=') with
    | [] => some ⟨target, 5⟩
    | _ :: level => (level? (String.ofList level)).map fun l => ⟨target, l⟩

/-- The directives between commas, each as it is read. -/
def parseAll (text : String) : List (Option LogDirective) :=
  ((text.splitOn ",").filter (· ≠ "")).map parse?

end LogDirective

/-- How much a filter shows of a target; no directive at all lets errors through. -/
def shownLevel (directives : List LogDirective) (target : String) : LogLevel :=
  if directives.isEmpty then 1
  else
    let fitting := directives.filter fun d => d.target.toList.isPrefixOf target.toList
    (fitting.foldl (fun (best : LogDirective) d =>
      if best.target.length ≤ d.target.length then d else best) ⟨"", 0⟩).level

/-- The filter of a program: that of the environment if all its directives can be read, else those
of the settings that can. -/
def logDirectives (environment : Option String) (level : String) : List LogDirective :=
  match environment.bind fun text => (LogDirective.parseAll text).mapM id with
  | some directives => directives
  | none => (LogDirective.parseAll level).filterMap id

end Uplink.Cli

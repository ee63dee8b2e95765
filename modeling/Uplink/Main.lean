import Uplink.Cli
import Uplink.Offline

/-! The program: it reads arguments, variables and files, runs, and prints what came of that. -/

namespace Uplink.Cli

/-- The names of the variables that the program looks up. -/
def variableNames : List String := [proxyVariable, "RUST_LOG"]

def readEnvironment : IO (KeyMap String) :=
  variableNames.foldlM (fun (e : KeyMap String) name => do
    match ← IO.getEnv name with
    | some value => return e.insert name value
    | none => return e) ∅

/-- What is found under the name of a file. -/
def readSource (name : String) : IO Settings.Source := do
  try return .bytes (← IO.FS.readBinFile name).toList
  catch
    | .inappropriateType .. => return .directory
    | _ => return .missing

/-- The file of settings that the arguments name. -/
def configName (arguments : List String) : String :=
  match Invocation.parse arguments with
  | .ok i => i.config
  | .error _ => "config.toml"

/-- A line of the log as a document. -/
def logLine (title reason : String) : String :=
  Json.text (.object [("level", .string "ERROR"),
    ("fields", .object [("message", .string title), ("error", .string reason)]),
    ("target", .string "exlink")])

end Uplink.Cli

open Uplink Uplink.Cli in
def main (arguments : List String) : IO UInt32 := do
  let name := configName arguments
  let config ← readSource name
  let variableFile ← readSource ".env"
  let surroundings : Surroundings := {
    file := fun n => if n = ".env" then variableFile else if n = name then config else .missing
    environment := ← readEnvironment
    network := .offline
    send := Reply.offline
    arrivals := [] }
  let outcome := Cli.run surroundings arguments
  for line in outcome.lines do IO.println line
  for (title, reason) in outcome.logged do IO.println (logLine title reason)
  if let some text := outcome.complaint then IO.eprintln text
  return .ofNat outcome.status

import Uplink.Cli.EnvFile
import Uplink.Cli.Invocation
import Uplink.Cli.LogFilter
import Uplink.Manager
import Uplink.Settings.Decode

/-! The program behind the command line: it reads its settings, issues one request or prints what a
stream brings, and reports how that ended. What it finds around it is a parameter. -/

namespace Uplink.Cli

/-- What a program finds around it. -/
structure Surroundings where
  /-- What is found under the name of a file. -/
  file : String → Settings.Source
  environment : KeyMap String
  network : Stream.Network
  send : Outgoing → Reply
  /-- The messages that reach a subscription before it ends. -/
  arrivals : List Variant

/-- How a program ended: its status, its lines, and the errors that it logged, each with a cause. -/
structure Outcome where
  status : Nat
  lines : List String := []
  logged : List (String × String) := []
  complaint : Option String := none

/-- The variable that puts a proxy in place of that of the settings. -/
def proxyVariable : String := "EXLINK_PROXY"

/-- The request that a command asks for, or why it asks for none. -/
def Fetch.request (f : Fetch) : Except String Request := do
  let method := f.method.map Char.toUpper
  if !Header.isToken method then .error ("invalid method " ++ Text.quoted f.method)
  let r := (Request.ofMethod method f.url).withRetry f.retry
  let r ← f.headers.foldlM addHeader r
  let r := match f.data with
    | none => r
    | some data =>
      match Json.parse? data with
      | some document => r.withJson (.ofJson document)
      | none => r.withText data
  .ok ((f.rateLimitKey.map r.withRateLimitKey).getD r)
where
  addHeader (r : Request) (header : String) : Except String Request :=
    match header.toList.dropWhile (· ≠ ':') with
    | [] => .error ("header " ++ Text.quoted header ++ " is not in name:value form")
    | _ :: value =>
      .ok (r.withHeader (Text.trim (String.ofList (header.toList.takeWhile (· ≠ ':'))))
        (Text.trim (String.ofList value)))

/-- A listener to a subscription: the messages it has printed, and whether it has stopped. -/
structure Listener where
  printed : List Variant
  stopped : Bool

namespace Listener

def start : Listener := ⟨[], false⟩

/-- The listener after one more message, or after the end of the subscription: it stops at the end,
and once it has printed as many messages as it was asked for. -/
def receive (count : Option Nat) (l : Listener) : Option Variant → Listener
  | none => { l with stopped := true }
  | some v =>
    if l.stopped then l
    else ⟨l.printed ++ [v], count.any fun n => decide (n ≤ l.printed.length + 1)⟩

/-- The listener after some messages and the end of the subscription. -/
def listen (count : Option Nat) (arrivals : List Variant) : Listener :=
  (arrivals.map some ++ [none]).foldl (receive count) start

end Listener

/-- Issues a request; the lines to print, or why there are none. -/
def runFetch (s : Surroundings) (m : Manager) (f : Fetch) : Except String (List String) := do
  let r ← f.request
  let (result, _) := m.request s.network s.send r
  match result with
  | .ok v => .ok [v.toJson.pretty]
  | .error e => .error e.message

/-- Makes a call on the registry that must not fail. -/
def require (s : Surroundings) (m : Manager) (address : String) (call : Stream.Registry.Call) :
    Except String Manager :=
  match m.ask s.network call with
  | (some (.failed e), _) => .error e.message
  | (some (.sent _ result), m) =>
    match result.error? address with
    | some e => .error e.message
    | none => .ok m
  | (_, m) => .ok m

/-- Opens a stream, sends messages and prints what arrives; the lines, or why there are none. -/
def runListen (s : Surroundings) (m : Manager) (l : Listen) : Except String (List String) := do
  let m ← require s m l.address (.connect l.address m.streamDefaults)
  let m ← require s m l.address (.subscribe l.address l.topic)
  let _ ← l.sends.foldlM (fun m text => require s m l.address (.send l.address (.text text))) m
  .ok ((Listener.listen l.count s.arrivals).printed.map Variant.text)

/-- What is said of settings that cannot be used: where they are from, what is wrong, and the cause
once more if a cause is behind it. -/
def settingsComplaint (source : Settings.Source) (path : String) (e : Error) : String :=
  let cause := match e with
    | .config (.unreadable cause) => ": " ++ cause
    | _ => ""
  let place := match source with
    | .missing => ""
    | _ => "loading " ++ path ++ ": "
  "Failed to load config: " ++ place ++ e.message ++ cause

/-- The outcome of a run that failed for a reason; errors are logged as far as the filter lets them
through, as lines of their own if the settings ask for that form. -/
def failure (settings : Settings) (environment : KeyMap String) (title reason : String) : Outcome :=
  let directives := logDirectives (environment.get? "RUST_LOG") settings.logging.level
  let shown := 1 ≤ shownLevel directives "exlink" ∧ settings.logging.format = "json"
  { status := 1, logged := if shown then [(title, reason)] else [] }

/-- Runs a command with the settings that it names. -/
def runCommand (s : Surroundings) (i : Invocation) (environment : KeyMap String) : Outcome :=
  let source := s.file i.config
  match Settings.loadOrDefault source (environment.get? proxyVariable) with
  | .error e => { status := 1, complaint := some (settingsComplaint source i.config e) }
  | .ok settings =>
    match Manager.ofSettings settings 0 with
    | .error e => failure settings environment "Failed to initialise network manager" e.message
    | .ok m =>
      let result := match i.command with
        | .fetch f => runFetch s m f
        | .stream l => runListen s m l
      match result with
      | .ok lines => { status := 0, lines }
      | .error reason => failure settings environment "Fatal error" reason

/-- The environment with what the file of variables adds to it. -/
def fullEnvironment (s : Surroundings) : KeyMap String :=
  match s.file ".env" with
  | .bytes content => EnvFile.load s.environment content
  | _ => s.environment

/-- The line that names the program and its version. -/
def versionLine : String := "exlink 0.1.0"

/-- The lines that name the commands. -/
def usageLines : List String :=
  ["Usage: exlink [OPTIONS] <COMMAND>", "", "Commands:",
    "  fetch   Issue one HTTP request and print the decoded response as JSON",
    "  stream  Open a stream, optionally send a message, and print what arrives"]

/-- Runs the program with its arguments. -/
def run (s : Surroundings) (arguments : List String) : Outcome :=
  match Invocation.parse arguments with
  | .error .version => { status := 0, lines := [versionLine] }
  | .error .help => { status := 0, lines := usageLines }
  | .error .misuse => { status := 2 }
  | .ok i => runCommand s i (fullEnvironment s)

end Uplink.Cli

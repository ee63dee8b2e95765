import Mathlib
import Uplink.Cli
import Uplink.Proofs.Settings.Checks
import Uplink.Proofs.Settings.Fields

/-! How settings are loaded: a file is read, its text is parsed, the proxy of the surroundings is
put in place of that of the file, and only then are the values checked. A command without a file of
settings goes on like one whose file sets nothing; but what it complains of does not name a file. -/

namespace Uplink

namespace Settings

variable {source source' : Source} {content : List UInt8} {proxy : Option String}
  {s parsed : Settings} {text : String} {t : Toml}

/-- The settings with a proxy in place of theirs, if one is given and it is not empty. -/
theorem overrideProxy_eq (s : Settings) (proxy : Option String) :
    s.overrideProxy proxy =
      { s with http := { s.http with proxy := (proxy.filter (· ≠ "")).or s.http.proxy } } := by
  unfold overrideProxy
  split
  · rfl
  · rfl
  · next proxy hne =>
    rw [Option.filter_some_pos (by simpa using hne)]
    rfl

theorem load_eq_ok_iff : load source proxy = .ok s ↔
    ∃ text parsed, source.text = .ok text ∧ parse text = .ok parsed ∧
      s = parsed.overrideProxy proxy ∧ s.validate = .ok () := by
  simp only [load, bind_eq_ok, Except.ok.injEq]
  constructor
  · rintro ⟨text, htext, parsed, hparsed, ⟨⟩, hvalid, rfl⟩
    exact ⟨text, parsed, htext, hparsed, rfl, hvalid⟩
  · rintro ⟨text, parsed, htext, hparsed, rfl, hvalid⟩
    exact ⟨text, htext, parsed, hparsed, (), hvalid, rfl⟩

/-- Once a file is parsed, only the settings with the proxy put in count. -/
theorem load_of_parse (h : source.text >>= parse = .ok parsed) :
    load source proxy =
      (parsed.overrideProxy proxy).validate.map fun _ => parsed.overrideProxy proxy := by
  obtain ⟨text, htext, hparsed⟩ := bind_eq_ok.mp h
  simp only [load, htext, hparsed, bind, Except.bind]
  cases (parsed.overrideProxy proxy).validate <;> rfl

theorem parse_eq_ok_iff : parse text = .ok s ↔ ∃ t, Toml.parse? text = some t ∧ Describes t s := by
  simp only [parse, ← ofToml?_eq_some_iff_describes]
  cases Toml.parse? text with
  | none => simp
  | some t => cases h : ofToml? t <;> simp [bind, h]

/-- Files that differ in their proxy only are the same once another one is put in its place. -/
theorem load_eq_of_override {p : String} {a b : Settings} (hp : p ≠ "")
    (ha : source.text >>= parse = .ok a) (hb : source'.text >>= parse = .ok b)
    (hsame : { a with http := { a.http with proxy := none } } =
      { b with http := { b.http with proxy := none } }) :
    load source (some p) = load source' (some p) := by
  have hput : a.overrideProxy (some p) = b.overrideProxy (some p) := by
    rw [overrideProxy_eq, overrideProxy_eq, Option.filter_some_pos (by simpa using hp)]
    exact congrArg (fun c => { c with http := { c.http with proxy := some p } }) hsame
  rw [load_of_parse ha, load_of_parse hb, hput]

/-- A file that sets nothing is the same to a command as none. -/
theorem loadOrDefault_of_leftOut (htext : (Source.bytes content).text = .ok text)
    (ht : Toml.parse? text = some t) (hleft : ∀ f ∈ Field.all, f.LeftOut t) :
    loadOrDefault (.bytes content) proxy = loadOrDefault .missing proxy := by
  have hparsed : (Source.bytes content).text >>= parse = .ok {} :=
    bind_eq_ok.mpr ⟨text, htext, parse_eq_ok_iff.mpr
      ⟨t, ht, ofToml?_eq_some_iff_describes.mp (ofToml?_of_leftOut hleft)⟩⟩
  have hload : loadOrDefault (.bytes content) proxy = load (.bytes content) proxy := rfl
  rw [hload, load_of_parse hparsed]
  simp only [loadOrDefault, bind, Except.bind]
  cases (({} : Settings).overrideProxy proxy).validate <;> rfl

end Settings

namespace Cli

open Settings (Source Field)

variable {s : Surroundings} {i : Invocation} {environment : KeyMap String} {content : List UInt8}

/-- A command that can load its settings does not tell a file from another that gives the same. -/
theorem runCommand_eq_of_loaded {settings : Settings} (hfile : s.file i.config = .bytes content)
    (hsame : Settings.loadOrDefault (.bytes content) (environment.get? proxyVariable) =
      Settings.loadOrDefault .missing (environment.get? proxyVariable))
    (hloaded : Settings.loadOrDefault .missing (environment.get? proxyVariable) = .ok settings) :
    runCommand s i environment = runCommand { s with file := fun _ => .missing } i environment := by
  simp only [runCommand, hfile, hsame, hloaded]
  rfl

/-- Only a complaint about a file says that it comes from loading the file. -/
theorem settingsComplaint_eq (content : List UInt8) (path : String) (e : Error) : ∃ rest,
    settingsComplaint .missing path e = "Failed to load config: " ++ rest ∧
      settingsComplaint (.bytes content) path e =
        "Failed to load config: " ++ ("loading " ++ path ++ ": " ++ rest) := by
  unfold settingsComplaint
  extract_lets cause missing found
  refine ⟨e.message ++ cause, ?_, ?_⟩
  · rw [show missing = "" from rfl, String.append_empty, String.append_assoc]
  · rw [show found = "loading " ++ path ++ ": " from rfl]
    simp only [String.append_assoc]

theorem runCommand_eq_of_refused {e : Error} (hfile : s.file i.config = .bytes content)
    (hsame : Settings.loadOrDefault (.bytes content) (environment.get? proxyVariable) =
      Settings.loadOrDefault .missing (environment.get? proxyVariable))
    (hrefused : Settings.loadOrDefault .missing (environment.get? proxyVariable) = .error e) :
    ∃ rest, runCommand { s with file := fun _ => .missing } i environment =
        { status := 1, complaint := some ("Failed to load config: " ++ rest) } ∧
      runCommand s i environment =
        { status := 1, complaint :=
            some ("Failed to load config: " ++ ("loading " ++ i.config ++ ": " ++ rest)) } := by
  obtain ⟨rest, hmissing, hfound⟩ := settingsComplaint_eq content i.config e
  refine ⟨rest, ?_, ?_⟩
  · simp only [runCommand, hrefused, hmissing]
  · simp only [runCommand, hfile, hsame, hrefused, hfound]

/-- Loading is one pipeline: it gives what the text of a file describes, with a proxy that is not
empty in place of that of the file, if that passes the check, and nothing else. A text describes
settings field by field: what is left out, alone or with its section, is as in the defaults, and
keys that name nothing do not count. Only what was put in place of a file's proxy is checked, so
that files which differ there are the same. A command loads a file that is there in this way, and
goes on without one just as with a file that sets nothing: alike if it can load its settings, and
with the same error if it cannot, save that only the complaint about a file says where it comes
from. -/
theorem loads_by_one_pipeline (source : Source) (proxy : Option String) :
    (∀ s, Settings.load source proxy = .ok s ↔
      ∃ text parsed, source.text = .ok text ∧ Settings.parse text = .ok parsed ∧
        s = { parsed with http :=
          { parsed.http with proxy := (proxy.filter (· ≠ "")).or parsed.http.proxy } } ∧
        s.validate = .ok ()) ∧
    (∀ source' p a b, p ≠ "" → source.text >>= Settings.parse = .ok a →
      source'.text >>= Settings.parse = .ok b →
      { a with http := { a.http with proxy := none } } =
        { b with http := { b.http with proxy := none } } →
      Settings.load source (some p) = Settings.load source' (some p)) ∧
    Settings.load source (some "") = Settings.load source none ∧
    (∀ text s, Settings.parse text = .ok s ↔
      ∃ t, Toml.parse? text = some t ∧ Settings.Describes t s) ∧
    (∀ text text' t t', Toml.parse? text = some t → Toml.parse? text' = some t' →
      Relation.ReflTransGen Settings.Extends t t' →
      Settings.parse text' = Settings.parse text) ∧
    (source ≠ .missing → Settings.loadOrDefault source proxy = Settings.load source proxy) ∧
    ∀ content text t, (Source.bytes content).text = .ok text → Toml.parse? text = some t →
      (∀ f ∈ Field.all, f.LeftOut t) →
      Settings.loadOrDefault (.bytes content) proxy = Settings.loadOrDefault .missing proxy ∧
      ∀ (s : Surroundings) (i : Invocation) (environment : KeyMap String),
        s.file i.config = .bytes content → environment.get? proxyVariable = proxy →
        (∀ settings, Settings.loadOrDefault .missing proxy = .ok settings →
          runCommand s i environment =
            runCommand { s with file := fun _ => .missing } i environment) ∧
        ∀ e, Settings.loadOrDefault .missing proxy = .error e →
          ∃ rest, runCommand { s with file := fun _ => .missing } i environment =
              { status := 1, complaint := some ("Failed to load config: " ++ rest) } ∧
            runCommand s i environment =
              { status := 1, complaint :=
                  some ("Failed to load config: " ++
                    ("loading " ++ i.config ++ ": " ++ rest)) } := by
  refine ⟨fun s => ?_, fun source' p a b => Settings.load_eq_of_override, ?_,
    fun text s => Settings.parse_eq_ok_iff, fun text text' t t' ht ht' hextends => ?_, ?_, ?_⟩
  · simp only [Settings.load_eq_ok_iff, Settings.overrideProxy_eq]
  · rfl
  · have hsettings :
        Toml.parse? text' >>= Settings.ofToml? = Toml.parse? text >>= Settings.ofToml? := by
      rw [ht, ht']
      exact Settings.Extends.ofToml?_eq hextends
    rw [Settings.parse, Settings.parse, hsettings]
  · cases source with
    | missing => exact fun h => absurd rfl h
    | directory => exact fun _ => rfl
    | bytes content => exact fun _ => rfl
  · intro content text t htext ht hleft
    have hsame (proxy : Option String) : Settings.loadOrDefault (.bytes content) proxy =
        Settings.loadOrDefault .missing proxy := Settings.loadOrDefault_of_leftOut htext ht hleft
    refine ⟨hsame proxy, ?_⟩
    rintro s i environment hfile rfl
    exact ⟨fun settings => runCommand_eq_of_loaded hfile (hsame _),
      fun e => runCommand_eq_of_refused hfile (hsame _)⟩

/-- A text that sets an empty proxy and a key that names nothing. -/
def emptyProxy : String := "[http]\nproxy = \"\"\ncolor = 1\n"

/-- Surroundings with a proxy that is no URL, and what stands in place of files. -/
def misdirected (file : String → Source) : Surroundings where
  file := file
  environment := (∅ : KeyMap String).insert proxyVariable "proxy"
  network := fun _ => .ok ()
  send := fun _ => .response 200 []
  arrivals := []

/-- With a proxy of the surroundings, a file with an empty one is loaded and is the same as a file
without any; a key that names nothing does not count; and no file is the same as an empty one. -/
theorem loads_by_one_pipeline_with_proxy :
    Settings.load (.bytes (Text.Utf8.encode emptyProxy.toList)) (some "http://host") =
      .ok { http := { proxy := some "http://host" } } ∧
    Settings.load (.bytes (Text.Utf8.encode emptyProxy.toList)) (some "http://host") =
      Settings.load (.bytes []) (some "http://host") ∧
    Settings.parse "color = 1\n" = Settings.parse "" ∧
    Settings.loadOrDefault (.bytes []) (some "proxy") =
      Settings.loadOrDefault .missing (some "proxy") ∧
    ∃ rest, runCommand (misdirected fun _ => .missing) ⟨"config.toml", .fetch { url := "" }⟩
        (misdirected fun _ => .missing).environment =
      { status := 1, complaint := some ("Failed to load config: " ++ rest) } := by
  obtain ⟨hload, hproxy, -, -, hunknown, -, -⟩ := loads_by_one_pipeline
    (.bytes (Text.Utf8.encode emptyProxy.toList)) (some "http://host")
  obtain ⟨hmissing, hcommand⟩ := (loads_by_one_pipeline .missing (some "proxy")).2.2.2.2.2.2 [] ""
    (.table []) (by decide +kernel) (by cbv) fun f _ => .inl rfl
  refine ⟨(hload _).mpr ⟨emptyProxy, { http := { proxy := some "" } }, by decide +kernel,
      by decide +kernel, rfl, by decide +kernel⟩,
    hproxy (.bytes []) "http://host" { http := { proxy := some "" } } {} (by decide)
      (by decide +kernel) (by decide +kernel) rfl, ?_, hmissing, ?_⟩
  · exact hunknown _ _ (.table []) (.table [("color", .integer 1)]) (by cbv) (by cbv)
      (.single (.document (l := []) (r := []) fun home => by cases home <;> decide))
  · obtain ⟨rest, hrest, -⟩ := (hcommand (misdirected fun _ => .bytes []) ⟨"config.toml",
      .fetch { url := "" }⟩ (misdirected fun _ => .missing).environment rfl rfl).2
        (.config (.invalidValue "http.proxy" "relative URL without a base")) (by decide +kernel)
    exact ⟨rest, hrest⟩

/-- Whether a command without usable settings has a file that sets nothing, or none, can be told
from its complaint. -/
theorem complains_of_file_only : ∃ rest,
    (run (misdirected fun _ => .missing) ["fetch", "http://host/"]).complaint =
      some ("Failed to load config: " ++ rest) ∧
    (run (misdirected fun name => if name = "config.toml" then .bytes [] else .missing)
      ["fetch", "http://host/"]).complaint =
      some ("Failed to load config: loading config.toml: " ++ rest) ∧
    (run (misdirected fun _ => .missing) ["fetch", "http://host/"]).complaint ≠
      (run (misdirected fun name => if name = "config.toml" then .bytes [] else .missing)
        ["fetch", "http://host/"]).complaint :=
  ⟨"invalid value for http.proxy: relative URL without a base", by decide +kernel,
    by decide +kernel, by decide +kernel⟩

end Cli

end Uplink

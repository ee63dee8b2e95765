import Mathlib.Logic.Relation
import Uplink.Settings.Decode

/-! What a document says of each field of the settings: a field that is left out, alone or with its
section, has its default, and one that is given has the value that is read. Nothing else of a
document counts. -/

namespace Uplink

theorem findEntry_insert_of_ne {α : Type} {name k : String} {v : α} {l r : List (String × α)}
    (h : name ≠ k) : findEntry name (l ++ (k, v) :: r) = findEntry name (l ++ r) := by
  induction l with
  | nil => simp [findEntry, h]
  | cons e l ih => simp only [List.cons_append, findEntry, ih]

/-- A change of one entry is seen under its name only, and there only if the entry counts. -/
theorem findEntry_change {α : Type} (name k : String) (v v' : α) (l r : List (String × α)) :
    findEntry name (l ++ (k, v') :: r) = findEntry name (l ++ (k, v) :: r) ∨
      name = k ∧ findEntry name (l ++ (k, v) :: r) = some v ∧
        findEntry name (l ++ (k, v') :: r) = some v' := by
  induction l with
  | nil => by_cases h : name = k <;> simp [findEntry, h]
  | cons e l ih =>
    simp only [List.cons_append, findEntry]
    split
    · exact .inl rfl
    · exact ih

namespace Toml

variable {α : Type} {t : Toml} {name : String} {place : Nat} {read : Toml → Option α} {d a : α}

/-- A document or a section is a table, or an array of fields in order. -/
def IsSection (t : Toml) : Prop := ∀ name place, (t.field? name place).isSome

theorem isSection_of_field? (h : (t.field? name place).isSome) : t.IsSection := by
  intro name' place'
  cases t <;> simp_all [field?, entries?]

theorem fieldOr_eq_some_iff : t.fieldOr name place read d = some a ↔
    (t.field? name place = some none ∧ a = d) ∨
      ∃ v, t.field? name place = some (some v) ∧ read v = some a := by
  unfold fieldOr
  rcases t.field? name place with _ | _ | v <;> simp [eq_comm]

theorem fieldOr_table (entries : List (String × Toml)) :
    (table entries).fieldOr name place read d = match findEntry name entries with
      | none => some d
      | some v => read v := rfl

end Toml

namespace Settings

inductive Section where
  | http
  | retry
  | rateLimit
  | stream
  | logging
deriving DecidableEq

namespace Section

def name : Section → String
  | http => "http"
  | retry => "retry"
  | rateLimit => "rate_limit"
  | stream => "stream"
  | logging => "logging"

theorem name_injective : Function.Injective name := by
  intro a b h
  cases a <;> cases b <;> first | rfl | exact absurd h (by decide)

def place : Section → Nat
  | http => 0
  | retry => 1
  | rateLimit => 2
  | stream => 3
  | logging => 4

end Section

/-- A field of the settings: where it stands in a document, how it is read, and what it is in the
settings. -/
structure Field where
  home : Section
  name : String
  place : Nat
  {Value : Type}
  read : Toml → Option Value
  get : Settings → Value

namespace Field

def http : List Field :=
  [⟨.http, "timeout_ms", 0, (·.asWord64?), (·.http.timeoutMs)⟩,
    ⟨.http, "pool_max_idle_per_host", 1, (·.asWord64?), (·.http.poolMaxIdlePerHost)⟩,
    ⟨.http, "pool_idle_timeout_ms", 2, (·.asWord64?), (·.http.poolIdleTimeoutMs)⟩,
    ⟨.http, "user_agent", 3, (·.asString?.map some), (·.http.userAgent)⟩,
    ⟨.http, "proxy", 4, (·.asString?.map some), (·.http.proxy)⟩]

def retry : List Field :=
  [⟨.retry, "max_attempts", 0, (·.asWord32?), (·.retry.maxAttempts)⟩,
    ⟨.retry, "base_delay_ms", 1, (·.asWord64?), (·.retry.baseDelayMs)⟩,
    ⟨.retry, "max_delay_ms", 2, (·.asWord64?), (·.retry.maxDelayMs)⟩,
    ⟨.retry, "backoff_factor", 3, (·.asNumber?), (·.retry.backoffFactor)⟩]

def rateLimit : List Field :=
  [⟨.rateLimit, "default_limit", 0, (·.asWord64?), (·.rateLimit.defaultLimit)⟩,
    ⟨.rateLimit, "window_ms", 1, (·.asWord64?), (·.rateLimit.windowMs)⟩,
    ⟨.rateLimit, "limits", 2, (·.asMap? (·.asWord64?)), (·.rateLimit.limits)⟩]

def stream : List Field :=
  [⟨.stream, "headers", 0, (·.asMap? (·.asString?)), (·.stream.headers)⟩,
    ⟨.stream, "reconnect", 1, (·.asBoolean?), (·.stream.reconnect)⟩,
    ⟨.stream, "handshake_timeout_ms", 2, (·.asWord64?), (·.stream.handshakeTimeoutMs)⟩,
    ⟨.stream, "ping_interval_ms", 3, (·.asWord64?), (·.stream.pingIntervalMs)⟩,
    ⟨.stream, "reconnect_delay_ms", 4, (·.asWord64?), (·.stream.reconnectDelayMs)⟩,
    ⟨.stream, "write_timeout_ms", 5, (·.asWord64?), (·.stream.writeTimeoutMs)⟩,
    ⟨.stream, "channel_capacity", 6, (·.asWord64?), (·.stream.channelCapacity)⟩]

def logging : List Field :=
  [⟨.logging, "level", 0, (·.asString?), (·.logging.level)⟩,
    ⟨.logging, "format", 1, (·.asString?), (·.logging.format)⟩]

/-- All fields of the settings. -/
def all : List Field := http ++ retry ++ rateLimit ++ stream ++ logging

variable {f : Field} {t : Toml}

/-- The field is left out of a document, or its section is. -/
def LeftOut (f : Field) (t : Toml) : Prop :=
  t.field? f.home.name f.home.place = some none ∨
    ∃ part, t.field? f.home.name f.home.place = some (some part) ∧
      part.field? f.name f.place = some none

/-- A document gives the field in its section. -/
def Given (f : Field) (t v : Toml) : Prop :=
  ∃ part, t.field? f.home.name f.home.place = some (some part) ∧
    part.field? f.name f.place = some (some v)

/-- What the field is in the settings that a document describes. -/
def value? (f : Field) (t : Toml) : Option f.Value :=
  t.fieldOr f.home.name f.home.place
    (fun part => part.fieldOr f.name f.place f.read (f.get {})) (f.get {})

theorem LeftOut.not_given {v : Toml} (h : f.LeftOut t) : ¬f.Given t v := by
  rintro ⟨part, hpart, hv⟩
  rcases h with hnone | ⟨part', hpart', hnone⟩
  · rw [hpart] at hnone
    cases hnone
  · obtain rfl : part = part' := by simpa [hpart] using hpart'
    rw [hv] at hnone
    cases hnone

theorem Given.eq {v v' : Toml} (h : f.Given t v) (h' : f.Given t v') : v = v' := by
  obtain ⟨part, hpart, hv⟩ := h
  obtain ⟨part', hpart', hv'⟩ := h'
  obtain rfl : part = part' := by simpa [hpart] using hpart'
  simpa [hv] using hv'

/-- A field is left out or given wherever there are fields. -/
theorem leftOut_or_given (ht : t.IsSection) (hparts : ∀ part,
    t.field? f.home.name f.home.place = some (some part) → part.IsSection) :
    f.LeftOut t ∨ ∃ v, f.Given t v := by
  obtain ⟨found, hfound⟩ := Option.isSome_iff_exists.mp (ht f.home.name f.home.place)
  cases found with
  | none => exact .inl (.inl hfound)
  | some part =>
    obtain ⟨found, hfield⟩ := Option.isSome_iff_exists.mp (hparts part hfound f.name f.place)
    cases found with
    | none => exact .inl (.inr ⟨part, hfound, hfield⟩)
    | some v => exact .inr ⟨v, part, hfound, hfield⟩

theorem value?_eq_some_iff {a : f.Value} : f.value? t = some a ↔
    (f.LeftOut t ∧ a = f.get {}) ∨ ∃ v, f.Given t v ∧ f.read v = some a := by
  simp only [value?, Toml.fieldOr_eq_some_iff, LeftOut, Given]
  constructor
  · rintro (⟨hnone, rfl⟩ | ⟨part, hpart, ⟨hnone, rfl⟩ | ⟨v, hv, hread⟩⟩)
    · exact .inl ⟨.inl hnone, rfl⟩
    · exact .inl ⟨.inr ⟨part, hpart, hnone⟩, rfl⟩
    · exact .inr ⟨v, ⟨part, hpart, hv⟩, hread⟩
  · rintro (⟨hnone | ⟨part, hpart, hnone⟩, rfl⟩ | ⟨v, ⟨part, hpart, hv⟩, hread⟩)
    · exact .inl ⟨hnone, rfl⟩
    · exact .inr ⟨part, hpart, .inl ⟨hnone, rfl⟩⟩
    · exact .inr ⟨part, hpart, .inr ⟨v, hv, hread⟩⟩

/-- The fields of a section are read together. -/
theorem fieldOr_eq_some_iff_forall {α : Type} (home : Section) {fields : List Field} {s : Settings}
    {read : Toml → Option α} {d a : α} (hne : fields ≠ []) (hhome : ∀ f ∈ fields, f.home = home)
    (hread : ∀ part, read part = some a ↔
      ∀ f ∈ fields, part.fieldOr f.name f.place f.read (f.get {}) = some (f.get s))
    (hdefault : d = a ↔ ∀ f ∈ fields, f.get {} = f.get s) :
    t.fieldOr home.name home.place read d = some a ↔
      ∀ f ∈ fields, f.value? t = some (f.get s) := by
  have hvalue : ∀ f ∈ fields, f.value? t = t.fieldOr home.name home.place
      (fun part => part.fieldOr f.name f.place f.read (f.get {})) (f.get {}) := by
    rintro f hf
    rw [value?, hhome f hf]
  rw [show (∀ f ∈ fields, f.value? t = some (f.get s)) ↔ ∀ f ∈ fields,
    t.fieldOr home.name home.place (fun part => part.fieldOr f.name f.place f.read (f.get {}))
      (f.get {}) = some (f.get s) from forall₂_congr fun f hf => by rw [hvalue f hf]]
  unfold Toml.fieldOr
  rcases t.field? home.name home.place with _ | _ | part
  · obtain ⟨f, hf⟩ := List.exists_mem_of_ne_nil fields hne
    exact iff_of_false (by simp) fun h => by simpa using h f hf
  · simpa using hdefault
  · exact hread part

end Field

variable {t t' : Toml} {s : Settings}

theorem http_eq_some_iff : t.fieldOr "http" 0 HttpSettings.ofToml? {} = some s.http ↔
    ∀ f ∈ Field.http, f.value? t = some (f.get s) := by
  obtain ⟨⟨_, _, _, _, _⟩, -, -, -, -⟩ := s
  refine Field.fieldOr_eq_some_iff_forall .http (by simp [Field.http]) (by simp [Field.http])
    (fun part => ?_) (by simp [Field.http])
  simp only [HttpSettings.ofToml?, Field.http, List.forall_mem_cons, bind,
    Option.bind_eq_some_iff]
  constructor
  · rintro ⟨_, h₁, _, h₂, _, h₃, _, h₄, _, h₅, ⟨⟩⟩
    exact ⟨h₁, h₂, h₃, h₄, h₅, by simp⟩
  · rintro ⟨h₁, h₂, h₃, h₄, h₅, -⟩
    exact ⟨_, h₁, _, h₂, _, h₃, _, h₄, _, h₅, rfl⟩

theorem retry_eq_some_iff : t.fieldOr "retry" 1 RetrySettings.ofToml? {} = some s.retry ↔
    ∀ f ∈ Field.retry, f.value? t = some (f.get s) := by
  obtain ⟨-, ⟨_, _, _, _⟩, -, -, -⟩ := s
  refine Field.fieldOr_eq_some_iff_forall .retry (by simp [Field.retry]) (by simp [Field.retry])
    (fun part => ?_) (by simp [Field.retry])
  simp only [RetrySettings.ofToml?, Field.retry, List.forall_mem_cons, bind,
    Option.bind_eq_some_iff]
  constructor
  · rintro ⟨_, h₁, _, h₂, _, h₃, _, h₄, ⟨⟩⟩
    exact ⟨h₁, h₂, h₃, h₄, by simp⟩
  · rintro ⟨h₁, h₂, h₃, h₄, -⟩
    exact ⟨_, h₁, _, h₂, _, h₃, _, h₄, rfl⟩

theorem rateLimit_eq_some_iff :
    t.fieldOr "rate_limit" 2 RateLimitSettings.ofToml? {} = some s.rateLimit ↔
    ∀ f ∈ Field.rateLimit, f.value? t = some (f.get s) := by
  obtain ⟨-, -, ⟨_, _, _⟩, -, -⟩ := s
  refine Field.fieldOr_eq_some_iff_forall .rateLimit (by simp [Field.rateLimit])
    (by simp [Field.rateLimit]) (fun part => ?_) (by simp [Field.rateLimit])
  simp only [RateLimitSettings.ofToml?, Field.rateLimit, List.forall_mem_cons, bind,
    Option.bind_eq_some_iff]
  constructor
  · rintro ⟨_, h₁, _, h₂, _, h₃, ⟨⟩⟩
    exact ⟨h₁, h₂, h₃, by simp⟩
  · rintro ⟨h₁, h₂, h₃, -⟩
    exact ⟨_, h₁, _, h₂, _, h₃, rfl⟩

theorem stream_eq_some_iff : t.fieldOr "stream" 3 StreamSettings.ofToml? {} = some s.stream ↔
    ∀ f ∈ Field.stream, f.value? t = some (f.get s) := by
  obtain ⟨-, -, -, ⟨_, _, _, _, _, _, _⟩, -⟩ := s
  refine Field.fieldOr_eq_some_iff_forall .stream (by simp [Field.stream]) (by simp [Field.stream])
    (fun part => ?_) (by simp [Field.stream])
  simp only [StreamSettings.ofToml?, Field.stream, List.forall_mem_cons, bind,
    Option.bind_eq_some_iff]
  constructor
  · rintro ⟨_, h₁, _, h₂, _, h₃, _, h₄, _, h₅, _, h₆, _, h₇, ⟨⟩⟩
    exact ⟨h₁, h₂, h₃, h₄, h₅, h₆, h₇, by simp⟩
  · rintro ⟨h₁, h₂, h₃, h₄, h₅, h₆, h₇, -⟩
    exact ⟨_, h₁, _, h₂, _, h₃, _, h₄, _, h₅, _, h₆, _, h₇, rfl⟩

theorem logging_eq_some_iff : t.fieldOr "logging" 4 LoggingSettings.ofToml? {} = some s.logging ↔
    ∀ f ∈ Field.logging, f.value? t = some (f.get s) := by
  obtain ⟨-, -, -, -, ⟨_, _⟩⟩ := s
  refine Field.fieldOr_eq_some_iff_forall .logging (by simp [Field.logging])
    (by simp [Field.logging]) (fun part => ?_) (by simp [Field.logging])
  simp only [LoggingSettings.ofToml?, Field.logging, List.forall_mem_cons, bind,
    Option.bind_eq_some_iff]
  constructor
  · rintro ⟨_, h₁, _, h₂, ⟨⟩⟩
    exact ⟨h₁, h₂, by simp⟩
  · rintro ⟨h₁, h₂, -⟩
    exact ⟨_, h₁, _, h₂, rfl⟩

/-- Settings are described by a document if each field is what the document says of it. -/
theorem ofToml?_eq_some_iff : ofToml? t = some s ↔
    ∀ f ∈ Field.all, f.value? t = some (f.get s) := by
  simp only [Field.all, List.forall_mem_append, ← http_eq_some_iff, ← retry_eq_some_iff,
    ← rateLimit_eq_some_iff, ← stream_eq_some_iff, ← logging_eq_some_iff, ofToml?, bind,
    Option.bind_eq_some_iff]
  constructor
  · rintro ⟨_, h₁, _, h₂, _, h₃, _, h₄, _, h₅, ⟨⟩⟩
    exact ⟨⟨⟨⟨h₁, h₂⟩, h₃⟩, h₄⟩, h₅⟩
  · rintro ⟨⟨⟨⟨h₁, h₂⟩, h₃⟩, h₄⟩, h₅⟩
    exact ⟨_, h₁, _, h₂, _, h₃, _, h₄, _, h₅, rfl⟩

/-- What a document has to be to describe settings. -/
structure Describes (t : Toml) (s : Settings) : Prop where
  document : t.IsSection
  sections : ∀ home : Section, ∀ part,
    t.field? home.name home.place = some (some part) → part.IsSection
  leftOut : ∀ f ∈ Field.all, f.LeftOut t → f.get s = f.get {}
  given : ∀ f ∈ Field.all, ∀ v, f.Given t v → f.read v = some (f.get s)

/-- Every section has a field. -/
theorem exists_home (home : Section) : ∃ f ∈ Field.all, f.home = home := by
  cases home <;>
    simp [Field.all, Field.http, Field.retry, Field.rateLimit, Field.stream, Field.logging]

theorem ofToml?_eq_some_iff_describes : ofToml? t = some s ↔ Describes t s := by
  rw [ofToml?_eq_some_iff]
  constructor
  · intro h
    have hfield (f : Field) (hf : f ∈ Field.all) :
        (f.LeftOut t ∧ f.get s = f.get {}) ∨ ∃ v, f.Given t v ∧ f.read v = some (f.get s) :=
      Field.value?_eq_some_iff.mp (h f hf)
    refine ⟨?_, fun home part hpart => ?_, fun f hf hleft => ?_, fun f hf v hv => ?_⟩
    · obtain ⟨f, hf, -⟩ := exists_home .http
      rcases hfield f hf with ⟨hnone | ⟨part, hpart, -⟩, -⟩ | ⟨-, ⟨part, hpart, -⟩, -⟩
      · exact Toml.isSection_of_field? (Option.isSome_of_eq_some hnone)
      · exact Toml.isSection_of_field? (Option.isSome_of_eq_some hpart)
      · exact Toml.isSection_of_field? (Option.isSome_of_eq_some hpart)
    · obtain ⟨f, hf, rfl⟩ := exists_home home
      rcases hfield f hf with ⟨hnone | ⟨part', hpart', hnone⟩, -⟩ | ⟨v, ⟨part', hpart', hv⟩, -⟩
      · rw [hpart] at hnone
        cases hnone
      · obtain rfl : part = part' := by simpa [hpart] using hpart'
        exact Toml.isSection_of_field? (Option.isSome_of_eq_some hnone)
      · obtain rfl : part = part' := by simpa [hpart] using hpart'
        exact Toml.isSection_of_field? (Option.isSome_of_eq_some hv)
    · rcases hfield f hf with ⟨-, hdefault⟩ | ⟨v, hv, -⟩
      · exact hdefault
      · exact absurd hv hleft.not_given
    · rcases hfield f hf with ⟨hleft, -⟩ | ⟨v', hv', hread⟩
      · exact absurd hv hleft.not_given
      · rwa [hv.eq hv']
  · intro h f hf
    rw [Field.value?_eq_some_iff]
    rcases Field.leftOut_or_given h.document (h.sections f.home) with hleft | ⟨v, hv⟩
    · exact .inl ⟨hleft, h.leftOut f hf hleft⟩
    · exact .inr ⟨v, hv, h.given f hf v hv⟩

/-- A document without settings describes the defaults. -/
theorem ofToml?_of_leftOut (h : ∀ f ∈ Field.all, f.LeftOut t) : ofToml? t = some {} :=
  ofToml?_eq_some_iff.mpr fun f hf => Field.value?_eq_some_iff.mpr (.inl ⟨h f hf, rfl⟩)

/-- A key that names no section or field, added to a document. -/
inductive Extends : Toml → Toml → Prop
  | document {l r : List (String × Toml)} {k : String} {v : Toml}
      (h : ∀ home : Section, home.name ≠ k) : Extends (.table (l ++ r)) (.table (l ++ (k, v) :: r))
  | part {home : Section} {l r l' r' : List (String × Toml)} {k : String} {v : Toml}
      (h : ∀ f ∈ Field.all, f.home = home → f.name ≠ k) :
      Extends (.table (l ++ (home.name, .table (l' ++ r')) :: r))
        (.table (l ++ (home.name, .table (l' ++ (k, v) :: r')) :: r))

/-- Unknown keys change no field. -/
theorem Extends.value?_eq (h : Extends t t') {f : Field} (hf : f ∈ Field.all) :
    f.value? t' = f.value? t := by
  cases h with
  | document hk => rw [Field.value?, Field.value?, Toml.fieldOr_table, Toml.fieldOr_table,
      findEntry_insert_of_ne (hk f.home)]
  | @part home l r l' r' k v hk =>
    rw [Field.value?, Field.value?, Toml.fieldOr_table, Toml.fieldOr_table]
    rcases findEntry_change f.home.name home.name (.table (l' ++ r'))
      (.table (l' ++ (k, v) :: r')) l r with hsame | ⟨hhome, hold, hnew⟩
    · rw [hsame]
    · have hne : f.name ≠ k := hk f hf (Section.name_injective hhome)
      simp only [hold, hnew, Toml.fieldOr_table, findEntry_insert_of_ne hne]

theorem Extends.ofToml?_eq (h : Relation.ReflTransGen Extends t t') : ofToml? t' = ofToml? t := by
  induction h with
  | refl => rfl
  | tail _ hstep ih =>
    rw [← ih]
    refine Option.ext fun s => ?_
    simp only [ofToml?_eq_some_iff]
    exact forall₂_congr fun f hf => by rw [hstep.value?_eq hf]

end Settings

end Uplink

import Uplink.Proofs.Call.Headers
import Uplink.Proofs.Registry.Origin

/-! The headers of opening handshakes. Every dial of a registry, the first of a stream and those
after it, is made with the headers that a caller asked for. Of headers whose names differ only in
case a handshake carries the last, so that the order in which they are enumerated tells which of
them reaches the far end. -/

namespace Uplink.Stream

namespace Handshake

/-- The fields after a caller's headers are set, in some order. -/
def setAll (fields : KeyMap String) (order : List (String × String)) : KeyMap String :=
  (order.map fun h => (Header.lower h.1, h.2)).foldl (fun m h => m.insert h.1 h.2) fields

/-- The value of the last header with a name in small letters. -/
def lastValue? (order : List (String × String)) (name : String) : Option String :=
  (order.reverse.find? fun h => Header.lower h.1 == name).map Prod.snd

/-- The handshake for an address carries a header, in whichever order a caller's headers are
enumerated. -/
def AlwaysCarries (key address : String) (headers : KeyMap String) (name value : String) : Prop :=
  ∀ order, order.Perm headers.entries →
    ∃ h, prepare key address order = .ok h ∧ h.carries name value = true

/-- The text of a value is plain ASCII. -/
def IsPlain (value : String) : Prop := ∀ c ∈ value.toList, c.toNat < 0x80

variable {fields : KeyMap String} {order order' : List (String × String)} {headers : KeyMap String}
  {h bare : Handshake} {key text name value problem : String} {e : String × String}

/-! ### Fields -/

theorem get?_setAll : (setAll fields order).get? name = (lastValue? order name).or
    (fields.get? name) := by
  rw [setAll, KeyMap.get?_foldl_insert, ← List.map_reverse, List.find?_map, Option.map_map]
  rfl

theorem lastValue?_eq_some (hlast : lastValue? order name = some value) :
    ∃ f ∈ order, Header.lower f.1 = name ∧ f.2 = value := by
  obtain ⟨f, hf, rfl⟩ := Option.map_eq_some_iff.mp hlast
  have hname := List.find?_some hf
  exact ⟨f, List.mem_reverse.mp (List.mem_of_find?_eq_some hf), beq_iff_eq.mp hname, rfl⟩

theorem exists_lastValue? (he : e ∈ order) :
    ∃ value, lastValue? order (Header.lower e.1) = some value := by
  have hfound : (order.reverse.find? fun h => Header.lower h.1 == Header.lower e.1).isSome := by
    rw [List.find?_isSome]
    exact ⟨e, List.mem_reverse.mpr he, beq_self_eq_true _⟩
  obtain ⟨f, hf⟩ := Option.isSome_iff_exists.mp hfound
  exact ⟨f.2, by rw [lastValue?, hf, Option.map_some]⟩

theorem lastValue?_concat (order : List (String × String)) (e : String × String) :
    lastValue? (order ++ [e]) (Header.lower e.1) = some e.2 := by
  simp [lastValue?]

/-- The order of headers does not matter if those of the same name have the same value. -/
theorem lastValue?_perm (hperm : order'.Perm order)
    (hsame : ∀ e ∈ order, ∀ f ∈ order, Header.SameName e.1 f.1 → e.2 = f.2) (name : String) :
    lastValue? order' name = lastValue? order name := by
  cases hlast : lastValue? order' name with
  | some value =>
    obtain ⟨e, he, rfl, rfl⟩ := lastValue?_eq_some hlast
    have he' := hperm.mem_iff.mp he
    obtain ⟨value, hvalue⟩ := exists_lastValue? he'
    obtain ⟨f, hf, hname, rfl⟩ := lastValue?_eq_some hvalue
    rw [hvalue, hsame e he' f hf (Header.lower_eq_lower_iff.mp hname.symm)]
  | none =>
    cases hlast' : lastValue? order name with
    | none => rfl
    | some value =>
      obtain ⟨e, he, rfl, -⟩ := lastValue?_eq_some hlast'
      obtain ⟨value', hvalue'⟩ := exists_lastValue? (hperm.mem_iff.mpr he)
      rw [hvalue'] at hlast
      cases hlast

theorem setHeaders_of_fields
    (hvalid : ∀ e ∈ order, Header.isName e.1 = true ∧ Header.isValue e.2 = true) :
    setHeaders fields order = .ok (setAll fields order) := by
  induction order generalizing fields with
  | nil => rfl
  | cons e rest ih =>
    obtain ⟨he, hrest⟩ := List.forall_mem_cons.mp hvalid
    rw [setHeaders, Header.problem?_eq_none_iff.mpr he]
    exact ih hrest

theorem fields_of_setHeaders {set : KeyMap String} (h : setHeaders fields order = .ok set) :
    ∀ e ∈ order, Header.isName e.1 = true ∧ Header.isValue e.2 = true := by
  induction order generalizing fields with
  | nil => simp
  | cons e rest ih =>
    rw [setHeaders] at h
    split at h
    · cases h
    · next hnone =>
      exact List.forall_mem_cons.mpr ⟨Header.problem?_eq_none_iff.mp hnone, ih h⟩

/-- Headers can be enumerated with any of them at the end, so that its value is the last of its
name. -/
theorem exists_order_ending (he : e ∈ order) :
    ∃ order', order'.Perm order ∧ lastValue? order' (Header.lower e.1) = some e.2 :=
  ⟨order.erase e ++ [e], (List.perm_append_singleton e _).trans (List.perm_cons_erase he).symm,
    lastValue?_concat _ e⟩

/-! ### Handshakes -/

theorem carries_iff :
    h.carries name value = true ↔ h.fields.get? (Header.lower name) = some value :=
  decide_eq_true_iff

/-- A handshake that can be prepared with some headers can be prepared with none, and with any that
are fields; it has the fields that come of setting them in turn. -/
theorem prepare_of_fields (hprepare : prepare key text order' = .ok h) (key' : String) :
    (∀ e ∈ order', Header.isName e.1 = true ∧ Header.isValue e.2 = true) ∧
    ∃ bare, prepare key' text [] = .ok bare ∧ ∀ order : List (String × String),
      (∀ e ∈ order, Header.isName e.1 = true ∧ Header.isValue e.2 = true) →
        prepare key' text order = .ok { bare with fields := setAll bare.fields order } := by
  unfold prepare at hprepare ⊢
  split at hprepare
  · cases hprepare
  · next address haddress =>
    split at hprepare
    · cases hprepare
    · cases hprepare
    · next authority hne hauthority =>
      cases hset : setHeaders (ownFields authority key) order' with
      | error problem =>
        rw [hset] at hprepare
        cases hprepare
      | ok set =>
        cases hport : address.port? with
        | none =>
          simp only [hset, hport] at hprepare
          cases hprepare
        | some port =>
          refine ⟨fields_of_setHeaders hset,
            ⟨address, authority, port, ownFields authority key'⟩, rfl, fun order hvalid => ?_⟩
          rw [setHeaders_of_fields hvalid]
          rfl

/-- Plain values do not keep a handshake from being written. -/
theorem problem?_setAll (hbare : bare.problem? = none) (hplain : ∀ e ∈ order, IsPlain e.2) :
    ({ bare with fields := setAll bare.fields order } : Handshake).problem? = none := by
  unfold problem? at hbare ⊢
  split at hbare
  · cases hbare
  · next hscheme =>
    split at hbare
    · next hown =>
      rw [if_neg hscheme, if_pos]
      refine List.all_eq_true.mpr fun e he => ?_
      have hget := KeyMap.get?_eq_some_iff.mpr he
      rw [get?_setAll, Option.or_eq_some_iff] at hget
      rcases hget with hlast | ⟨-, hget⟩
      · obtain ⟨f, hf, -, hvalue⟩ := lastValue?_eq_some hlast
        refine List.all_eq_true.mpr fun c hc => decide_eq_true ?_
        exact hplain f hf c (hvalue ▸ hc)
      · exact List.all_eq_true.mp hown e (KeyMap.get?_eq_some_iff.mp hget)
    · cases hbare

section Prepared

variable (hentries : prepare key text headers.entries = .ok h)
include hentries

/-- In any order of a caller's headers, the handshake has the last of each name, and its own fields
of all other names; it can be written if all of them are plain. -/
theorem prepare_of_perm (key' : String) : ∃ bare, prepare key' text [] = .ok bare ∧
    ∀ order, order.Perm headers.entries → ∃ sent, prepare key' text order = .ok sent ∧
      (∀ name, sent.fields.get? name = (lastValue? order name).or (bare.fields.get? name)) ∧
      (bare.problem? = none → (∀ e ∈ headers.entries, IsPlain e.2) → sent.problem? = none) := by
  obtain ⟨hvalid, bare, hbare, hprepare⟩ := prepare_of_fields hentries key'
  refine ⟨bare, hbare, fun order hperm => ⟨_, hprepare order fun e he =>
    hvalid e (hperm.mem_iff.mp he), fun name => get?_setAll, fun hnone hplain => ?_⟩⟩
  exact problem?_setAll hnone fun e he => hplain e (hperm.mem_iff.mp he)

/-- A header of a caller is carried in every order if and only if no other of its name has another
value. -/
theorem alwaysCarries_iff (key' : String) (he : e ∈ headers.entries) :
    AlwaysCarries key' text headers e.1 e.2 ↔
      ∀ f ∈ headers.entries, Header.SameName f.1 e.1 → f.2 = e.2 := by
  obtain ⟨bare, -, hprepare⟩ := prepare_of_perm hentries key'
  constructor
  · intro halways f hf hsame
    obtain ⟨order, hperm, hlast⟩ := exists_order_ending hf
    obtain ⟨sent, hsent, hfields, -⟩ := hprepare order hperm
    obtain ⟨sent', hsent', hcarries⟩ := halways order hperm
    cases hsent.symm.trans hsent'
    rw [carries_iff, ← Header.lower_eq_lower_iff.mpr hsame, hfields, hlast, Option.some_or]
      at hcarries
    exact Option.some.inj hcarries
  · intro hsame order hperm
    obtain ⟨sent, hsent, hfields, -⟩ := hprepare order hperm
    obtain ⟨value, hvalue⟩ := exists_lastValue? (hperm.mem_iff.mpr he)
    obtain ⟨f, hf, hname, rfl⟩ := lastValue?_eq_some hvalue
    refine ⟨sent, hsent, carries_iff.mpr ?_⟩
    rw [hfields, hvalue, Option.some_or,
      hsame f (hperm.mem_iff.mp hf) (Header.lower_eq_lower_iff.mp hname)]

/-- The order of a caller's headers does not matter if and only if those of the same name have the
same value. -/
theorem prepare_perm_iff (key' : String) :
    (∀ order, order.Perm headers.entries →
      prepare key' text order = prepare key' text headers.entries) ↔
      ∀ e ∈ headers.entries, ∀ f ∈ headers.entries, Header.SameName e.1 f.1 → e.2 = f.2 := by
  obtain ⟨hvalid, bare, -, hprepare⟩ := prepare_of_fields hentries key'
  constructor
  · intro hany e he f hf hsame
    obtain ⟨order, hperm, hlast⟩ := exists_order_ending he
    obtain ⟨order', hperm', hlast'⟩ := exists_order_ending hf
    have heq := (hany order hperm).trans (hany order' hperm').symm
    rw [hprepare order fun e he => hvalid e (hperm.mem_iff.mp he),
      hprepare order' fun e he => hvalid e (hperm'.mem_iff.mp he)] at heq
    have hget := congrArg (fun h => h.fields.get? (Header.lower e.1)) (Except.ok.inj heq)
    simp only [get?_setAll] at hget
    rw [hlast, Header.lower_eq_lower_iff.mpr hsame, hlast', Option.some_or, Option.some_or] at hget
    exact Option.some.inj hget
  · intro hsame order hperm
    rw [hprepare order fun e he => hvalid e (hperm.mem_iff.mp he), hprepare _ hvalid]
    congr 2
    refine KeyMap.ext_get? fun name => ?_
    rw [get?_setAll, get?_setAll, lastValue?_perm hperm hsame]

end Prepared

end Handshake

namespace Registry

open Handshake

/-- What a registry dials: the address of a call, or that of a stream that has lost its socket. -/
inductive Dials (r : Registry) : String → StreamSettings → Prop where
  | first {n : Nat} {address : String} {settings : StreamSettings} {since : Instant} :
      r.point? n = some (.dialing address settings since) → Dials r address settings
  | again {c : Connection} {since : Instant} : c ∈ r.connections →
      c.reader.point = .dialing since → Dials r c.address c.settings

variable {schedule : Schedule} {epoch : Int} {r : Registry} {history : List Event}
  {address : String} {settings : StreamSettings}

theorem Run.sought_of_dials (h : Run schedule epoch r history) (hdials : r.Dials address settings) :
    Sought history address settings := by
  cases hdials with
  | first hpoint => exact h.sought_of_dialing hpoint
  | again hc => exact h.sought_of_stream hc

/-- A dial, the first of a stream or a later one, is made with the headers that a caller asked for.
In whichever order they are enumerated, the handshake can be prepared and has the last header of
each name besides its own fields, and it is written if it would be without headers and their values
are plain. A header is carried in every order if and only if no other of its name in any case has
another value, and the order does not matter at all if and only if that is so for every header. -/
theorem Run.dial_carries_headers (h : Run schedule epoch r history)
    (hdials : r.Dials address settings) (key : String) :
    (∃ n, .called n (.connect address settings) ∈ history) ∧
    (∃ bare, prepare key address [] = .ok bare ∧
      ∀ order, order.Perm settings.headers.entries → ∃ sent, prepare key address order = .ok sent ∧
        (∀ name, sent.fields.get? name = (lastValue? order name).or (bare.fields.get? name)) ∧
        (bare.problem? = none → (∀ e ∈ settings.headers.entries, IsPlain e.2) →
          sent.problem? = none)) ∧
    (∀ e ∈ settings.headers.entries, AlwaysCarries key address settings.headers e.1 e.2 ↔
      ∀ f ∈ settings.headers.entries, Header.SameName f.1 e.1 → f.2 = e.2) ∧
    ((∀ order, order.Perm settings.headers.entries →
        prepare key address order = prepare key address settings.headers.entries) ↔
      ∀ e ∈ settings.headers.entries, ∀ f ∈ settings.headers.entries,
        Header.SameName e.1 f.1 → e.2 = f.2) := by
  have hsought := h.sought_of_dials hdials
  obtain ⟨-, sent, hsent⟩ := dialProblem?_eq_none_iff.mp hsought.canDial
  exact ⟨hsought.called, prepare_of_perm hsent key, fun e he => alwaysCarries_iff hsent key he,
    prepare_perm_iff hsent key⟩

/-- Settings with one header and without pings. -/
def keyed : StreamSettings :=
  { headers := KeyMap.insert ∅ "X-Key" "k", pingIntervalMs := 0 }

/-- A stream is opened, loses its socket and dials again. -/
def redialMoves (settings : StreamSettings) : List Move :=
  openMoves settings ++ [.stream 0 (.step .reader .readEnded), .stream 0 (.step .reader .go),
    .stream 0 (.step .reader .go), .stream 0 (.step .reader .suspend),
    .stream 0 (.step .reader .written), .stream 0 (.step .reader .suspend), .elapse 5000000000,
    .stream 0 (.step .reader .go), .stream 0 (.step .reader .go),
    .stream 0 (.step .reader .suspend)]

theorem always_carries_on_redial : ∃ r history, Run .punctual 0 r history ∧
    r.Dials "ws://host/" keyed ∧ AlwaysCarries "key" "ws://host/" keyed.headers "X-Key" "k" := by
  obtain ⟨r, history, c, hrun, hc, hpoint, haddress, hsettings⟩ : ∃ r history c,
      Run .punctual 0 r history ∧ r.connections[0]? = some c ∧
        c.reader.point = .dialing 5000000000 ∧ c.address = "ws://host/" ∧ c.settings = keyed :=
    ⟨_, _, _, Reaches.of_follow? (redialMoves keyed) .refl rfl, rfl, rfl, rfl, rfl⟩
  have hdials : r.Dials c.address c.settings := .again (List.mem_of_getElem? hc) hpoint
  rw [haddress, hsettings] at hdials
  have hentries : keyed.headers.entries = [("X-Key", "k")] := by decide +kernel
  obtain ⟨-, -, halways, -⟩ := hrun.dial_carries_headers hdials "key"
  refine ⟨r, history, hrun, hdials, (halways ("X-Key", "k") (hentries ▸ .head _)).mpr ?_⟩
  intro f hf _
  rw [hentries] at hf
  rw [List.mem_singleton.mp hf]

/-- Settings with two headers whose names differ only in case. -/
def twoNames : StreamSettings :=
  { headers := (KeyMap.insert ∅ "X-Key" "a").insert "x-key" "b", pingIntervalMs := 0 }

/-- Of two headers whose names differ only in case neither is carried in every order, so that the
order tells which of them the far end gets. -/
theorem dial_loses_header_of_same_name : ∃ r history, Run .punctual 0 r history ∧
    r.Dials "ws://host/" twoNames ∧
    (∀ e ∈ twoNames.headers.entries, Header.isName e.1 = true ∧ Header.isValue e.2 = true) ∧
    ¬AlwaysCarries "key" "ws://host/" twoNames.headers "X-Key" "a" ∧
    ¬AlwaysCarries "key" "ws://host/" twoNames.headers "x-key" "b" ∧
    ¬∀ order, order.Perm twoNames.headers.entries →
      prepare "key" "ws://host/" order = prepare "key" "ws://host/" twoNames.headers.entries := by
  obtain ⟨r, history, hrun, hpoint⟩ : ∃ r history, Run .punctual 0 r history ∧
      r.point? 0 = some (.dialing "ws://host/" twoNames 0) :=
    ⟨_, _, Reaches.of_follow? ((openMoves twoNames).take 4) .refl rfl, rfl⟩
  obtain ⟨-, sent, hsent⟩ :=
    dialProblem?_eq_none_iff.mp (hrun.sought_of_dialing hpoint).canDial
  have hentries : twoNames.headers.entries = [("X-Key", "a"), ("x-key", "b")] := by decide +kernel
  have hfirst : ("X-Key", "a") ∈ twoNames.headers.entries := hentries ▸ .head _
  have hsecond : ("x-key", "b") ∈ twoNames.headers.entries := hentries ▸ .tail _ (.head _)
  have hlower : Header.lower "X-Key" = "x-key" := by decide +kernel
  have hlower' : Header.lower "x-key" = "x-key" := by decide +kernel
  have hsame : Header.SameName "X-Key" "x-key" :=
    Header.lower_eq_lower_iff.mp (hlower.trans hlower'.symm)
  have hsame' : Header.SameName "x-key" "X-Key" :=
    Header.lower_eq_lower_iff.mp (hlower'.trans hlower.symm)
  refine ⟨r, history, hrun, .first hpoint, ?_, ?_, ?_, ?_⟩
  · rw [hentries]
    decide +kernel
  · rw [alwaysCarries_iff hsent "key" hfirst]
    exact fun hvalues => absurd (hvalues _ hsecond hsame') (by decide)
  · rw [alwaysCarries_iff hsent "key" hsecond]
    exact fun hvalues => absurd (hvalues _ hfirst hsame) (by decide)
  · rw [prepare_perm_iff hsent "key"]
    exact fun hvalues => absurd (hvalues _ hfirst _ hsecond hsame) (by decide)

end Registry

end Uplink.Stream

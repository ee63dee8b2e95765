import Uplink.Stream.Registry.Step

/-! Calls on a registry, one after another: each call gets a turn at a plain map from addresses to
streams, acts on what the map and the streams' own liveness give it, and leaves the next map. -/

namespace Uplink.Stream.Registry

/-- What a call acts on. -/
inductive Target where
  | connection (id : ConnectionId)
  | connections (ids : List ConnectionId)
  | nothing
  /-- Nothing is there, and the call says so. -/
  | notFound (address : String)
  /-- The call dials, and its dial has not succeeded. -/
  | undialed
deriving DecidableEq

/-- A plain map, and the number of streams opened so far. -/
structure Plain where
  tracked : KeyMap ConnectionId
  opened : Nat

/-- The turn in which a call acts. -/
structure ActingTurn where
  /-- The place in the history where the turn is noted. -/
  place : Nat
  caller : Nat
  call : Call
  /-- Which streams are live at that moment. -/
  live : ConnectionId → Bool

/-- Whether a turn takes a stream away from its address: the address is closed, or is to be
connected and the stream is live no more. -/
def ActingTurn.Removes (t : ActingTurn) (address : String) (id : ConnectionId) : Prop :=
  t.call = .close address ∨ t.call = .closeAll ∨
    ∃ settings, t.call = .connect address settings ∧ t.live id = false

namespace Plain

def empty : Plain := ⟨∅, 0⟩

/-- The tracked stream of an address, if it is live. -/
def live? (p : Plain) (live : ConnectionId → Bool) (address : String) : Option ConnectionId :=
  (p.tracked.get? address).filter live

/-- Whether a call dials. -/
def dials (p : Plain) (live : ConnectionId → Bool) : Call → Bool
  | .connect address _ => (p.live? live address).isNone
  | _ => false

/-- What a call acts on; `opens` says whether its dial succeeds, if it dials. -/
def target (p : Plain) (live : ConnectionId → Bool) (opens : Bool) : Call → Target
  | .connect address _ =>
    match p.live? live address with
    | some id => .connection id
    | none => if opens then .connection p.opened else .undialed
  | .get address =>
    match p.tracked.get? address with
    | some id => .connection id
    | none => .nothing
  | .subscribe address _ | .send address _ =>
    match p.live? live address with
    | some id => .connection id
    | none => .notFound address
  | .close address =>
    match p.tracked.get? address with
    | some id => .connections [id]
    | none => .notFound address
  | .closeAll => .connections (p.tracked.entries.map Prod.snd)

/-- What a call has streams do in its turn. -/
def moves (p : Plain) (live : ConnectionId → Bool) : Call → List (ConnectionId × Connection.Move)
  | .connect address _ =>
    match p.tracked.get? address with
    | some id => if live id then [] else [(id, .close)]
    | none => []
  | .get _ => []
  | .subscribe address topic => ((p.live? live address).map (·, .subscribe topic)).toList
  | .send address message => ((p.live? live address).map (·, .send message)).toList
  | .close address => ((p.tracked.get? address).map (·, .close)).toList
  | .closeAll => (p.tracked.entries.map Prod.snd).map (·, .close)

/-- The map after a call. -/
def perform (p : Plain) (live : ConnectionId → Bool) (opens : Bool) : Call → Plain
  | .connect address _ =>
    match p.live? live address with
    | some _ => p
    | none =>
      if opens then ⟨p.tracked.insert address p.opened, p.opened + 1⟩
      else { p with tracked := p.tracked.erase address }
  | .get _ | .subscribe .. | .send .. => p
  | .close address => { p with tracked := p.tracked.erase address }
  | .closeAll => { p with tracked := ∅ }

/-- The map after some turns; `opens` says which callers' dials succeed. -/
def follow (opens : Nat → Bool) (p : Plain) (turns : List ActingTurn) : Plain :=
  turns.foldl (fun p t => p.perform t.live (opens t.caller) t.call) p

variable {p : Plain} {live : ConnectionId → Bool} {opens opens' : Nat → Bool} {address : String}
  {settings : StreamSettings} {id : ConnectionId} {turns : List ActingTurn} {t : ActingTurn}

@[simp] theorem follow_nil : p.follow opens [] = p := rfl

@[simp] theorem follow_cons : p.follow opens (t :: turns) =
    (p.perform t.live (opens t.caller) t.call).follow opens turns := rfl

theorem follow_append (more : List ActingTurn) :
    p.follow opens (turns ++ more) = (p.follow opens turns).follow opens more := List.foldl_append

theorem follow_snoc : p.follow opens (turns ++ [t]) =
    (p.follow opens turns).perform t.live (opens t.caller) t.call := follow_append [t]

/-- Only the dials of callers who have had their turns matter. -/
theorem follow_congr (h : ∀ t ∈ turns, opens t.caller = opens' t.caller) :
    p.follow opens turns = p.follow opens' turns := by
  induction turns generalizing p with
  | nil => rfl
  | cons t rest ih =>
    rw [follow_cons, follow_cons, h t List.mem_cons_self]
    exact ih fun u hu => h u (List.mem_cons_of_mem _ hu)

theorem dials_connect :
    p.dials live (.connect address settings) = (p.live? live address).isNone := rfl

theorem live?_eq_none (h : p.tracked.get? address = none) : p.live? live address = none := by
  rw [live?, h]
  rfl

theorem live?_eq_some (h : p.tracked.get? address = some id) (hlive : live id = true) :
    p.live? live address = some id := by
  rw [live?, h, Option.filter_some, if_pos hlive]

/-- Every stream in the map has been opened. -/
def Opened (p : Plain) : Prop := ∀ address id, p.tracked.get? address = some id → id < p.opened

theorem Opened.perform (h : p.Opened) (opens : Bool) (call : Call) :
    (p.perform live opens call).Opened := by
  intro a i hget
  cases call with
  | connect address settings =>
    rw [Plain.perform] at hget ⊢
    split at hget
    · exact h a i hget
    · split at hget
      · rw [KeyMap.get?_insert] at hget
        rw [if_pos ‹_›]
        split at hget
        · cases hget
          exact Nat.lt_succ_self _
        · exact Nat.lt_succ_of_lt (h a i hget)
      · rw [KeyMap.get?_erase] at hget
        rw [if_neg ‹_›]
        split at hget
        · cases hget
        · exact h a i hget
  | close address =>
    rw [Plain.perform, KeyMap.get?_erase] at hget
    split at hget
    · cases hget
    · exact h a i hget
  | closeAll => cases hget
  | get address | subscribe address topic | send address message => exact h a i hget

theorem Opened.follow (h : p.Opened) (opens : Nat → Bool) (turns : List ActingTurn) :
    (p.follow opens turns).Opened := by
  induction turns generalizing p with
  | nil => exact h
  | cons t rest ih => exact ih (h.perform _ _)

theorem Opened.empty : empty.Opened := by
  intro address id hget
  cases hget

/-! ### One address -/

/-- A stream stays tracked until a turn removes it. -/
theorem get?_perform (h : p.tracked.get? address = some id) (hkeep : ¬t.Removes address id)
    (opens : Bool) : (p.perform t.live opens t.call).tracked.get? address = some id := by
  have hclose : t.call ≠ .close address := fun hcall => hkeep (.inl hcall)
  have hcloseAll : t.call ≠ .closeAll := fun hcall => hkeep (.inr (.inl hcall))
  cases hcall : t.call with
  | connect a s =>
    by_cases ha : a = address
    · subst ha
      have hlive : t.live id = true := by
        rw [← Bool.not_eq_false]
        exact fun hdead => hkeep (.inr (.inr ⟨s, hcall, hdead⟩))
      rw [perform, live?_eq_some h hlive]
      exact h
    · rw [perform]
      split
      · exact h
      · split
        · rw [KeyMap.get?_insert, if_neg (Ne.symm ha), h]
        · rw [KeyMap.get?_erase, if_neg (Ne.symm ha), h]
  | close a =>
    have ha : address ≠ a := fun ha => hclose (ha ▸ hcall)
    rw [perform, KeyMap.get?_erase, if_neg ha, h]
  | closeAll => exact absurd hcall hcloseAll
  | get a | subscribe a topic | send a message => exact h

/-- No turn puts a stream at an address, unless a dial for it succeeds. -/
theorem get?_perform_eq_none (h : p.tracked.get? address = none) {opens : Bool}
    (hopens : ∀ settings, t.call = .connect address settings → opens = false) :
    (p.perform t.live opens t.call).tracked.get? address = none := by
  cases hcall : t.call with
  | connect a s =>
    rw [perform]
    split
    · exact h
    · split
      · next hopen =>
        have ha : address ≠ a := by
          rintro rfl
          rw [hopens s hcall] at hopen
          cases hopen
        rw [KeyMap.get?_insert, if_neg ha, h]
      · rw [KeyMap.get?_erase, h, ite_self]
  | close a => rw [perform, KeyMap.get?_erase, h, ite_self]
  | closeAll => rfl
  | get a | subscribe a topic | send a message => exact h

/-- Until one of some turns removes it, a stream is tracked. -/
theorem get?_follow (opens : Nat → Bool) (turns : List ActingTurn)
    (h : p.tracked.get? address = some id) :
    (p.follow opens turns).tracked.get? address = some id ∨
      ∃ before t after, turns = before ++ t :: after ∧
        (p.follow opens before).tracked.get? address = some id ∧ t.Removes address id := by
  induction turns generalizing p with
  | nil => exact .inl h
  | cons t rest ih =>
    by_cases hremoves : t.Removes address id
    · exact .inr ⟨[], t, rest, rfl, h, hremoves⟩
    · rcases ih (get?_perform h hremoves (opens t.caller)) with hstill | hlater
      · exact .inl hstill
      · obtain ⟨before, u, after, rfl, hget, hu⟩ := hlater
        exact .inr ⟨t :: before, u, after, rfl, hget, hu⟩

/-- A dial that succeeds puts its stream at the address. -/
theorem get?_perform_of_dials (hcall : t.call = .connect address settings)
    (hdials : p.dials t.live t.call = true) :
    (p.perform t.live true t.call).tracked.get? address = some p.opened := by
  rw [hcall, dials_connect, Option.isNone_iff_eq_none] at hdials
  rw [hcall, perform, hdials]
  simp [KeyMap.get?_insert]

/-- Once a dial for an address has succeeded, nobody dials it again before its stream is closed, or
found not to be live. -/
theorem removes_of_dials {mid : List ActingTurn} {u : ActingTurn} {settings' : StreamSettings}
    (hcall : t.call = .connect address settings) (hdials : p.dials t.live t.call = true)
    (hopens : opens t.caller = true) (hcall' : u.call = .connect address settings')
    (hdials' : (p.follow opens (t :: mid)).dials u.live u.call = true) :
    ∃ before v after, mid ++ [u] = before ++ v :: after ∧
      (p.follow opens (t :: before)).tracked.get? address = some p.opened ∧
      v.Removes address p.opened := by
  have hget := get?_perform_of_dials hcall hdials
  rw [← hopens] at hget
  rcases get?_follow opens mid hget with hstill | hremoved
  · refine ⟨mid, u, [], rfl, hstill, .inr (.inr ⟨settings', hcall', ?_⟩)⟩
    rw [← Bool.not_eq_true]
    intro hlive
    rw [hcall', dials_connect, follow_cons, live?_eq_some hstill hlive] at hdials'
    cases hdials'
  · obtain ⟨before, v, after, rfl, hbefore, hv⟩ := hremoved
    exact ⟨before, v, after ++ [u], by simp, hbefore, hv⟩

/-- Some turns that never take a stream away from an address. -/
def Keeps (opens : Nat → Bool) (p : Plain) (turns : List ActingTurn) (address : String) : Prop :=
  ∀ before t after id, turns = before ++ t :: after →
    (p.follow opens before).tracked.get? address = some id → ¬t.Removes address id

theorem Keeps.prefix {more : List ActingTurn} (h : Keeps opens p (turns ++ more) address) :
    Keeps opens p turns address :=
  fun before t after id heq => h before t (after ++ more) id (by rw [heq]; simp)

theorem Keeps.suffix {more : List ActingTurn} (h : Keeps opens p (turns ++ more) address) :
    Keeps opens (p.follow opens turns) more address := by
  intro before t after id heq hget
  refine h (turns ++ before) t after id (by rw [heq]; simp) ?_
  rwa [follow_append]

theorem Keeps.get?_follow (h : Keeps opens p turns address)
    (hget : p.tracked.get? address = some id) :
    (p.follow opens turns).tracked.get? address = some id := by
  rcases Plain.get?_follow opens turns hget with hstill | hremoved
  · exact hstill
  · obtain ⟨before, t, after, heq, hbefore, hremoves⟩ := hremoved
    exact absurd hremoves (h before t after id heq hbefore)

/-- An address without a stream has none until a dial for it succeeds. -/
theorem get?_follow_eq_none (h : p.tracked.get? address = none)
    (hopens : ∀ t ∈ turns, (∃ settings, t.call = .connect address settings) →
      opens t.caller = false) : (p.follow opens turns).tracked.get? address = none := by
  induction turns generalizing p with
  | nil => exact h
  | cons t rest ih =>
    refine ih (get?_perform_eq_none h fun settings hcall => ?_) fun u hu =>
      hopens u (List.mem_cons_of_mem _ hu)
    exact hopens t List.mem_cons_self ⟨settings, hcall⟩

/-- While a stream that is tracked is not taken away, a call dials if and only if nothing is
tracked. -/
theorem Keeps.dials_iff {before after : List ActingTurn}
    (h : Keeps opens p (before ++ t :: after) address)
    (hcall : t.call = .connect address settings) :
    (p.follow opens before).dials t.live t.call = true ↔
      (p.follow opens before).tracked.get? address = none := by
  rw [hcall, dials_connect, Option.isNone_iff_eq_none]
  constructor
  · intro hdials
    rw [Option.eq_none_iff_forall_ne_some]
    intro id hget
    have hlive : t.live id = true := by
      rw [← Bool.not_eq_false]
      exact fun hdead => h before t after id rfl hget (.inr (.inr ⟨settings, hcall, hdead⟩))
    rw [live?_eq_some hget hlive] at hdials
    cases hdials
  · exact live?_eq_none

/-- Calls to connect an address that nothing is tracked for, with no stream taken away meanwhile:
they dial until a dial succeeds and never after, and all get the stream of that dial. -/
theorem Keeps.share (h : Keeps opens p turns address) (hnone : p.tracked.get? address = none)
    (hopens : ∀ before t after, turns = before ++ t :: after → opens t.caller = true →
      (p.follow opens before).dials t.live t.call = true) :
    ∃ id, ∀ before t after settings, turns = before ++ t :: after →
      t.call = .connect address settings →
      ((p.follow opens before).target t.live (opens t.caller) t.call = .connection id ∨
        (p.follow opens before).target t.live (opens t.caller) t.call = .undialed) ∧
      ((p.follow opens before).dials t.live t.call = true ↔
        ∀ u ∈ before, (∃ settings', u.call = .connect address settings') →
          opens u.caller = false) := by
  refine ⟨((p.follow opens turns).tracked.get? address).getD 0, ?_⟩
  intro before t after settings heq hcall
  subst heq
  have hafter := h.suffix
  have hdials := h.dials_iff hcall
  constructor
  · cases hget : (p.follow opens before).tracked.get? address with
    | some id =>
      left
      have hlast := hafter.get?_follow hget
      rw [follow_append, hlast, Option.getD_some]
      have hlive : (p.follow opens before).live? t.live address = some id := by
        refine live?_eq_some hget ?_
        rw [← Bool.not_eq_false]
        exact fun hdead => h before t after id rfl hget (.inr (.inr ⟨settings, hcall, hdead⟩))
      rw [hcall, target, hlive]
    | none =>
      cases hopen : opens t.caller with
      | false =>
        right
        rw [hcall, target, live?_eq_none hget]
        rfl
      | true =>
        left
        have hnew := get?_perform_of_dials hcall (hdials.mpr hget)
        rw [← hopen, ← follow_snoc] at hnew
        have hsplit : before ++ t :: after = (before ++ [t]) ++ after := by simp
        rw [hsplit] at h ⊢
        have hlast := h.suffix.get?_follow hnew
        rw [follow_append, hlast, Option.getD_some, hcall, target, live?_eq_none hget]
        rfl
  · rw [hdials]
    constructor
    · intro hget u hu hconnect
      obtain ⟨settings', hcall'⟩ := hconnect
      rw [← Bool.not_eq_true]
      intro hopen
      obtain ⟨first, later, rfl⟩ := List.append_of_mem hu
      -- The stream of that dial would still be tracked.
      have hdialed := hopens first u (later ++ t :: after) (by simp) hopen
      have hnew := get?_perform_of_dials hcall' hdialed
      rw [← hopen, ← follow_snoc] at hnew
      have hsplit : first ++ u :: later = (first ++ [u]) ++ later := by simp
      rw [hsplit] at h hget
      rw [follow_append, h.prefix.suffix.get?_follow hnew] at hget
      cases hget
    · exact get?_follow_eq_none hnone

end Plain

end Uplink.Stream.Registry

import Mathlib.Data.List.Nodup
import Uplink.Proofs.Registry.Turn
import Uplink.Proofs.Stream.GivingUp
import Uplink.Proofs.Stream.Noted

/-! What calls to send leave behind. A call that was taken on waits for the turn at the write half;
from then on it holds the turn until it returns, so that frames are written in the order of these
turns, to the socket that was in place. A call that is not taken on, or finds no socket in its turn,
changes nothing but its own place. -/

namespace Uplink.Stream

/-- A turn at the write half of a socket that a call to send was given. -/
structure Grant where
  call : CallId
  message : Message
  socket : SocketId
deriving DecidableEq

/-- Whether an event tells of a call to send. -/
def Event.isOfSend : Event → Bool
  | .sendCalled .. | .sendReturned .. | .wrote _ (.data _) => true
  | _ => false

/-- The message of a call to send that has not returned. -/
def SendPoint.message? : SendPoint → Option Message
  | .checking message | .waiting message | .writing message _ _ => some message
  | .returned _ => none

/-- Whether a call to send has been given the write half of a socket. -/
def SendPoint.hasWritten : SendPoint → Bool
  | .writing .. | .returned .sent | .returned .failed | .returned .timedOut => true
  | _ => false

/-- The turn at the write half that a call is given when it goes from one point to another. -/
def SendPoint.grant? (n : CallId) : SendPoint → SendPoint → Option Grant
  | .waiting message, .writing _ socket _ => some ⟨n, message, socket⟩
  | _, _ => none

/-- Only a call that is made to a stream that is live no more fails for that. -/
theorem SendResult.error?_eq_connectionNotFound_iff {result : SendResult} {address : String} :
    result.error? address = some (.connectionNotFound address) ↔ result = .notFound := by
  cases result <;> simp [error?]

namespace Connection

/-- The turn at the write half that a move gives to a call to send. -/
def grant? (c c' : Connection) : Move → Option Grant
  | .step (.send n) _ => (c.sendPoint? n).bind fun p => (c'.sendPoint? n).bind (p.grant? n)
  | _ => none

/-- A stream goes on as in `Reaches`, with the turns at the write half that calls to send are given,
first one first. -/
inductive Granted (schedule : Schedule) (d : Connection) (past : List Event) :
    Connection → List Event → List Grant → Prop where
  | refl : Granted schedule d past d past []
  | move {c₁ c₂ : Connection} {history events : List Event} {grants : List Grant} {m : Move} :
      Granted schedule d past c₁ history grants → c₁.admits schedule m = true →
      c₁.next? m = some (c₂, events) →
      Granted schedule d past c₂ (history ++ events) (grants ++ (c₁.grant? c₂ m).toList)

/-- The messages written to a socket, in order. -/
def dataWritten (s : SocketId) (history : List Event) : List Message :=
  history.filterMap fun
    | .wrote socket (.data message) => if socket = s then some message else none
    | _ => none

/-- The messages of the calls that were given the write half of a socket and returned that they sent
them, in the order of their turns. -/
def messagesSent (c : Connection) (s : SocketId) (grants : List Grant) : List Message :=
  (grants.filter fun g => g.socket = s ∧ c.sendPoint? g.call = some (.returned .sent)).map
    Grant.message

/-- What holds of calls to send between any two moves. -/
structure Sends (c : Connection) (history : List Event) (grants : List Grant) : Prop where
  returned : ∀ n result,
    .sendReturned n result ∈ history ↔ c.sendPoint? n = some (.returned result)
  called_lt : ∀ n message, .sendCalled n message ∈ history → n < c.sends.length
  called : ∀ n p message, c.sendPoint? n = some p → p.message? = some message →
    ∀ message', .sendCalled n message' ∈ history ↔ message' = message
  granted : ∀ g ∈ grants, (∀ message, .sendCalled g.call message ∈ history ↔ message = g.message) ∧
    ∃ p, c.sendPoint? g.call = some p ∧ p.hasWritten = true
  nodup : (grants.map Grant.call).Nodup
  given : ∀ n p, c.sendPoint? n = some p → p.hasWritten = true → ∃ g ∈ grants, g.call = n
  writing : ∀ n message s since, c.sendPoint? n = some (.writing message s since) →
    c.sink = some s ∧ ∃ before, grants = before ++ [⟨n, message, s⟩]
  data : ∀ s, dataWritten s history = c.messagesSent s grants

/-- How a call to send that was made after some events stands, by whether the stream was live
then. -/
inductive Answered (s : State) (c : Connection) (n : CallId) (message : Message)
    (before after : List Event) : Prop where
  | asked : c.sendPoint? n = some (.checking message) → after = [] →
      (∀ t, t ≠ .send n → c.isQuiet t = true) → Answered s c n message before after
  | accepted {p : SendPoint} : (stateAfter s before).isLive = true → c.sendPoint? n = some p →
      (∀ message, p ≠ .checking message) → p ≠ .returned .notFound →
      Answered s c n message before after
  | refused : (stateAfter s before).isLive = false → c.sendPoint? n = some (.returned .notFound) →
      (∃ rest, after = .sendReturned n .notFound :: rest) → Answered s c n message before after

/-- A call to send goes from one point to another, and nothing else is noted than whether it
returns. -/
structure Passes (c c' : Connection) (n : CallId) (p q : SendPoint) (events : List Event) :
    Prop where
  here : c.sendPoint? n = some p
  unfinished : ∀ result, p ≠ .returned result
  points : ∀ k, c'.sendPoint? k = if k = n then some q else c.sendPoint? k
  length : c'.sends.length = c.sends.length
  sink : c'.sink = c.sink
  uncalled : ∀ k message, .sendCalled k message ∉ events
  returned : ∀ k result, .sendReturned k result ∈ events ↔ k = n ∧ q = .returned result
  message : ∀ message, q.message? = some message → p.message? = some message

variable {c c' d : Connection} {history events past before after : List Event} {n k : CallId}
  {m : Move} {message : Message} {s : SocketId} {grants : List Grant} {schedule : Schedule}
  {p q : SendPoint} {t : Task} {sig : Signal} {e : Ending} {next : Option Ending}
  {result : SendResult} {since : Instant}

/-! ### Moves -/

theorem sendPoint?_sendAt (h : c.sendPoint? n = some q) :
    (c.sendAt n p).sendPoint? k = if k = n then some p else c.sendPoint? k := by
  obtain ⟨thread, hthread, -⟩ := Option.map_eq_some_iff.mp h
  have hlt := (List.getElem?_eq_some_iff.mp hthread).1
  simp only [sendPoint?, sendAt, List.getElem?_set]
  by_cases hk : k = n
  · simp [hk, hlt]
  · simp [hk, Ne.symm hk]

theorem sendPoint?_park : (c.park t).sendPoint? n = c.sendPoint? n := by
  cases t with
  | send k =>
    simp only [sendPoint?, park, List.getElem?_modify]
    cases c.sends[n]? with
    | none => rfl
    | some thread => simp only [Option.map_some]; split <;> rfl
  | _ => rfl

theorem sendPoint?_eq_none : c.sendPoint? n = none ↔ c.sends.length ≤ n := by
  rw [sendPoint?, Option.map_eq_none_iff, List.getElem?_eq_none_iff]

/-- What a move that is no step of a call to send means for these calls. -/
structure LeavesSends (c c' : Connection) (events : List Event) : Prop where
  sends : ∀ n, c'.sendPoint? n = c.sendPoint? n
  length : c'.sends.length = c.sends.length
  sink : c'.sink = c.sink ∨ c.turn.holder = none
  events : ∀ x ∈ events, x.isOfSend = false

theorem EndingStep.sink_eq_or (h : EndingStep c t e c' next events) :
    (c'.sink = c.sink ∨ c.turn.holder = none) ∧ ∀ x ∈ events, x.isOfSend = false := by
  cases h with
  | withdraw hturn => exact ⟨.inr (Turn.holder_of_mayTake hturn), by simp [Event.isOfSend]⟩
  | say =>
    refine ⟨.inl rfl, ?_⟩
    simp only [List.mem_singleton, forall_eq]
    split <;> rfl
  | _ => exact ⟨.inl rfl, by simp [Event.isOfSend]⟩

theorem ReaderStep.leavesSends (h : ReaderStep c c' events) : LeavesSends c c' events := by
  cases h with
  | read f => cases f <;> exact ⟨fun _ => rfl, rfl, .inl rfl, by simp [readFrame, Event.isOfSend]⟩
  | pong =>
    refine ⟨fun _ => rfl, rfl, .inl rfl, ?_⟩
    simp only [List.mem_singleton, forall_eq]
    split <;> rfl
  | retire _ hturn | place _ hturn =>
    exact ⟨fun _ => rfl, rfl, .inr (Turn.holder_of_mayTake hturn), by simp [Event.isOfSend]⟩
  | ending _ hending =>
    obtain ⟨hsink, hevents⟩ := hending.sink_eq_or
    obtain ⟨_, _, _, _, _, rfl⟩ := hending.frame
    exact ⟨fun _ => rfl, rfl, hsink, hevents⟩
  | _ => exact ⟨fun _ => rfl, rfl, .inl rfl, by simp [Event.isOfSend]⟩

theorem HeartbeatStep.leavesSends (h : HeartbeatStep c c' events) : LeavesSends c c' events := by
  cases h with
  | ending _ hending =>
    obtain ⟨hsink, hevents⟩ := hending.sink_eq_or
    obtain ⟨_, _, _, _, _, rfl⟩ := hending.frame
    exact ⟨fun _ => rfl, rfl, hsink, hevents⟩
  | _ => exact ⟨fun _ => rfl, rfl, .inl rfl, by simp [Event.isOfSend]⟩

theorem CloseStep.leavesSends (h : CloseStep c n c' events) : LeavesSends c c' events := by
  cases h with
  | @abort t => cases t <;> exact ⟨fun _ => rfl, rfl, .inl rfl, by simp [Event.isOfSend]⟩
  | ending _ hending =>
    obtain ⟨hsink, hevents⟩ := hending.sink_eq_or
    obtain ⟨_, _, _, _, _, rfl⟩ := hending.frame
    exact ⟨fun _ => rfl, rfl, hsink, hevents⟩
  | ended _ hending =>
    obtain ⟨hsink, hevents⟩ := hending.sink_eq_or
    obtain ⟨_, _, _, _, _, rfl⟩ := hending.frame
    refine ⟨fun _ => rfl, rfl, hsink, fun x hx => ?_⟩
    rcases List.mem_append.mp hx with hx | hx
    · exact hevents x hx
    · cases List.mem_singleton.mp hx
      rfl
  | _ => exact ⟨fun _ => rfl, rfl, .inl rfl, by simp [Event.isOfSend]⟩

/-- What a move means for calls to send: one of them takes a step or begins, or all are left where
they are. -/
inductive SendMove (c : Connection) : Move → Connection → List Event → Prop where
  | step {n : CallId} {sig : Signal} {c' : Connection} {events : List Event} :
      SendStep c n c' events → SendMove c (.step (.send n) sig) c' events
  | call (message : Message) : SendMove c (.send message)
      { c with sends := c.sends ++ [⟨.checking message, false, false⟩] }
      [.sendCalled c.sends.length message]
  | leave {m : Move} {c' : Connection} {events : List Event} : LeavesSends c c' events →
      SendMove c m c' events

theorem Transition.sendMove (h : Transition c m c' events) : SendMove c m c' events := by
  cases h with
  | @suspend t =>
    have hsends : ({ c with turn := if c.awaitsTurn t then c.turn.join t else c.turn }).sends =
        c.sends := rfl
    refine .leave ⟨fun n => sendPoint?_park, ?_, ?_, by simp⟩
    · cases t <;> simp [park]
    · cases t <;> exact .inl rfl
  | reader h => exact .leave h.leavesSends
  | heartbeat h => exact .leave h.leavesSends
  | sending h => exact .step h
  | closing h => exact .leave h.leavesSends
  | reapReader =>
    refine .leave ⟨fun _ => rfl, rfl, .inl rfl, ?_⟩
    unfold abandoned
    split <;> simp [Event.isOfSend]
  | send message => exact .call message
  | dropHandle =>
    obtain ⟨_, _, habort⟩ := abort_frame c.tasks { c with cancelled := true, tasks := [] }
    rw [habort]
    exact .leave ⟨fun _ => rfl, rfl, .inl rfl, by simp [Event.isOfSend]⟩
  | _ => exact .leave ⟨fun _ => rfl, rfl, .inl rfl, by simp [Event.isOfSend]⟩

/-- From which point to which one a call to send goes, and what is noted. -/
inductive SendGoes (c : Connection) (n : CallId) : SendPoint → SendPoint → List Event → Prop where
  | accept {message : Message} : c.isLive = true →
      SendGoes c n (.checking message) (.waiting message) []
  | refuse {message : Message} : c.isLive = false →
      SendGoes c n (.checking message) (.returned .notFound) [.sendReturned n .notFound]
  | miss {message : Message} : c.sink = none →
      SendGoes c n (.waiting message) (.returned .notConnected) [.sendReturned n .notConnected]
  | write {message : Message} {s : SocketId} {since : Instant} : c.sink = some s →
      c.turn.holder = none → SendGoes c n (.waiting message) (.writing message s since) []
  | sent {message : Message} {s : SocketId} {since : Instant} :
      SendGoes c n (.writing message s since) (.returned .sent)
        [.wrote s (.data message), .sendReturned n .sent]
  | fail {message : Message} {s : SocketId} {since : Instant} {result : SendResult} :
      result = .timedOut ∨ result = .failed →
      SendGoes c n (.writing message s since) (.returned result)
        [.writeFailed s (.data message), .sendReturned n result]

theorem SendStep.goes (h : SendStep c n c' events) : ∃ p q, c.sendPoint? n = some p ∧
    (∀ k, c'.sendPoint? k = if k = n then some q else c.sendPoint? k) ∧
      c'.sends.length = c.sends.length ∧ c'.sink = c.sink ∧ SendGoes c n p q events := by
  have hmoved : ∀ {d : Connection} {p q}, c.sendPoint? n = some p → d.sends = c.sends →
      ∀ k, (d.sendAt n q).sendPoint? k = if k = n then some q else c.sendPoint? k := by
    intro d p q hp hd k
    have hp' : d.sendPoint? n = some p := by rw [sendPoint?, hd]; exact hp
    rw [sendPoint?_sendAt hp', sendPoint?, hd, ← sendPoint?]
  cases h with
  | accept hp hlive =>
    exact ⟨_, _, hp, hmoved hp rfl, List.length_set, rfl, .accept hlive⟩
  | refuse hp hlive =>
    exact ⟨_, _, hp, hmoved hp rfl, List.length_set, rfl, .refuse hlive⟩
  | miss hp _ hnone => exact ⟨_, _, hp, hmoved hp rfl, List.length_set, rfl, .miss hnone⟩
  | write hp hmay hplace =>
    exact ⟨_, _, hp, hmoved hp rfl, List.length_set, rfl,
      .write hplace (Turn.holder_of_mayTake hmay)⟩
  | sent hp => exact ⟨_, _, hp, hmoved hp rfl, List.length_set, rfl, .sent⟩
  | fail hp hresult => exact ⟨_, _, hp, hmoved hp rfl, List.length_set, rfl, .fail hresult⟩

/-! ### Histories -/

theorem dataWritten_append : dataWritten s (history ++ events) =
    dataWritten s history ++ dataWritten s events :=
  List.filterMap_append

theorem dataWritten_eq_nil (h : ∀ x ∈ events, x.isOfSend = false) : dataWritten s events = [] := by
  refine List.filterMap_eq_nil_iff.mpr fun x hx => ?_
  have hnot := h x hx
  split
  · cases hnot
  · rfl

theorem grant?_eq_none (h : ∀ n, c'.sendPoint? n = c.sendPoint? n) : c.grant? c' m = none := by
  unfold grant?
  split
  · next n _ =>
    rw [h n]
    cases c.sendPoint? n with
    | none => rfl
    | some p => cases p <;> rfl
  · rfl

theorem grant?_of_points (sig : Signal) (hp : c.sendPoint? n = some p)
    (hq : c'.sendPoint? n = some q) :
    c.grant? c' (.step (.send n) sig) = p.grant? n q := by
  rw [grant?, hp, hq]
  rfl

theorem messagesSent_congr
    (h : ∀ g ∈ grants, c'.sendPoint? g.call = some (.returned .sent) ↔
      c.sendPoint? g.call = some (.returned .sent)) :
    c'.messagesSent s grants = c.messagesSent s grants := by
  unfold messagesSent
  congr 1
  refine List.filter_congr fun g hg => ?_
  simp only [h g hg]

theorem messagesSent_append {more : List Grant} : c.messagesSent s (grants ++ more) =
    c.messagesSent s grants ++ c.messagesSent s more := by
  rw [messagesSent, List.filter_append, List.map_append, messagesSent, messagesSent]

/-- A call that comes to a point other than that it has sent changes no message sent. -/
theorem messagesSent_of_ne (h : c.sendPoint? n = some p)
    (hpoint : ∀ k, c'.sendPoint? k = if k = n then some q else c.sendPoint? k)
    (hp : p ≠ .returned .sent) (hq : q ≠ .returned .sent) :
    c'.messagesSent s grants = c.messagesSent s grants := by
  refine messagesSent_congr fun g _ => ?_
  rw [hpoint]
  split
  · next hk => simp [hk, h, hp, hq]
  · exact Iff.rfl

theorem Passes.mem_called (h : Passes c c' n p q events) :
    .sendCalled k message ∈ history ++ events ↔ .sendCalled k message ∈ history := by
  refine ⟨fun hmem => ?_, List.mem_append_left _⟩
  exact (List.mem_append.mp hmem).resolve_right (h.uncalled k message)

theorem Passes.there (h : Passes c c' n p q events) : c'.sendPoint? n = some q :=
  (h.points n).trans (if_pos rfl)

namespace Sends

variable (h : Sends c history grants)
include h

/-- What leaves the calls to send where they are. -/
theorem leave (hturn : InTurn c) (hleaves : LeavesSends c c' events) :
    Sends c' (history ++ events) grants := by
  obtain ⟨hsends, hlength, hsink, hevents⟩ := hleaves
  have hcalled : ∀ n message,
      .sendCalled n message ∈ history ++ events ↔ .sendCalled n message ∈ history := by
    refine fun n message => ⟨fun hmem => ?_, List.mem_append_left _⟩
    exact (List.mem_append.mp hmem).resolve_right fun hmem => by cases hevents _ hmem
  refine ⟨fun n result => ?_, fun n message hmem => ?_, fun n p message hp => ?_, fun g hg => ?_,
    h.nodup, fun n p hp => ?_, fun n message s since hp => ?_, fun s => ?_⟩
  · rw [hsends, ← h.returned]
    refine ⟨fun hmem => ?_, List.mem_append_left _⟩
    exact (List.mem_append.mp hmem).resolve_right fun hmem => by cases hevents _ hmem
  · rw [hlength]
    exact h.called_lt n message ((hcalled n message).mp hmem)
  · simp only [hcalled]
    exact h.called n p message (hsends n ▸ hp)
  · simp only [hcalled, hsends]
    exact h.granted g hg
  · exact h.given n p (hsends n ▸ hp)
  · rw [hsends] at hp
    obtain ⟨hplace, hlast⟩ := h.writing n message s since hp
    refine ⟨?_, hlast⟩
    -- A call that writes holds the turn, so that nobody else takes the socket away.
    obtain ⟨parked, hs⟩ := standing?_of_sendPoint? hp
    have hholder := hturn.holding _ _ _ hs rfl
    rcases hsink with hsame | hfree
    · rw [hsame, hplace]
    · rw [hholder] at hfree
      cases hfree
  · rw [dataWritten_append, dataWritten_eq_nil hevents, List.append_nil, h.data s]
    exact (messagesSent_congr fun g _ => by rw [hsends]).symm

/-- A call to send begins. -/
theorem call (message : Message) :
    Sends { c with sends := c.sends ++ [⟨.checking message, false, false⟩] }
      (history ++ [.sendCalled c.sends.length message]) grants := by
  have hpoint : ∀ n, ({ c with sends := c.sends ++ [⟨.checking message, false, false⟩] } :
      Connection).sendPoint? n =
        if n = c.sends.length then some (.checking message) else c.sendPoint? n := by
    intro n
    unfold sendPoint?
    split
    · next hn => rw [hn, List.getElem?_concat_length]; rfl
    · next hn => rw [getElem?_append_of_ne hn]
  have hold : ∀ {n p}, c.sendPoint? n = some p → n ≠ c.sends.length := by
    rintro n p hp rfl
    rw [sendPoint?_eq_none.mpr (Nat.le_refl _)] at hp
    cases hp
  have hcalled : ∀ n message', .sendCalled n message' ∈ history ++
      [.sendCalled c.sends.length message] ↔
        .sendCalled n message' ∈ history ∨ n = c.sends.length ∧ message' = message := by
    simp [Event.sendCalled.injEq]
  have hgranted : ∀ g ∈ grants, g.call ≠ c.sends.length := fun g hg => by
    obtain ⟨-, p, hp, -⟩ := h.granted g hg
    exact hold hp
  refine ⟨fun n result => ?_, fun n message' hmem => ?_, fun n p message' hp hmessage => ?_,
    fun g hg => ?_, h.nodup, fun n p hp hwritten => ?_, fun n message' s since hp => ?_,
    fun s => ?_⟩
  · have hmem : .sendReturned n result ∈ history ++ [.sendCalled c.sends.length message] ↔
        .sendReturned n result ∈ history := by simp
    rw [hmem, h.returned, hpoint]
    split
    · next hn =>
      rw [hn, sendPoint?_eq_none.mpr (Nat.le_refl _)]
      simp
    · exact Iff.rfl
  · rw [List.length_append, List.length_singleton]
    rcases (hcalled n message').mp hmem with hbefore | ⟨rfl, -⟩
    · exact Nat.lt_succ_of_lt (h.called_lt n message' hbefore)
    · exact Nat.lt_succ_self _
  · intro other
    rw [hcalled]
    rw [hpoint] at hp
    split at hp
    · next hn =>
      cases hp
      cases hmessage
      refine ⟨fun hor => ?_, fun heq => .inr ⟨hn, heq⟩⟩
      rcases hor with hbefore | ⟨-, heq⟩
      · exact absurd (hn ▸ h.called_lt n other hbefore) (Nat.lt_irrefl _)
      · exact heq
    · next hn =>
      rw [h.called n p message' hp hmessage other]
      exact or_iff_left fun heq => hn heq.1
  · obtain ⟨hmessage, p, hp, hwritten⟩ := h.granted g hg
    refine ⟨fun other => ?_, p, ?_, hwritten⟩
    · rw [hcalled, hmessage other]
      exact or_iff_left fun heq => hgranted g hg heq.1
    · rw [hpoint, if_neg (hgranted g hg), hp]
  · rw [hpoint] at hp
    split at hp
    · cases hp; cases hwritten
    · exact h.given n p hp hwritten
  · rw [hpoint] at hp
    split at hp
    · cases hp
    · exact h.writing n message' s since hp
  · rw [dataWritten_append, h.data s]
    refine (List.append_nil _).trans (messagesSent_congr fun g hg => ?_).symm
    rw [hpoint, if_neg (hgranted g hg)]

section

variable (hpasses : Passes c c' n p q events)
include hpasses

theorem called_of_passes {p₁ : SendPoint} (hp₁ : c'.sendPoint? k = some p₁)
    (hmessage : p₁.message? = some message) (message' : Message) :
    .sendCalled k message' ∈ history ++ events ↔ message' = message := by
  rw [hpasses.mem_called]
  rw [hpasses.points] at hp₁
  split at hp₁
  · next hk =>
    cases hp₁
    exact h.called k p message (hk ▸ hpasses.here) (hpasses.message message hmessage) message'
  · exact h.called k p₁ message hp₁ hmessage message'

theorem called_lt_of_passes (hcall : .sendCalled k message ∈ history ++ events) :
    k < c'.sends.length :=
  hpasses.length ▸ h.called_lt k message (hpasses.mem_called.mp hcall)

theorem returned_of_passes (k : CallId) (result : SendResult) :
    .sendReturned k result ∈ history ++ events ↔
      c'.sendPoint? k = some (.returned result) := by
  rw [List.mem_append, h.returned, hpasses.returned, hpasses.points]
  split
  · next hk =>
    rw [hk, hpasses.here]
    simp [hpasses.unfinished result]
  · next hk => simp [hk]

theorem granted_of_passes (hwritten : q.hasWritten = true ∨ p.hasWritten = false) {g : Grant}
    (hg : g ∈ grants) :
    (∀ message, .sendCalled g.call message ∈ history ++ events ↔ message = g.message) ∧
      ∃ p, c'.sendPoint? g.call = some p ∧ p.hasWritten = true := by
  obtain ⟨hmessage, p₁, hp₁, hwritten₁⟩ := h.granted g hg
  refine ⟨fun message => by rw [hpasses.mem_called, hmessage message], ?_⟩
  by_cases hk : g.call = n
  · rw [hk, hpasses.here] at hp₁
    cases hp₁
    rcases hwritten with hq | hnot
    · exact ⟨q, hk ▸ hpasses.there, hq⟩
    · cases hwritten₁.symm.trans hnot
  · exact ⟨p₁, by rw [hpasses.points, if_neg hk, hp₁], hwritten₁⟩

/-- A call goes on without being given the write half. -/
theorem goesOn (hsame : q.hasWritten = p.hasWritten)
    (hnot : ∀ message s since, q ≠ .writing message s since)
    (hdata : ∀ s, dataWritten s (history ++ events) = c'.messagesSent s grants) :
    Sends c' (history ++ events) grants where
  returned := h.returned_of_passes hpasses
  called_lt _ _ := h.called_lt_of_passes hpasses
  called _ _ _ := h.called_of_passes hpasses
  granted _ hg := by
    refine h.granted_of_passes hpasses ?_ hg
    rw [hsame]
    cases p.hasWritten <;> simp
  nodup := h.nodup
  given k p₁ hp₁ hwritten := by
    rw [hpasses.points] at hp₁
    split at hp₁
    · next hk =>
      cases hp₁
      exact hk ▸ h.given n p hpasses.here (hsame ▸ hwritten)
    · exact h.given k p₁ hp₁ hwritten
  writing k message s since hp₁ := by
    rw [hpasses.points] at hp₁
    split at hp₁
    · cases hp₁
      exact absurd rfl (hnot message s since)
    · rw [hpasses.sink]
      exact h.writing k message s since hp₁
  data := hdata

end

/-- A call is given the write half in its turn. -/
theorem isGiven (hturn : InTurn c)
    (hpasses : Passes c c' n (.waiting message) (.writing message s since) events)
    (hplace : c.sink = some s) (hfree : c.turn.holder = none)
    (hdata : ∀ s₁,
      dataWritten s₁ (history ++ events) = c'.messagesSent s₁ (grants ++ [⟨n, message, s⟩])) :
    Sends c' (history ++ events) (grants ++ [⟨n, message, s⟩]) where
  returned := h.returned_of_passes hpasses
  called_lt _ _ := h.called_lt_of_passes hpasses
  called _ _ _ := h.called_of_passes hpasses
  granted g hg := by
    rcases List.mem_append.mp hg with hg | hg
    · exact h.granted_of_passes hpasses (.inl rfl) hg
    · cases List.mem_singleton.mp hg
      refine ⟨fun message' => ?_, _, hpasses.there, rfl⟩
      rw [hpasses.mem_called]
      exact h.called n _ message hpasses.here rfl message'
  nodup := by
    rw [List.map_append, List.nodup_append]
    refine ⟨h.nodup, List.nodup_singleton _, fun k hk j hj => ?_⟩
    obtain ⟨g, hg, rfl⟩ := List.mem_map.mp hk
    rw [List.map_singleton, List.mem_singleton] at hj
    subst hj
    -- Whoever was given the write half before does not wait for it.
    rintro rfl
    obtain ⟨-, p₁, hp₁, hwritten₁⟩ := h.granted g hg
    rw [hpasses.here] at hp₁
    cases hp₁
    cases hwritten₁
  given k p₁ hp₁ hwritten := by
    rw [hpasses.points] at hp₁
    split at hp₁
    · next hk => exact ⟨_, List.mem_append_right _ (List.mem_singleton_self _), hk.symm⟩
    · obtain ⟨g, hg, hcall⟩ := h.given k p₁ hp₁ hwritten
      exact ⟨g, List.mem_append_left _ hg, hcall⟩
  writing k message₁ s₁ since₁ hp₁ := by
    rw [hpasses.points] at hp₁
    split at hp₁
    · next hk =>
      cases hp₁
      exact ⟨hpasses.sink.trans hplace, grants, by rw [hk]⟩
    · -- Nobody else writes when a call is given the turn.
      obtain ⟨parked, hs⟩ := standing?_of_sendPoint? hp₁
      rw [hturn.holding _ _ _ hs rfl] at hfree
      cases hfree
  data := hdata

/-- A step of a call to send. -/
theorem of_sendStep (hturn : InTurn c) (hstep : SendStep c n c' events) :
    Sends c' (history ++ events) (grants ++ (c.grant? c' (.step (.send n) sig)).toList) := by
  obtain ⟨p, q, hp, hpoint, hlength, hsink, hgoes⟩ := hstep.goes
  have hq : c'.sendPoint? n = some q := (hpoint n).trans (if_pos rfl)
  have hgrant := grant?_of_points sig hp hq
  cases hgoes with
  | accept =>
    have hnone : c.grant? c' (.step (.send n) sig) = none := hgrant
    rw [hnone, Option.toList_none, List.append_nil grants]
    refine h.goesOn ⟨hp, by simp, hpoint, hlength, hsink, by simp, by simp, fun _ heq => heq⟩ rfl
      (by simp) fun s => ?_
    rw [List.append_nil, messagesSent_of_ne hp hpoint (by simp) (by simp), ← h.data s]
  | refuse | miss =>
    have hnone : c.grant? c' (.step (.send n) sig) = none := hgrant
    rw [hnone, Option.toList_none, List.append_nil grants]
    refine h.goesOn ⟨hp, by simp, hpoint, hlength, hsink, by simp, by simp [eq_comm],
      by simp [SendPoint.message?]⟩ rfl (by simp) fun s => ?_
    rw [messagesSent_of_ne hp hpoint (by simp) (by simp), ← h.data s, dataWritten_append]
    exact List.append_nil _
  | @write message s since hplace hfree =>
    have hgiven : c.grant? c' (.step (.send n) sig) = some ⟨n, message, s⟩ := hgrant
    rw [hgiven, Option.toList_some]
    refine h.isGiven hturn ⟨hp, by simp, hpoint, hlength, hsink, by simp, by simp,
      fun _ heq => heq⟩ hplace hfree fun s₁ => ?_
    have hlast : c'.messagesSent s₁ [⟨n, message, s⟩] = [] := by simp [messagesSent, hq]
    rw [messagesSent_append, hlast, List.append_nil, List.append_nil,
      messagesSent_of_ne hp hpoint (by simp) (by simp), ← h.data s₁]
  | @sent message s since =>
    have hnone : c.grant? c' (.step (.send n) sig) = none := hgrant
    rw [hnone, Option.toList_none, List.append_nil grants]
    refine h.goesOn ⟨hp, by simp, hpoint, hlength, hsink, by simp, by simp [eq_comm],
      by simp [SendPoint.message?]⟩ rfl (by simp) fun s₁ => ?_
    -- The call that writes was given the turn last, so that its message comes last.
    obtain ⟨-, before, rfl⟩ := h.writing n message s since hp
    have hnodup := h.nodup
    rw [List.map_append, List.nodup_append] at hnodup
    have hbefore : c'.messagesSent s₁ before = c.messagesSent s₁ before := by
      refine messagesSent_congr fun g hg => ?_
      rw [hpoint, if_neg]
      exact hnodup.2.2 g.call (List.mem_map_of_mem hg) n (List.mem_singleton_self _)
    have hold : c.messagesSent s₁ [⟨n, message, s⟩] = [] := by simp [messagesSent, hp]
    have hnew : c'.messagesSent s₁ [⟨n, message, s⟩] = if s = s₁ then [message] else [] := by
      by_cases hs : s = s₁ <;> simp [messagesSent, hq, hs]
    rw [dataWritten_append, h.data s₁, messagesSent_append, messagesSent_append, hbefore, hold,
      hnew, List.append_nil]
    by_cases hs : s = s₁ <;> simp [dataWritten, hs]
  | @fail message s since result hresult =>
    have hne : SendPoint.returned result ≠ .returned .sent := by
      rcases hresult with rfl | rfl <;> simp
    have hnone : c.grant? c' (.step (.send n) sig) = none := hgrant
    rw [hnone, Option.toList_none, List.append_nil grants]
    refine h.goesOn ⟨hp, by simp, hpoint, hlength, hsink, by simp, by simp [eq_comm],
      by simp [SendPoint.message?]⟩ ?_ (by simp) fun s => ?_
    · rcases hresult with rfl | rfl <;> rfl
    · rw [messagesSent_of_ne hp hpoint (by simp) hne, ← h.data s, dataWritten_append]
      exact List.append_nil _

end Sends

/-! ### Runs -/

theorem Granted.reaches (h : Granted schedule d past c history grants) :
    Reaches schedule d past c history := by
  induction h with
  | refl => exact .refl
  | move _ hadmits hnext ih => exact ih.move hadmits hnext

theorem Reaches.granted (h : Reaches schedule d past c history) :
    ∃ grants, Granted schedule d past c history grants := by
  induction h with
  | refl => exact ⟨[], .refl⟩
  | move _ hadmits hnext ih =>
    obtain ⟨grants, hgranted⟩ := ih
    exact ⟨_, hgranted.move hadmits hnext⟩

theorem Sends.of_next? (h : Sends c history grants) (hturn : InTurn c)
    (hnext : c.next? m = some (c', events)) :
    Sends c' (history ++ events) (grants ++ (c.grant? c' m).toList) := by
  cases (Transition.of_next? hnext).sendMove with
  | step hstep => exact h.of_sendStep hturn hstep
  | call message =>
    rw [show grant? c _ (.send message) = none from rfl, Option.toList_none, List.append_nil]
    exact h.call message
  | leave hleaves =>
    rw [grant?_eq_none hleaves.sends, Option.toList_none, List.append_nil]
    exact h.leave hturn hleaves

theorem Granted.sends (h : Granted .await d past c history grants) (hturn : InTurn d)
    (hd : Sends d past []) : Sends c history grants := by
  induction h with
  | refl => exact hd
  | move hbefore _ hnext ih => exact ih.of_next? (hbefore.reaches.inTurn hturn) hnext

theorem sends_opened (address : String) (settings : StreamSettings) (began now : Instant)
    (epoch : Int) : Sends (opened address settings now epoch)
      ((opened address settings now epoch).opening began) [] := by
  have hnone : ∀ n, (opened address settings now epoch).sendPoint? n = none := fun _ => rfl
  refine ⟨fun n result => ?_, fun n message hmem => ?_, fun n p message hp => ?_,
    fun g hg => ?_, List.nodup_nil, fun n p hp => ?_, fun n message s since hp => ?_, fun _ => rfl⟩
  · rw [hnone]
    simp [opening]
  · simp [opening] at hmem
  · rw [hnone] at hp; cases hp
  · cases hg
  · rw [hnone] at hp; cases hp
  · rw [hnone] at hp; cases hp

/-- A call to send returns from the point where it was. -/
theorem Transition.of_sendReturned (h : Transition c m c' events)
    (hmem : .sendReturned n result ∈ events) :
    ∃ p, c.sendPoint? n = some p ∧ SendGoes c n p (.returned result) events := by
  cases h.sendMove with
  | @step k _ _ _ hstep =>
    obtain ⟨p, q, hp, -, -, -, hgoes⟩ := hstep.goes
    cases hgoes with
    | accept | write => cases hmem
    | refuse hlive =>
      cases List.mem_singleton.mp hmem
      exact ⟨_, hp, .refuse hlive⟩
    | miss hnone =>
      cases List.mem_singleton.mp hmem
      exact ⟨_, hp, .miss hnone⟩
    | sent =>
      obtain ⟨rfl, rfl⟩ : n = k ∧ result = .sent := by simpa using hmem
      exact ⟨_, hp, .sent⟩
    | fail hresult =>
      obtain ⟨rfl, rfl⟩ : n = k ∧ result = _ := by simpa using hmem
      exact ⟨_, hp, .fail hresult⟩
  | call => simp at hmem
  | leave hleaves => cases hleaves.events _ hmem

/-- A call that returns that it has sent has written to the socket that is in place then. -/
theorem Granted.placed {start : Connection} (h : Granted .await d past c history grants)
    (hturn : InTurn d) (hd : Sends d past []) (hpast : Notes start d past)
    (hnone : ∀ n result, .sendReturned n result ∉ past) :
    ∀ before n after, history = before ++ .sendReturned n .sent :: after →
      ∃ g ∈ grants, g.call = n ∧ sinkAfter start.sink before = some g.socket := by
  induction h with
  | refl =>
    rintro before n after rfl
    exact absurd (List.mem_append_right _ List.mem_cons_self) (hnone n .sent)
  | @move c₁ c₂ history events grants m hbefore hadmits hnext ih =>
    intro before n after heq
    rcases split_append heq with ⟨rest, hhistory, -⟩ | ⟨rest, rfl, rfl⟩
    · obtain ⟨g, hg, hcall, hplace⟩ := ih before n rest hhistory
      exact ⟨g, List.mem_append_left _ hg, hcall, hplace⟩
    · have hmem : .sendReturned n .sent ∈ rest ++ .sendReturned n .sent :: after :=
        List.mem_append_right _ List.mem_cons_self
      obtain ⟨p, hp, hgoes⟩ := (Transition.of_next? hnext).of_sendReturned hmem
      generalize hevents : rest ++ .sendReturned n .sent :: after = events at hgoes
      cases hgoes with
      | @sent message s since =>
        -- The call holds its turn until here, so that the socket is still in place.
        obtain ⟨hplace, granted, rfl⟩ := (hbefore.sends hturn hd).writing n message s since hp
        refine ⟨⟨n, message, s⟩, by simp, rfl, ?_⟩
        have hrest : rest = [.wrote s (.data message)] := by
          rcases rest with - | ⟨x, - | ⟨y, rest⟩⟩ <;> simp_all
        obtain ⟨-, hsink, -⟩ := hbefore.reaches.notes hpast
        rw [sinkAfter_append, ← hsink, hplace, hrest]
        rfl
      | fail hresult => rcases hresult with hne | hne <;> cases hne

/-! ### Answers -/

/-- A call to send that has just been made is the one task that runs. -/
theorem eq_step_of_checking (hturn : InTurn c) (hp : c.sendPoint? n = some (.checking message))
    (hadmits : c.admits .await m = true) : ∃ sig, m = .step (.send n) sig := by
  obtain ⟨parked, hs⟩ := standing?_of_sendPoint? hp
  refine eq_step_of_admits (Bool.eq_false_iff.mpr fun hquiet => ?_) hadmits
  cases hturn.mayPark_of_quiet hquiet hs rfl

theorem waits_of_checking (hp : c.sendPoint? n = some (.checking message)) :
    c.waits (.send n) = false := by
  rw [waits, hp]

/-- A call to send that is past its start stays past it, and was taken on for good. -/
theorem SendGoes.accepted (h : SendGoes c n p q events) (hp : ∀ message, p ≠ .checking message) :
    (∀ message, q ≠ .checking message) ∧ q ≠ .returned .notFound := by
  cases h with
  | accept | refuse => exact absurd rfl (hp _)
  | fail hresult => rcases hresult with rfl | rfl <;> simp
  | _ => simp

/-- What a move means for the point of a call to send that there is. -/
theorem Transition.sendPoint?_of_some (h : Transition c m c' events)
    (hp : c.sendPoint? n = some p) :
    c'.sendPoint? n = some p ∨ ∃ q, c'.sendPoint? n = some q ∧ SendGoes c n p q events := by
  cases h.sendMove with
  | @step k _ _ _ hstep =>
    obtain ⟨p₁, q, hp₁, hpoint, -, -, hgoes⟩ := hstep.goes
    rw [hpoint]
    split
    · next hk =>
      rw [← hk, hp] at hp₁
      cases hp₁
      exact .inr ⟨q, rfl, hk ▸ hgoes⟩
    · exact .inl hp
  | call message =>
    have hlt : n < c.sends.length := Nat.lt_of_not_le fun hle => by
      rw [sendPoint?_eq_none.mpr hle] at hp
      cases hp
    rw [sendPoint?, List.getElem?_append_left hlt, ← sendPoint?]
    exact .inl hp
  | leave hleaves => exact .inl ((hleaves.sends n).trans hp)

/-- A call to send is noted when it is made. -/
theorem Transition.of_sendCalled (h : Transition c m c' events)
    (hmem : .sendCalled n message ∈ events) : m = .send message ∧ n = c.sends.length ∧
      events = [.sendCalled n message] ∧ c'.sendPoint? n = some (.checking message) := by
  cases h.sendMove with
  | step hstep =>
    obtain ⟨_, _, -, -, -, -, hgoes⟩ := hstep.goes
    cases hgoes <;> simp at hmem
  | call message =>
    cases List.mem_singleton.mp hmem
    refine ⟨by trivial, rfl, rfl, ?_⟩
    rw [sendPoint?, List.getElem?_concat_length]
    rfl
  | leave hleaves => cases hleaves.events _ hmem

theorem Answered.of_next? {s : State} (h : Answered s c n message before after) (hturn : InTurn c)
    (hstate : c.state = stateAfter s (before ++ .sendCalled n message :: after))
    (hadmits : c.admits .await m = true) (hnext : c.next? m = some (c', events)) :
    Answered s c' n message before (after ++ events) := by
  have hmove := Transition.of_next? hnext
  cases h with
  | asked hp hafter hothers =>
    obtain ⟨sig, rfl⟩ := eq_step_of_checking hturn hp hadmits
    -- Nothing was noted since the call was made, so that the stream is as live as it was then.
    have hlive : c.isLive = (stateAfter s before).isLive := by
      rw [isLive, hstate, hafter, stateAfter_append]
      rfl
    cases hmove with
    | suspend hwaits =>
      rw [waits_of_checking hp] at hwaits
      cases hwaits
    | sending hstep =>
      obtain ⟨p, q, hp₁, hpoint, -, -, hgoes⟩ := hstep.goes
      have hq : c'.sendPoint? n = some q := (hpoint n).trans (if_pos rfl)
      rw [hp] at hp₁
      cases hp₁
      cases hgoes with
      | accept htrue => exact .accepted (hlive ▸ htrue) hq (by simp) (by simp)
      | refuse hfalse => exact .refused (hlive ▸ hfalse) hq ⟨[], by rw [hafter]; rfl⟩
  | accepted hlive hp hnot hfound =>
    rcases hmove.sendPoint?_of_some hp with hsame | ⟨q, hq, hgoes⟩
    · exact .accepted hlive hsame hnot hfound
    · obtain ⟨hnot', hfound'⟩ := hgoes.accepted hnot
      exact .accepted hlive hq hnot' hfound'
  | refused hdead hp hrest =>
    obtain ⟨rest, rfl⟩ := hrest
    rcases hmove.sendPoint?_of_some hp with hsame | ⟨q, -, hgoes⟩
    · exact .refused hdead hsame ⟨rest ++ events, rfl⟩
    · cases hgoes

/-- Every call to send answers by whether the stream was live when it was made. -/
theorem Reaches.answered {start : Connection} (h : Reaches .await d past c history)
    (hturn : InTurn d) (hpast : Notes start d past)
    (hnone : ∀ n message, .sendCalled n message ∉ past) :
    ∀ before n message after, history = before ++ .sendCalled n message :: after →
      Answered start.state c n message before after := by
  induction h with
  | refl =>
    rintro before n message after rfl
    exact absurd (List.mem_append_right _ List.mem_cons_self) (hnone n message)
  | @move c₁ c₂ history events m hbefore hadmits hnext ih =>
    intro before n message after heq
    have hmove := Transition.of_next? hnext
    rcases split_append heq with ⟨rest, rfl, rfl⟩ | ⟨rest, rfl, rfl⟩
    · exact (ih before n message rest rfl).of_next? (hbefore.inTurn hturn)
        (hbefore.notes hpast).state hadmits hnext
    · obtain ⟨rfl, rfl, hevents, hp⟩ :=
        hmove.of_sendCalled (List.mem_append_right rest List.mem_cons_self)
      obtain ⟨rfl, rfl⟩ : rest = [] ∧ after = [] := by
        cases rest with
        | nil => exact ⟨rfl, (List.cons.inj hevents).2⟩
        | cons x rest => simp at hevents
      exact .asked hp rfl fun t ht => (hmove.concerns hadmits).quiet ht

end Connection

end Uplink.Stream

import Uplink.Proofs.Registry.Turn
import Uplink.Proofs.Stream.Sending

/-! What a call to send that fails leaves as it was. Until it has written, a call changes nothing
but its own place and the queue for the turn at the write half; where nothing live is tracked, not
even a call on a stream begins. -/

namespace Uplink.Stream

namespace Connection

/-- The call to send that a move belongs to. -/
def sendOf? (c : Connection) : Move → Option CallId
  | .step (.send n) _ => some n
  | .send _ => some c.sends.length
  | _ => none

/-- A call to send changes nothing but its own place, and who has or awaits the turn at the write
half. -/
structure Inert (c c' : Connection) (n : CallId) : Prop where
  frame : ∃ sends turn, c' = { c with sends, turn }
  others : ∀ k, k ≠ n → c'.sendPoint? k = c.sendPoint? k

/-- The messages that were written to each socket are those of the calls that returned that they
sent them, in the order of their turns; a call returns so while its socket is in place. -/
structure SentInTurn (c : Connection) (history : List Event) (grants : List Grant) : Prop where
  returned : ∀ n result,
    .sendReturned n result ∈ history ↔ c.sendPoint? n = some (.returned result)
  once : (grants.map Grant.call).Nodup
  message : ∀ g ∈ grants, ∀ message, .sendCalled g.call message ∈ history ↔ message = g.message
  written : ∀ s, dataWritten s history = c.messagesSent s grants
  placed : ∀ before n after, history = before ++ .sendReturned n .sent :: after →
    ∃ g ∈ grants, g.call = n ∧ sinkAfter none before = some g.socket

/-- Whether a call to send finds the stream depends on its state when the call was made. -/
structure FindsIfLive (c : Connection) (history before : List Event) (n : CallId)
    (after : List Event) : Prop where
  notFound_iff : ∀ result, .sendReturned n result ∈ history →
    (result.error? c.address = some (.connectionNotFound c.address) ↔
      (stateAfter .connecting before).isLive = false)
  /-- A call that does not find the stream returns before anything else happens. -/
  refuses : (stateAfter .connecting before).isLive = false →
    (∃ rest, after = .sendReturned n .notFound :: rest) ∨
      after = [] ∧ c.admits .await (.step (.send n) .go) = true ∧
        ∃ c', c.next? (.step (.send n) .go) = some (c', [.sendReturned n .notFound])

variable {c c' : Connection} {history events before after : List Event} {grants : List Grant}
  {n : CallId} {m : Move} {message : Message} {address : String} {settings : StreamSettings}
  {began now : Instant} {epoch : Int}

theorem SendStep.inert (h : SendStep c n c' events) (hunsent : .sendReturned n .sent ∉ events) :
    Inert c c' n := by
  refine ⟨?_, fun k hk => ?_⟩
  · cases h with
    | sent => exact absurd (by simp) hunsent
    | _ => exact ⟨_, _, rfl⟩
  · obtain ⟨_, _, -, hpoint, -⟩ := h.goes
    rw [hpoint, if_neg hk]

/-- A call to send that has not sent is inert. -/
theorem inert_of_next? (hnext : c.next? m = some (c', events)) (hm : c.sendOf? m = some n)
    (hunsent : .sendReturned n .sent ∉ events) : Inert c c' n := by
  cases Transition.of_next? hnext with
  | @suspend t =>
    cases t with
    | send k =>
      cases hm
      exact ⟨⟨_, _, rfl⟩, fun _ _ => sendPoint?_park⟩
    | _ => cases hm
  | sending hstep =>
    cases hm
    exact hstep.inert hunsent
  | send message =>
    cases hm
    refine ⟨⟨_, _, rfl⟩, fun k hk => ?_⟩
    rw [sendPoint?, getElem?_append_of_ne hk, ← sendPoint?]
  | _ => cases hm

theorem sentInTurn_of_granted
    (hgranted : Granted .await (opened address settings now epoch)
      ((opened address settings now epoch).opening began) c history grants) :
    SentInTurn c history grants := by
  have hturn := inTurn_opened address settings now epoch
  have hopened := sends_opened address settings began now epoch
  have hsends := hgranted.sends hturn hopened
  exact ⟨hsends.returned, hsends.nodup, fun g hg => (hsends.granted g hg).1, hsends.data,
    hgranted.placed hturn hopened (notes_opening address settings began now epoch)
      (by simp [opening])⟩

theorem sendStep_of_checking (hp : c.sendPoint? n = some (.checking message))
    (hdead : c.isLive = false) :
    ∃ c', c.next? (.step (.send n) .go) = some (c', [.sendReturned n .notFound]) := by
  refine ⟨(c.sendReturns n .notFound).1, ?_⟩
  simp [next?, step?, isAborted, sendStep, hp, hdead, sendReturns]

theorem Run.findsIfLive (hrun : Run .await address settings began now epoch c history)
    (hcall : history = before ++ .sendCalled n message :: after) :
    FindsIfLive c history before n after := by
  have hturn := inTurn_opened address settings now epoch
  obtain ⟨grants, hgranted⟩ := hrun.2.granted
  have hreturned := (sentInTurn_of_granted hgranted).returned
  have hanswered := hrun.2.answered hturn (notes_opening address settings began now epoch)
    (by simp [opening]) before n message after hcall
  cases hanswered with
  | asked hp hafter hothers =>
    refine ⟨fun result hmem => ?_, fun hdead => .inr ⟨hafter, admits_step_of_quiet hothers, ?_⟩⟩
    · rw [hreturned, hp] at hmem
      cases hmem
    · refine sendStep_of_checking hp ?_
      rw [isLive, hrun.notes.1, hcall, hafter, stateAfter_append]
      exact hdead
  | accepted hlive hp hnot hfound =>
    refine ⟨fun result hmem => ?_, fun hdead => ?_⟩
    · rw [hreturned, hp] at hmem
      cases hmem
      rw [SendResult.error?_eq_connectionNotFound_iff]
      exact iff_of_false (fun heq => hfound (congrArg _ heq))
        (Bool.eq_false_iff.not.mpr (not_not_intro hlive))
    · exact absurd (hlive.symm.trans hdead) (by simp)
  | refused hdead hp hrest =>
    refine ⟨fun result hmem => ?_, fun _ => .inl hrest⟩
    rw [hreturned, hp] at hmem
    cases hmem
    rw [SendResult.error?_eq_connectionNotFound_iff]
    exact iff_of_true rfl hdead

end Connection

namespace Registry

variable {r r' : Registry} {id : ConnectionId} {n : Nat} {events : List Event} {address : String}
  {message : Message}

/-- A call to send by way of a registry, in the turn in which it looks up its address: it fails if
nothing live is tracked, and else begins a call on the stream. -/
structure SendLooks (r r' : Registry) (n : Nat) (address : String) (message : Message) : Prop where
  tracked : r'.tracked = r.tracked
  fails_iff : r'.point? n = some (.returned (.failed (.connectionNotFound address))) ↔
    r.live? address = none
  unchanged : r.live? address = none → r'.connections = r.connections
  begins : ∀ id, r.live? address = some id → ∃ c c' events, r.connections[id]? = some c ∧
    c.next? (.send message) = some (c', events) ∧
      r'.connections = r.connections.set id c' ∧ r'.point? n = some (.sending id c.sends.length)

/-- A move of one stream changes nothing that is tracked, and no other stream. -/
theorem stream_frame {move : Connection.Move} (h : r.next? (.stream id move) = some (r', events)) :
    r'.tracked = r.tracked ∧ ∀ j, j ≠ id → r'.connections[j]? = r.connections[j]? := by
  obtain ⟨_, _, _, -, -, rfl, -⟩ := moveStream_eq (moveStream_of_next? h)
  exact ⟨rfl, fun j hj => List.getElem?_set_ne (Ne.symm hj)⟩

theorem sendLooks (hp : r.point? n = some (.looking (.send address message)))
    (h : r.next? (.step n .go) = some (r', events)) : SendLooks r r' n address message := by
  cases CallStep.of_callStep h with
  | @look call hcall =>
    rw [hp] at hcall
    cases hcall
    cases hlive : r.live? address with
    | none =>
      have hlook : ((r.takeTurn n).leaveTurn n).live? address = none := hlive
      simp only [look, hlook]
      refine ⟨rfl, ?_, fun _ => rfl, fun id hid => ?_⟩
      · exact iff_of_true (point?_callAt_self hp rfl) hlive
      · rw [hlive] at hid; cases hid
    | some id =>
      obtain ⟨c, hc⟩ := exists_of_live? hlive
      have hlook : ((r.takeTurn n).leaveTurn n).live? address = some id := hlive
      have hconnection : ((r.takeTurn n).leaveTurn n).connections[id]? = some c := hc
      simp only [look, hlook, moveStream, hconnection, Connection.next?, Option.map_some]
      refine ⟨rfl, ?_, fun hnone => ?_, fun id' hid => ?_⟩
      · rw [hlive]
        refine iff_of_false (fun hreturned => ?_) (by simp)
        cases (point?_callAt_self hp rfl).symm.trans hreturned
      · rw [hlive] at hnone; cases hnone
      · rw [hlive] at hid
        cases hid
        exact ⟨c, _, _, hc, rfl, rfl, point?_callAt_self hp rfl⟩
  | claim hcall | replace hcall | dialFails _ hcall | sent hcall | closed hcall =>
    cases hp.symm.trans hcall

end Registry

namespace Connection

variable {c : Connection} {history : List Event} {address : String} {settings : StreamSettings}
  {began now : Instant} {epoch : Int}

/-- In every run, what is written to a socket is what the calls that returned that they sent it were
given, in the order of their turns at the write half. A call fails because the stream was not found
if and only if the stream was not live when the call was made. Whatever else a call does, unless it
returns that it has sent, changes nothing of the stream but who has or awaits that turn: not its
state, its topics, its counters or whether the reader is asked to dial again. No other stream and
nothing that is tracked changes by a move of a stream; and a call by way of a registry that finds
nothing live there begins no call on a stream. -/
theorem Run.sends_ordered (hrun : Run .await address settings began now epoch c history) :
    (∃ grants, Granted .await (opened address settings now epoch)
      ((opened address settings now epoch).opening began) c history grants) ∧
    (∀ grants, Granted .await (opened address settings now epoch)
      ((opened address settings now epoch).opening began) c history grants →
        SentInTurn c history grants) ∧
    (∀ before n message after, history = before ++ .sendCalled n message :: after →
      FindsIfLive c history before n after) ∧
    (∀ (c₁ c₂ : Connection) m n events, c₁.next? m = some (c₂, events) → c₁.sendOf? m = some n →
      .sendReturned n .sent ∉ events → Inert c₁ c₂ n) ∧
    ∀ (r r' : Registry) noted,
      (∀ id move, r.next? (.stream id move) = some (r', noted) →
        r'.tracked = r.tracked ∧ ∀ j, j ≠ id → r'.connections[j]? = r.connections[j]?) ∧
      ∀ n address message, r.point? n = some (.looking (.send address message)) →
        r.next? (.step n .go) = some (r', noted) → Registry.SendLooks r r' n address message := by
  refine ⟨hrun.2.granted, fun grants => sentInTurn_of_granted, fun before n message after =>
    hrun.findsIfLive, fun c₁ c₂ m n events => inert_of_next?, fun r r' noted =>
    ⟨fun id move => Registry.stream_frame, fun n address message => Registry.sendLooks⟩⟩

/-- Two calls send on the first socket, the second of which waits for the first; a call finds no
socket while the stream dials again, one sends on the second socket, and one comes after a call to
close. -/
def sendingMoves : List Move :=
  [.send (.text "first"), .step (.send 0) .go, .step (.send 0) .go, .step (.send 0) .suspend,
    .send (.binary [1]), .step (.send 1) .go, .step (.send 1) .suspend,
    .step (.send 0) .written, .step (.send 1) .go, .step (.send 1) .suspend,
    .step (.send 1) .written,
    .step .reader .readFailed, .step .reader .go, .step .reader .go, .step .reader .written,
    .step .reader .suspend, .send (.text "lost"), .step (.send 2) .go, .step (.send 2) .go,
    .elapse 5000000000, .step .reader .go, .step .reader .go,
    .step .reader .suspend, .step .reader .dialed, .step .reader .go, .step .reader .go,
    .step .reader .suspend,
    .send (.text "second"), .step (.send 3) .go, .step (.send 3) .go, .step (.send 3) .suspend,
    .step (.send 3) .written,
    .close, .step (.close 0) .go, .step (.close 0) .go, .step (.close 0) .go,
    .step (.close 0) .suspend, .step .reader .go, .step (.close 0) .go, .step (.close 0) .go,
    .step (.close 0) .go, .step (.close 0) .go, .step (.close 0) .go, .step (.close 0) .go,
    .step (.close 0) .go, .step (.close 0) .suspend, .send (.text "late"), .step (.send 4) .go]

/-- Such calls write two messages to the first socket and one to the second; the call that found no
socket and the one that came late write nothing. -/
theorem sends_ordered_across_sockets : ∃ c history grants,
    Run .await "ws://host/" { pingIntervalMs := 0 } 0 0 0 c history ∧
      SentInTurn c history grants ∧
      c.messagesSent 0 grants = [.text "first", .binary [1]] ∧
      c.messagesSent 1 grants = [.text "second"] ∧
      c.sendPoint? 2 = some (.returned .notConnected) ∧
      ∃ before, history = before ++ [.sendCalled 4 (.text "late"), .sendReturned 4 .notFound] ∧
        (stateAfter .connecting before).isLive = false := by
  have hrun : ∃ c history, Run .await "ws://host/" { pingIntervalMs := 0 } 0 0 0 c history ∧
      dataWritten 0 history = [.text "first", .binary [1]] ∧
      dataWritten 1 history = [.text "second"] ∧
      c.sendPoint? 2 = some (.returned .notConnected) ∧
      history = history.dropLast.dropLast ++
        [.sendCalled 4 (.text "late"), .sendReturned 4 .notFound] :=
    ⟨_, _, ⟨Nat.le_refl 0, Reaches.of_follow? sendingMoves .refl rfl⟩, rfl, rfl, rfl, rfl⟩
  obtain ⟨c, history, hrun, hfirst, hsecond, hlost, hlate⟩ := hrun
  obtain ⟨⟨grants, hgranted⟩, hsent, hfinds, -⟩ := hrun.sends_ordered
  have hdead := ((hfinds _ 4 _ _ hlate).notFound_iff .notFound (by rw [hlate]; simp)).mp rfl
  refine ⟨c, history, grants, hrun, hsent grants hgranted, ?_, ?_, hlost, _, hlate, hdead⟩
  · rw [← (hsent grants hgranted).written, hfirst]
  · rw [← (hsent grants hgranted).written, hsecond]

end Connection

end Uplink.Stream

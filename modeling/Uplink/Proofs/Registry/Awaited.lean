import Uplink.Proofs.Registry.Failures
import Uplink.Proofs.Registry.Inert
import Uplink.Proofs.Stream.Apart

/-! The calls on streams that calls on a registry wait for. A call that closes streams goes on once
they are closed, and a call that sends has found its stream live; so calls that fail leave no
trace. -/

namespace Uplink.Stream

namespace Connection

variable {c c' : Connection} {k : CallId} {message : Message} {events : List Event}

/-- A call to send finds the stream live, or has found it so. -/
def TakenOn (c : Connection) (k : CallId) : Prop :=
  ∃ p, c.sendPoint? k = some p ∧ (∀ message, p = .checking message → c.isLive = true) ∧
    p ≠ .returned .notFound

/-- A call to close has been made, and returns only from a closed stream. -/
structure ClosedBy (c : Connection) (k : CallId) : Prop where
  made : k < c.closes.length
  closed : c.closePoint? k = some .returned → c.state = .closed

theorem takenOn_of_send (hlive : c.isLive = true)
    (hnext : c.next? (.send message) = some (c', events)) : TakenOn c' c.sends.length := by
  cases hnext
  refine ⟨.checking message, ?_, fun _ _ => hlive, by simp⟩
  simp [sendPoint?]

theorem TakenOn.of_moves (h : TakenOn c k) (hturn : InTurn c) (hmoves : Moves c c') :
    TakenOn c' k := by
  cases hmoves with
  | stays => exact h
  | @makes m _ _ hadmits hnext =>
    obtain ⟨p, hp, hlive, hfound⟩ := h
    have hstep := Transition.of_next? hnext
    by_cases hchecking : ∃ message, p = .checking message
    -- Nothing comes between the call and the step in which it looks at the state.
    · obtain ⟨message, rfl⟩ := hchecking
      obtain ⟨sig, rfl⟩ := eq_step_of_checking hturn hp hadmits
      cases hstep with
      | suspend hwaits =>
        rw [waits_of_checking hp] at hwaits
        cases hwaits
      | sending hsend =>
        obtain ⟨p, q, hp', hpoint, -, -, hgoes⟩ := hsend.goes
        cases hp.symm.trans hp'
        cases hgoes with
        | accept => exact ⟨_, (hpoint k).trans (if_pos rfl), by simp, by simp⟩
        | refuse hdead => cases (hlive message rfl).symm.trans hdead
    · have hnot : ∀ message, p ≠ .checking message := fun message hp => hchecking ⟨message, hp⟩
      rcases hstep.sendPoint?_of_some hp with hsame | ⟨q, hq, hgoes⟩
      · exact ⟨p, hsame, fun message heq => absurd heq (hnot message), hfound⟩
      · obtain ⟨hnot', hfound'⟩ := hgoes.accepted hnot
        exact ⟨q, hq, fun message heq => absurd heq (hnot' message), hfound'⟩

theorem closedBy_closeCalled : ClosedBy c.closeCalled c.closes.length := by
  refine ⟨by simp [closeCalled], fun hreturned => ?_⟩
  rw [closeCalled, closePoint?_start_close, if_pos rfl] at hreturned
  cases hreturned

theorem ClosedBy.of_moves (h : ClosedBy c k) (horderly : Orderly c) (hmoves : Moves c c') :
    ClosedBy c' k := by
  cases hmoves with
  | stays => exact h
  | makes _ hnext =>
    have hstep := Transition.of_next? hnext
    have hreturns := hstep.returnsClosed h.made
    refine ⟨hreturns.lt_length, fun hreturned => ?_⟩
    by_cases hwas : c.closePoint? k = some .returned
    · exact horderly.closes.closed_of_transition hstep (h.closed hwas)
    · exact hreturns.closed hwas hreturned

theorem ClosedBy.closed_of_finished (h : ClosedBy c k) (hk : c.hasFinished (.close k) = true) :
    c.state = .closed := by
  by_contra hopen
  have hnot := hasFinished_close_eq_false.mpr ⟨h.made, fun hreturned => hopen (h.closed hreturned)⟩
  cases hk.symm.trans hnot

end Connection

namespace Registry

/-- What holds of the calls on streams that a call at a point waits for. -/
structure Awaits (r : Registry) (p : Point) : Prop where
  closes : ∀ id k, (id, k) ∈ p.closings → ∃ c, r.connections[id]? = some c ∧ c.ClosedBy k
  sends : ∀ id k, p = .sending id k → ∃ c, r.connections[id]? = some c ∧ c.TakenOn k

/-- What a step of a call at a point leaves behind. -/
structure Leaves (r r' : Registry) (n : Nat) (p : Point) (sig : Signal) (events : List Event) :
    Prop where
  /-- A call that is to dial changes nothing of another address; once it has failed, nothing is
  tracked for its own. -/
  connect : ∀ address settings, p.call? = some (.connect address settings) →
    KeepsOthers address r r' ∧ ∀ e, .returned n (.failed e) ∈ events →
      r'.tracked.get? address = none
  /-- A call that waits for its turn, or fails in it, changes nothing. -/
  look : ∀ call, p = .looking call → (sig = .suspend ∨ ∃ e, .returned n (.failed e) ∈ events) →
    Untouched r r'
  /-- A call that comes to close streams has forgotten them. -/
  release : ∀ q, p.hasActed = false → r'.point? n = some q → q.isClosing = true →
    ∃ call, p.call? = some call ∧ Releases r r' call q.closings
  /-- A call that has closed streams changes nothing. -/
  close : ∀ closings, p = .closing closings → Untouched r r'
  /-- A call to send that has found a stream is not told that there is none. -/
  send : ∀ id, .returned n (.sent id .notFound) ∉ events

/-- A stream is closed. -/
def Closed (r : Registry) (id : ConnectionId) : Prop :=
  ∃ c, r.connections[id]? = some c ∧ c.state = .closed

/-- A run in which calls to close a stream follow each other. -/
inductive ApartRun (id : ConnectionId) (epoch : Int) : Registry → List Event → Prop where
  | start : ApartRun id epoch (empty epoch) []
  | move {r r' : Registry} {history events : List Event} {m : Move} :
      ApartRun id epoch r history → r.admits .await m = true → r.next? m = some (r', events) →
      (∀ c, r'.connections[id]? = some c → c.ClosesApart) →
      ApartRun id epoch r' (history ++ events)

variable {epoch : Int} {r r' r₁ : Registry} {history events later : List Event}
  {turns : List ActingTurn} {schedule : Schedule} {n m : Nat} {p q : Point} {id : ConnectionId}
  {k : CallId} {call : Call} {sig : Signal} {c : Connection}

/-! ### Calls that wait -/

theorem Awaits.idle (hclosings : p.closings = []) (hsending : ∀ id k, p ≠ .sending id k) :
    Awaits r p :=
  ⟨fun _ _ hmem => (List.not_mem_nil (hclosings ▸ hmem)).elim,
    fun id k heq => absurd heq (hsending id k)⟩

theorem Awaits.of_isDone (h : p.isDone = true) : Awaits r p := by
  cases p with
  | dialing | returned => exact .idle rfl (by simp)
  | _ => cases h

/-- While a call waits, what holds of the calls on streams goes on holding. -/
theorem Awaits.of_streamStep (h : Awaits r p) (hsole : Sole r) (hstream : StreamStep r r') :
    Awaits r' p := by
  refine ⟨fun id k hmem => ?_, fun id k heq => ?_⟩
  · obtain ⟨c, hc, hclosed⟩ := h.closes id k hmem
    obtain ⟨c', hc', hmoves⟩ := hstream.goes_on hc
    exact ⟨c', hc', hclosed.of_moves (hsole.orderly id c hc) hmoves⟩
  · obtain ⟨c, hc, htaken⟩ := h.sends id k heq
    obtain ⟨c', hc', hmoves⟩ := hstream.goes_on hc
    exact ⟨c', hc', htaken.of_moves (hsole.orderly id c hc).inTurn hmoves⟩

/-- Only a call to send comes to wait for a call to send, in the turn in which it looks. -/
theorem send_of_callStep (hp : r.point? n = some p) (hacted : p.hasActed = false)
    (h : r.callStep n sig = some (r', events)) (hq : r'.point? n = some (.sending id k)) :
    ∃ address message, p = .looking (.send address message) := by
  obtain ⟨p', q, hp', hpoints, hfollows, -⟩ := point?_of_callStep h
  cases hp.symm.trans hp'
  rw [hpoints, if_pos rfl] at hq
  cases hq
  obtain ⟨_, hcall, address, message, rfl⟩ := hfollows hacted
  refine ⟨address, message, ?_⟩
  cases p with
  | looking => cases hcall; rfl
  | _ => cases hcall

theorem go_of_looking (hp : r.point? n = some (.looking call))
    (h : r.callStep n sig = some (r', events)) : r.next? (.step n .go) = some (r', events) := by
  cases sig with
  | go => exact h
  | _ => simp [callStep, hp] at h

/-- A call that acts begins the calls on streams that it comes to wait for. -/
theorem Awaits.of_acting (hsole : Sole r) (hp : r.point? n = some p) (hacted : p.hasActed = false)
    (h : r.callStep n sig = some (r', events)) (hq : r'.point? n = some q) : Awaits r' q := by
  cases q with
  | replacing | closing =>
    obtain ⟨_, -, hreleases⟩ := Releases.of_callStep hsole hp hacted h hq rfl
    refine ⟨fun id k hmem => ?_, by simp⟩
    obtain ⟨_, c, -, -, -, rfl, hc'⟩ := hreleases.closes id k hmem
    exact ⟨_, hc', Connection.closedBy_closeCalled⟩
  | sending id k =>
    refine ⟨by simp [Point.closings], fun id' k' heq => ?_⟩
    cases heq
    obtain ⟨address, message, rfl⟩ := send_of_callStep hp hacted h hq
    have hlooks := sendLooks hp (go_of_looking hp h)
    cases hlive : r.live? address with
    | none => cases hq.symm.trans (hlooks.fails_iff.mpr hlive)
    | some i =>
      obtain ⟨c, c', _, hc, hnext, hconnections, hsending⟩ := hlooks.begins i hlive
      cases hq.symm.trans hsending
      have hopen := isLive_of_live? hlive hc
      refine ⟨c', ?_, Connection.takenOn_of_send hopen hnext⟩
      rw [hconnections, List.getElem?_set_self (List.getElem?_eq_some_iff.mp hc).1]
  | _ => exact .idle rfl (by simp)

theorem Awaits.of_callStep (hsole : Sole r) (hstream : StreamStep r r')
    (hawaits : ∀ m q, r.point? m = some q → Awaits r q)
    (h : r.callStep n sig = some (r', events)) (hq : r'.point? m = some q) : Awaits r' q := by
  obtain ⟨p, q', hp, hpoints, -, hdone⟩ := point?_of_callStep h
  by_cases hm : m = n
  · subst hm
    cases hacted : p.hasActed with
    | false => exact .of_acting hsole hp hacted h hq
    | true =>
      rw [hpoints, if_pos rfl] at hq
      cases hq
      exact .of_isDone (hdone hacted)
  · rw [hpoints, if_neg hm] at hq
    exact (hawaits m q hq).of_streamStep hsole hstream

theorem Awaits.of_next? {move : Move} (hsole : Sole r) (hstream : StreamStep r r')
    (hawaits : ∀ m q, r.point? m = some q → Awaits r q)
    (h : r.next? move = some (r', events)) (hq : r'.point? m = some q) : Awaits r' q := by
  have hsame : r'.calls = r.calls → Awaits r' q := fun hcalls =>
    (hawaits m q (by rwa [point?, hcalls] at hq)).of_streamStep hsole hstream
  cases move with
  | call call =>
    cases h
    by_cases hm : m = r.calls.length
    · simp only [point?, hm, List.getElem?_concat_length, Option.map_some, Option.some.injEq] at hq
      subst hq
      exact .idle rfl (by simp)
    · rw [point?, Connection.getElem?_append_of_ne hm] at hq
      exact (hawaits m q hq).of_streamStep hsole hstream
  | step n sig =>
    by_cases hsuspend : sig = .suspend
    · subst hsuspend
      rw [point?_suspend h] at hq
      exact (hawaits m q hq).of_streamStep hsole hstream
    · rw [next?_step hsuspend] at h
      exact .of_callStep hsole hstream hawaits h hq
  | stream id move =>
    obtain ⟨_, _, _, -, -, rfl, -⟩ := moveStream_eq (moveStream_of_next? h)
    exact hsame rfl
  | elapse nanos =>
    cases h
    exact hsame rfl

/-! ### Runs -/

theorem Turned.awaits (h : Turned .await epoch r history turns) (hp : r.point? n = some p) :
    Awaits r p := by
  induction h generalizing n p with
  | start => cases hp
  | move hbefore hadmits hnext ih =>
    exact .of_next? hbefore.sole (hbefore.sole.streamStep hadmits hnext) (fun _ _ => ih) hnext hp

theorem Run.trans (h : Run schedule epoch r history)
    (hreaches : Reaches schedule r history r₁ later) : Run schedule epoch r₁ later := by
  induction hreaches with
  | refl => exact h
  | move _ hadmits hnext ih => exact ih.move hadmits hnext

/-- A call that goes on has closed what it was to close, and that stays closed. -/
theorem Run.closed_of_closings (h : Run .await epoch r history) (hp : r.point? n = some p)
    (hmem : (id, k) ∈ p.closings) (hreaches : Reaches .await r history r₁ later) :
    r₁.point? n = some p ∨ r₁.Closed id := by
  induction hreaches with
  | refl => exact .inl hp
  | @move r₁ r₂ history events m hbefore hadmits hnext ih =>
    obtain ⟨turns, hturned⟩ := (h.trans hbefore).turned
    have hstream := hturned.sole.streamStep hadmits hnext
    have hstays : r₁.Closed id → r₂.Closed id := by
      rintro ⟨c, hc, hclosed⟩
      obtain ⟨c', hc', hmoves⟩ := hstream.goes_on hc
      exact ⟨c', hc', (hturned.sole.orderly id c hc).closed_of_moves hmoves hclosed⟩
    rcases ih with hpoint | hclosed
    · cases hfinished : r₁.taskFinished id (.close k) with
      | false =>
        have hturn : TurnStep r₁ r₂ 0 (r₁.actingTurn? 0 m) events := .of_next? hnext
        exact .inl (hturn.point?_of_closing hpoint hmem hfinished)
      | true =>
        obtain ⟨c, hc, hcloses⟩ := (hturned.awaits hpoint).closes id k hmem
        rw [taskFinished, hc, Option.all_some] at hfinished
        exact .inr (hstays ⟨c, hc, hcloses.closed_of_finished hfinished⟩)
    · exact .inr (hstays hclosed)

theorem ApartRun.run (h : ApartRun id epoch r history) : Run .await epoch r history := by
  induction h with
  | start => exact .refl
  | move _ hadmits hnext _ ih => exact ih.move hadmits hnext

theorem ApartRun.tidy (h : ApartRun id epoch r history) (hc : r.connections[id]? = some c) :
    c.Tidy := by
  induction h generalizing c with
  | start => cases hc
  | @move r r' _ _ m hbefore hadmits hnext hapart ih =>
    obtain ⟨turns, hturned⟩ := hbefore.run.turned
    rcases (hturned.sole.streamStep hadmits hnext).origin hc with ⟨d, hd, hmoves⟩ | ⟨_, _, rfl, -⟩
    · cases hmoves with
      | stays => exact ih hd
      | makes hadmits' hnext' hheld =>
        exact (ih hd).of_next? (hturned.sole.orderly id d hd).closes hadmits' hnext' hheld
          (hapart c hc)
    · exact Connection.tidy_opened ..

theorem notFound_not_sent (hawaits : ∀ m q, r.point? m = some q → Awaits r q)
    (h : r.callStep n sig = some (r', events)) :
    r'.point? n ≠ some (.returned (.sent id .notFound)) := by
  intro hq
  have hfollows : ∀ {p}, r.point? n = some p → p.hasActed = false → False := fun hp hacted => by
    obtain ⟨p', q, hp', hpoints, hfollows, -⟩ := point?_of_callStep h
    cases hp.symm.trans hp'
    rw [hpoints, if_pos rfl] at hq
    cases hq
    obtain ⟨_, -, hfalse⟩ := hfollows hacted
    exact hfalse
  cases CallStep.of_callStep h with
  | look hpoint | claim hpoint => exact hfollows hpoint rfl
  | replace hpoint =>
    unfold beginDial at hq
    split at hq <;> cases eq_of_callAt hpoint rfl hq
  | dialed hpoint | dialFails _ hpoint | closed hpoint => cases eq_of_callAt hpoint rfl hq
  | sent hpoint hreturned =>
    cases eq_of_callAt hpoint rfl hq
    obtain ⟨c, hc, p, hp, -, hfound⟩ := (hawaits n _ hpoint).sends _ _ rfl
    rw [hc] at hreturned
    exact hfound (Option.some.inj (hp.symm.trans hreturned))

theorem Turned.leaves (h : Turned .await epoch r history turns) (hp : r.point? n = some p)
    (hadmits : r.admits .await (.step n sig) = true)
    (hnext : r.next? (.step n sig) = some (r', events)) : Leaves r r' n p sig events where
  connect := fun _ _ hcall => keepsOthers_of_connect h.sole hp hcall hnext
  look := by
    rintro call rfl hfails
    exact untouched_of_look hp hnext hfails
  release := by
    intro q hacted hq hclosing
    have hsuspend : sig ≠ .suspend := by
      rintro rfl
      rw [point?_suspend hnext, hp] at hq
      cases hq
      cases p with
      | replacing | closing => cases hacted
      | _ => cases hclosing
    rw [next?_step hsuspend] at hnext
    exact Releases.of_callStep h.sole hp hacted hnext hq hclosing
  close := by
    rintro closings rfl
    exact untouched_of_closing hp hnext
  send := by
    intro id hmem
    have hreturned := ((h.move hadmits hnext).noted.returned n _).mp
      (List.mem_append_right _ hmem)
    by_cases hsuspend : sig = .suspend
    · subst hsuspend
      obtain ⟨_, _, -, rfl⟩ := suspend_frame hnext
      cases hmem
    · rw [next?_step hsuspend] at hnext
      exact notFound_not_sent (fun _ _ => h.awaits) hnext hreturned

/-- In every run, calls that fail leave no trace, and calls that close streams touch no others. A
call that fails to dial leaves nothing tracked for its address, and no step of it changes what is
tracked for another address or a stream of one; a call that fails because it finds no stream changes
nothing at all. A call that closes streams forgets just them, and like one that replaces a stream it
goes on only once they are closed. No receiver is left of a closed stream whose calls to close have
followed each other. -/
theorem Run.failures_leave_no_trace (h : Run .await epoch r history) :
    (∀ n p sig r' events, r.point? n = some p → r.admits .await (.step n sig) = true →
      r.next? (.step n sig) = some (r', events) → Leaves r r' n p sig events) ∧
    (∀ id move r' events, r.next? (.stream id move) = some (r', events) →
      r'.tracked = r.tracked ∧ ∀ j, j ≠ id → r'.connections[j]? = r.connections[j]?) ∧
    (∀ n p id k r₁ later, r.point? n = some p → (id, k) ∈ p.closings →
      Reaches .await r history r₁ later → r₁.point? n = some p ∨ r₁.Closed id) ∧
    ∀ id c channel, ApartRun id epoch r history → r.connections[id]? = some c →
      c.state = .closed → c.subscriptions.isSubscribed channel = false := by
  obtain ⟨turns, hturned⟩ := h.turned
  refine ⟨fun _ _ _ _ _ => hturned.leaves, fun _ _ _ _ => stream_frame,
    fun _ _ _ _ _ _ => h.closed_of_closings, fun id c channel hapart hc hclosed => ?_⟩
  exact ((hapart.tidy hc).silent_of_closed hclosed).isSubscribed channel

end Registry

end Uplink.Stream

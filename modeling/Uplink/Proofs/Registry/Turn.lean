import Uplink.Proofs.Registry.Plain
import Uplink.Stream.Registry.Run

/-! What a move of a registry means for its calls. A call acts in the last turn that it gets; every
other move leaves what is tracked as it is, but for the dial of the one call that keeps its turn. -/

namespace Uplink.Stream.Registry

/-- The call of a caller who looks, or who dials. -/
def Point.call? : Point → Option Call
  | .looking call => some call
  | .claiming address settings | .replacing address settings _ _ | .dialing address settings _ =>
    some (.connect address settings)
  | _ => none

/-- Whether a call at a point has had the turn in which it acts. -/
def Point.hasActed : Point → Bool
  | .looking _ | .claiming .. => false
  | _ => true

/-- Whether a call at a point keeps its turn. -/
def Point.keepsTurn : Point → Bool
  | .replacing .. | .dialing .. => true
  | _ => false

/-- The calls to close streams that a call at a point waits for. -/
def Point.closings : Point → List (ConnectionId × CallId)
  | .replacing _ _ id k => [(id, k)]
  | .closing closings => closings
  | _ => []

/-- Whether a dial can fail with an error. -/
def isOfDial : Error → Bool
  | .handshake .. | .config _ => true
  | _ => false

/-- Whether a call at a point acts on a target, or has answered with it. -/
def Point.Shows : Point → Target → Prop
  | .replacing .., target | .dialing .., target => target = .undialed
  | .sending id _, target => target = .connection id
  | .closing closings, target => target = .connections (closings.map Prod.fst)
  | .returned answer, target =>
    match answer with
    | .connected id | .found (some id) | .subscribed id _ | .sent id _ => target = .connection id
    | .found none => target = .nothing
    | .closed => ∃ ids, target = .connections ids
    | .failed e =>
      target = .undialed ∧ isOfDial e = true ∨
        ∃ address, e = .connectionNotFound address ∧ target = .notFound address
  | _, _ => False

/-- Whether a dial of a call begins at all. -/
def Call.canDial : Call → Bool
  | .connect address settings => (dialProblem? address settings).isNone
  | _ => false

/-- How many dials a call that dials has begun when it is at a point. -/
def Call.dialsBegun (call : Call) : Point → Nat
  | .replacing .. => 0
  | _ => if call.canDial then 1 else 0

/-- Whether an event tells of a call, rather than of a stream or of what is tracked. -/
def Event.isOfCall : Event → Bool
  | .called .. | .turned _ | .dialStarted .. | .dialEnded .. | .returned .. => true
  | _ => false

/-- Whether an event tells that a call begins to dial. -/
def Event.startsDialOf (n : Nat) : Event → Bool
  | .dialStarted m _ => m == n
  | _ => false

/-- How many dials begin when a call comes to a point. -/
def Point.starts : Point → Nat
  | .dialing .. => 1
  | _ => 0

/-- What is noted of a call that comes to a point. -/
def Point.notes (n : Nat) : Point → List Event
  | .dialing address _ _ => [.dialStarted n address]
  | .returned answer => [.returned n answer]
  | _ => []

/-- What is tracked, as a plain map. -/
def plain (r : Registry) : Plain := ⟨r.tracked, r.connections.length⟩

/-- Whether a call has to look a second time before it acts. -/
def looksAgain (r : Registry) : Call → Bool
  | .connect address _ => (r.live? address).isNone
  | _ => false

/-- The turn that a move gives to a call, if the call acts in it. -/
def actingTurn? (r : Registry) (place : Nat) : Move → Option ActingTurn
  | .step n .go =>
    match r.point? n with
    | some (.looking call) => if r.looksAgain call then none else some ⟨place, n, call, r.isLive⟩
    | some (.claiming address settings) => some ⟨place, n, .connect address settings, r.isLive⟩
    | _ => none
  | _ => none

variable {r r' : Registry} {n m : Nat} {p q : Point} {id : ConnectionId} {address : String}
  {settings : StreamSettings} {call : Call} {events : List Event} {place : Nat} {sig : Signal}

/-! ### What steps leave as it is -/

theorem point?_callAt (h : r.point? n = some p) (q : Point) (m : Nat) :
    (r.callAt n q).point? m = if m = n then some q else r.point? m := by
  obtain ⟨thread, hthread, -⟩ := Option.map_eq_some_iff.mp h
  have hlt := (List.getElem?_eq_some_iff.mp hthread).1
  simp only [point?, callAt, List.getElem?_set]
  by_cases hm : m = n
  · simp [hm, hlt]
  · simp [hm, Ne.symm hm]

theorem moveStream_eq {move : Connection.Move} (h : r.moveStream id move = some (r', events)) :
    ∃ c c' noted, r.connections[id]? = some c ∧ c.next? move = some (c', noted) ∧
      r' = { r with connections := r.connections.set id c' } ∧ events = noted.map (.stream id) := by
  unfold moveStream at h
  split at h
  · cases h
  · next c hc =>
    obtain ⟨⟨c', noted⟩, hnext, heq⟩ := Option.map_eq_some_iff.mp h
    cases heq
    exact ⟨c, c', noted, hc, hnext, rfl, rfl⟩

theorem moveStream_of_next? {move : Connection.Move}
    (h : r.next? (.stream id move) = some (r', events)) :
    r.moveStream id move = some (r', events) := by
  cases move with
  | elapse => cases h
  | dropHandle =>
    simp only [next?] at h
    split at h
    · cases h
    · exact h
  | _ => exact h

theorem next?_step (hsuspend : sig ≠ .suspend) : r.next? (.step n sig) = r.callStep n sig := by
  cases sig <;> first | rfl | exact absurd rfl hsuspend

theorem suspend_frame (h : r.next? (.step n .suspend) = some (r', events)) :
    ∃ turn calls, r' = { r with turn, calls } ∧ events = [] := by
  obtain ⟨d, hd, heq⟩ := Option.map_eq_some_iff.mp h
  cases heq
  unfold suspend? at hd
  split at hd <;> cases hd
  exact ⟨_, _, rfl, rfl⟩

/-- A call that has to wait stays where it is, and so do all others. -/
theorem point?_suspend (h : r.next? (.step n .suspend) = some (r', events)) (m : Nat) :
    r'.point? m = r.point? m := by
  obtain ⟨d, hd, heq⟩ := Option.map_eq_some_iff.mp h
  cases heq
  unfold suspend? at hd
  split at hd <;> cases hd
  simp only [point?, List.getElem?_modify]
  cases r.calls[m]? with
  | none => rfl
  | some t => simp only [Option.map_some]; split <;> rfl

theorem filter_isOfCall_stream (id : ConnectionId) (noted : List Stream.Event) :
    (noted.map (Event.stream id)).filter Event.isOfCall = [] := by
  rw [List.filter_eq_nil_iff]
  intro e he
  obtain ⟨_, -, rfl⟩ := List.mem_map.mp he
  exact Bool.false_ne_true

/-- To start closing a stream changes nothing but that stream. -/
theorem startClose_frame (r : Registry) (id : ConnectionId) : ∃ connections k noted,
    r.startClose id = ({ r with connections }, k, noted) ∧
      connections.length = r.connections.length ∧ noted.filter Event.isOfCall = [] := by
  unfold startClose
  cases hmove : r.moveStream id .close with
  | none => exact ⟨r.connections, _, [], rfl, rfl, rfl⟩
  | some result =>
    obtain ⟨r', events⟩ := result
    obtain ⟨_, c', noted, -, -, rfl, rfl⟩ := moveStream_eq hmove
    exact ⟨_, _, _, rfl, List.length_set, filter_isOfCall_stream id noted⟩

theorem startClose_of_some {c : Connection} (h : r.connections[id]? = some c) :
    r.startClose id =
      ({ r with
          connections :=
            r.connections.set id { c with closes := c.closes ++ [⟨.taking, false, false⟩] } },
        c.closes.length, [.stream id (.closeCalled c.closes.length)]) := by
  simp [startClose, moveStream, h, Connection.next?]

theorem startCloses_frame (r : Registry) (ids : List ConnectionId) : ∃ connections closings noted,
    r.startCloses ids = ({ r with connections }, closings, noted) ∧
      connections.length = r.connections.length ∧ noted.filter Event.isOfCall = [] ∧
      closings.map Prod.fst = ids := by
  induction ids generalizing r with
  | nil => exact ⟨_, _, _, rfl, rfl, rfl, rfl⟩
  | cons id ids ih =>
    obtain ⟨connections, k, noted, hstart, hlength, hnoted⟩ := startClose_frame r id
    obtain ⟨connections', closings, more, hrest, hlength', hmore, hids⟩ :=
      ih { r with connections }
    refine ⟨connections', (id, k) :: closings, noted ++ more, ?_, hlength'.trans hlength, ?_, ?_⟩
    · rw [startCloses, hstart]
      simp only [hrest]
    · rw [List.filter_append, hnoted, hmore, List.append_nil]
    · rw [List.map_cons, hids]

theorem connections_beginDial :
    (r.beginDial n address settings).1.connections = r.connections := by
  unfold beginDial
  split <;> rfl

/-- The steps of a call, by the points from which it makes them. -/
inductive CallStep (r : Registry) (n : Nat) : Signal → Registry → List Event → Prop where
  | look {call : Call} : r.point? n = some (.looking call) → r.mayEnter n = true →
      CallStep r n .go (((r.takeTurn n).leaveTurn n).look n call).1
        (.turned n :: (((r.takeTurn n).leaveTurn n).look n call).2)
  | claim {address : String} {settings : StreamSettings} :
      r.point? n = some (.claiming address settings) → r.mayEnter n = true →
      CallStep r n .go ((r.takeTurn n).claim n address settings).1
        (.turned n :: ((r.takeTurn n).claim n address settings).2)
  | replace {address : String} {settings : StreamSettings} {id : ConnectionId} {k : CallId} :
      r.point? n = some (.replacing address settings id k) →
      r.taskFinished id (.close k) = true →
      CallStep r n .go (r.beginDial n address settings).1 (r.beginDial n address settings).2
  | dialed {address : String} {settings : StreamSettings} {since : Instant} :
      r.point? n = some (.dialing address settings since) →
      CallStep r n .dialed (r.dialSucceeds n address settings).1
        (r.dialSucceeds n address settings).2
  /-- The dial of a call fails, or takes too long. -/
  | dialFails {address : String} {settings : StreamSettings} {since : Instant} {sig : Signal}
      (reason : String) : r.point? n = some (.dialing address settings since) → sig ≠ .go →
      CallStep r n sig (r.dialFails n address reason).1 (r.dialFails n address reason).2
  | sent {id : ConnectionId} {k : CallId} {result : SendResult} :
      r.point? n = some (.sending id k) →
      (r.connections[id]?).bind (·.sendPoint? k) = some (.returned result) →
      CallStep r n .go (r.returns n (.sent id result)).1 (r.returns n (.sent id result)).2
  | closed {closings : List (ConnectionId × CallId)} : r.point? n = some (.closing closings) →
      (∀ id k, (id, k) ∈ closings → r.taskFinished id (.close k) = true) →
      CallStep r n .go (r.returns n .closed).1 (r.returns n .closed).2

theorem CallStep.of_callStep (h : r.callStep n sig = some (r', events)) :
    CallStep r n sig r' events := by
  unfold callStep at h
  split at h
  · split at h
    · cases h
      exact .look ‹_› ‹_›
    · cases h
  · split at h
    · cases h
      exact .claim ‹_› ‹_›
    · cases h
  · next address settings _ _ _ =>
    split at h
    · obtain ⟨rfl, rfl⟩ : (r.beginDial n address settings).1 = r' ∧
          (r.beginDial n address settings).2 = events := Prod.ext_iff.mp (Option.some.inj h)
      exact .replace ‹_› ‹_›
    · cases h
  · cases h
    exact .dialed ‹_›
  · next reason _ =>
    cases h
    exact .dialFails reason ‹_› (by simp)
  · split at h <;> cases h
    exact .dialFails _ ‹_› (by simp)
  · split at h <;> cases h
    exact .sent ‹_› ‹_›
  · split at h <;> cases h
    next hall =>
      exact .closed ‹_› fun id k hmem => List.all_eq_true.mp hall (id, k) hmem
  · cases h

/-- A call gets a turn only if nobody keeps one. -/
theorem holder_of_mayEnter (h : r.mayEnter n = true) : r.turn.holder = none := by
  rw [mayEnter, Bool.and_eq_true, Option.isNone_iff_eq_none] at h
  exact h.1

/-! ### Turns -/

/-- A call has come from a point to another, and nothing else has happened to calls. -/
structure Comes (r r' : Registry) (n : Nat) (p q : Point) : Prop where
  source : r.point? n = some p
  point? : ∀ m, r'.point? m = if m = n then some q else r.point? m

theorem Comes.callAt {d : Registry} (h : r.point? n = some p) (hcalls : d.calls = r.calls)
    (q : Point) : Comes r (d.callAt n q) n p q := by
  have hpoint : ∀ m, d.point? m = r.point? m := fun m => by rw [Registry.point?, hcalls]; rfl
  refine ⟨h, fun m => ?_⟩
  rw [point?_callAt ((hpoint n).trans h), hpoint]

theorem Comes.point?_self (h : Comes r r' n p q) : r'.point? n = some q :=
  (h.point? n).trans (if_pos rfl)

theorem point?_callAt_self {d : Registry} (h : r.point? n = some p) (hcalls : d.calls = r.calls) :
    (d.callAt n q).point? n = some q := (Comes.callAt h hcalls q).point?_self

/-- A call that has its turn acts: what it acts on, what it leaves and what is noted. -/
structure Acts (r r' : Registry) (n : Nat) (p : Point) (call : Call) (events : List Event) :
    Prop where
  shows : p.Shows (r.plain.target r.isLive false call)
  hasActed : p.hasActed = true
  call_eq : ∀ c, p.call? = some c → c = call
  plain : r'.plain = r.plain.perform r.isLive false call
  notes : events.filter Event.isOfCall = p.notes n
  starts : p.starts = if r.plain.dials r.isLive call then call.dialsBegun p else 0
  /-- A stream that is to be replaced was tracked, and a call to close it has begun. -/
  stale : ∀ address settings id k, p = .replacing address settings id k →
    r.tracked.get? address = some id ∧ ∀ c, r.connections[id]? = some c →
      k = c.closes.length ∧ r'.connections[id]? =
        some { c with closes := c.closes ++ [⟨.taking, false, false⟩] }

/-- A call that keeps its turn begins to dial, or ends because no dial can begin. -/
structure Begins (r r' : Registry) (n : Nat) (address : String) (settings : StreamSettings)
    (q : Point) (events : List Event) : Prop where
  hasActed : q.hasActed = true
  shows : q.Shows .undialed
  call_eq : ∀ c, q.call? = some c → c = .connect address settings
  plain : r'.plain = r.plain
  notes : events.filter Event.isOfCall = q.notes n
  starts : q.starts = (Call.connect address settings).dialsBegun q
  unreplaced : ∀ address settings id k, q ≠ .replacing address settings id k
  turn : q = .dialing address settings r.now ∧ r'.turn = r.turn ∨
    q.keepsTurn = false ∧ r'.turn = r.turn.leave n

/-- A call that has acted goes on, and its dial, if it dials, does not succeed. -/
structure Proceeds (r r' : Registry) (n : Nat) (p q : Point) (events : List Event) : Prop where
  hasActed : p.hasActed = true
  hasActed' : q.hasActed = true
  unanswered : ∀ answer, p ≠ .returned answer
  shows : ∀ target, p.Shows target → q.Shows target
  call_eq : ∀ c, q.call? = some c → p.call? = some c
  plain : r'.plain = r.plain
  turn : q.keepsTurn = p.keepsTurn ∧ r'.turn = r.turn ∨
    p.keepsTurn = true ∧ q.keepsTurn = false ∧ r'.turn = r.turn.leave n
  notes : ∃ ended, events.filter Event.isOfCall = ended ++ q.notes n ∧
    (ended = [] ∨ ∃ address, ended = [.dialEnded n address false])
  starts : ∀ call, (∀ c, p.call? = some c → c = call) →
    q.starts + call.dialsBegun p = call.dialsBegun q
  /-- A call that begins to dial has closed the stream that it replaces. -/
  replaced : q.keepsTurn = true → ∃ address settings id k, p = .replacing address settings id k ∧
    q = .dialing address settings r.now ∧ r.taskFinished id (.close k) = true
  /-- A call that goes on has closed what it was to close. -/
  closed : ∀ id k, (id, k) ∈ p.closings → r.taskFinished id (.close k) = true

/-- What a move means for the calls. -/
inductive TurnStep (r r' : Registry) (place : Nat) : Option ActingTurn → List Event → Prop where
  | idle {events : List Event} : (∀ n, r'.point? n = r.point? n) → r'.tracked = r.tracked →
      r'.connections.length = r.connections.length → r'.turn.holder = r.turn.holder →
      events.filter Event.isOfCall = [] → TurnStep r r' place none events
  | call {n : Nat} {call : Call} : r.point? n = none →
      (∀ m, r'.point? m = if m = n then some (.looking call) else r.point? m) →
      r'.plain = r.plain → r'.turn.holder = r.turn.holder →
      TurnStep r r' place none [.called n call]
  /-- A call finds nothing live, and is to look again. -/
  | miss {n : Nat} {address : String} {settings : StreamSettings} :
      Comes r r' n (.looking (.connect address settings)) (.claiming address settings) →
      r'.plain = r.plain → r.turn.holder = none → r'.turn.holder = none →
      TurnStep r r' place none [.turned n]
  /-- A call acts. -/
  | act {n : Nat} {p q : Point} {call : Call} {events : List Event} : Comes r r' n p q →
      p.call? = some call → p.hasActed = false → r.turn.holder = none →
      r'.turn.holder = (if q.keepsTurn then some n else none) → Acts r r' n q call events →
      TurnStep r r' place (some ⟨place, n, call, r.isLive⟩) (.turned n :: events)
  /-- A call that has acted goes on. -/
  | proceed {n : Nat} {p q : Point} {events : List Event} : Comes r r' n p q →
      Proceeds r r' n p q events → TurnStep r r' place none events
  /-- The dial of a call succeeds. -/
  | opened {n : Nat} {address : String} {settings : StreamSettings} {since : Instant} :
      Comes r r' n (.dialing address settings since)
        (.returned (.connected r.connections.length)) →
      r'.plain = ⟨r.tracked.insert address r.connections.length, r.connections.length + 1⟩ →
      r'.turn = r.turn.leave n →
      TurnStep r r' place none [.dialEnded n address true, .tracked address r.connections.length,
        .returned n (.connected r.connections.length)]

/-! ### The turns that calls get -/

theorem get?_plain (address : String) :
    r.plain.tracked.get? address = r.tracked.get? address := rfl

theorem live?_eq (address : String) : r.live? address = r.plain.live? r.isLive address := rfl

theorem exists_of_live? (h : r.live? address = some id) : ∃ c, r.connections[id]? = some c := by
  have hlive : r.isLive id = true := (Option.filter_eq_some_iff.mp h).2
  rw [isLive, Option.any_eq_true] at hlive
  obtain ⟨c, hc, -⟩ := hlive
  exact ⟨c, hc⟩

theorem isLive_of_live? {c : Connection} (h : r.live? address = some id)
    (hc : r.connections[id]? = some c) : c.isLive = true := by
  have hlive : r.isLive id = true := (Option.filter_eq_some_iff.mp h).2
  rwa [isLive, hc] at hlive

/-- A call that is answered with nothing done. -/
theorem Acts.returns {d : Registry} {answer : Answer} (hsame : d.plain = r.plain)
    (hshows : (Point.returned answer).Shows (r.plain.target r.isLive false call))
    (hplain : r.plain.perform r.isLive false call = r.plain)
    (hdials : r.plain.dials r.isLive call = false) :
    Acts r (d.returns n answer).1 n (.returned answer) call (d.returns n answer).2 where
  shows := hshows
  hasActed := rfl
  call_eq := by intro c hc; cases hc
  plain := hsame.trans hplain.symm
  notes := rfl
  starts := by rw [hdials]; rfl
  stale := by intro _ _ _ _ h; cases h

/-- What a call does that looks at what is tracked, unless it has to look again. -/
theorem look_acts (h : r.point? n = some (.looking call)) (hagain : r.looksAgain call = false) :
    ∃ q, Comes r (r.look n call).1 n (.looking call) q ∧ q.keepsTurn = false ∧
      (r.look n call).1.turn = r.turn ∧ Acts r (r.look n call).1 n q call (r.look n call).2 := by
  cases call with
  | connect address settings =>
    cases hlive : r.live? address with
    | none => rw [looksAgain, hlive] at hagain; cases hagain
    | some id =>
      simp only [look, hlive]
      refine ⟨_, .callAt h (by rfl) _, rfl, by rfl, .returns (by rfl) ?_ ?_ ?_⟩
      · rw [Plain.target, ← live?_eq, hlive]; rfl
      · rw [Plain.perform, ← live?_eq, hlive]
      · rw [Plain.dials_connect, ← live?_eq, hlive]; rfl
  | get address =>
    refine ⟨_, .callAt h (by rfl) _, rfl, by rfl, .returns (by rfl) ?_ rfl rfl⟩
    rw [Plain.target, get?_plain]
    cases r.tracked.get? address <;> rfl
  | subscribe address topic =>
    cases hlive : r.live? address with
    | none =>
      simp only [look, hlive, Option.bind_none]
      refine ⟨_, .callAt h (by rfl) _, rfl, by rfl, .returns (by rfl) ?_ rfl rfl⟩
      rw [Plain.target, ← live?_eq, hlive]
      exact .inr ⟨address, rfl, rfl⟩
    | some id =>
      obtain ⟨c, hc⟩ := exists_of_live? hlive
      have hopen := isLive_of_live? hlive hc
      simp only [look, hlive, hc, Option.bind_some, Option.map_some, Connection.subscribe, hopen,
        if_true]
      refine ⟨_, .callAt h (by rfl) _, rfl, by rfl, ?_, rfl, ?_, ?_, rfl, by rfl, by simp⟩
      · rw [Plain.target, ← live?_eq, hlive]; rfl
      · intro c hc; cases hc
      · exact congrArg (Plain.mk r.tracked) List.length_set
  | send address message =>
    cases hlive : r.live? address with
    | none =>
      simp only [look, hlive]
      refine ⟨_, .callAt h (by rfl) _, rfl, by rfl, .returns (by rfl) ?_ rfl rfl⟩
      rw [Plain.target, ← live?_eq, hlive]
      exact .inr ⟨address, rfl, rfl⟩
    | some id =>
      obtain ⟨c, hc⟩ := exists_of_live? hlive
      simp only [look, hlive, moveStream, hc, Connection.next?, Option.map_some]
      refine ⟨_, .callAt h (by rfl) _, rfl, by rfl, ?_, rfl, ?_, ?_, rfl, by rfl, by simp⟩
      · rw [Plain.target, ← live?_eq, hlive]; rfl
      · intro c hc; cases hc
      · exact congrArg (Plain.mk r.tracked) List.length_set
  | close address =>
    cases hget : r.tracked.get? address with
    | none =>
      simp only [look, hget]
      refine ⟨_, .callAt h (by rfl) _, rfl, by rfl, .returns (by rfl) ?_ ?_ rfl⟩
      · have htarget : r.plain.target r.isLive false (.close address) = .notFound address := by
          rw [Plain.target, get?_plain, hget]
        exact .inr ⟨address, rfl, htarget⟩
      · show Plain.mk (r.tracked.erase address) _ = _
        rw [KeyMap.erase_eq_self hget]
        rfl
    | some id =>
      obtain ⟨connections, k, noted, hstart, hlength, hnoted⟩ :=
        startClose_frame (r.forget address) id
      simp only [look, hget, hstart]
      refine ⟨_, .callAt h (by rfl) _, rfl, by rfl, ?_, rfl, ?_, ?_, ?_, by rfl, by simp⟩
      · rw [Plain.target, get?_plain, hget]
        rfl
      · intro c hc; cases hc
      · exact congrArg (Plain.mk (r.tracked.erase address)) hlength
      · exact hnoted
  | closeAll =>
    obtain ⟨connections, closings, noted, hstart, hlength, hnoted, hids⟩ :=
      startCloses_frame { r with tracked := ∅ } (r.tracked.entries.map Prod.snd)
    simp only [look, forgetAll, hstart]
    refine ⟨_, .callAt h (by rfl) _, rfl, by rfl, ?_, rfl, ?_, ?_, ?_, by rfl, by simp⟩
    · show Target.connections (r.tracked.entries.map Prod.snd) =
        .connections (closings.map Prod.fst)
      rw [hids]
    · intro c hc; cases hc
    · exact congrArg (Plain.mk ∅) hlength
    · rw [List.filter_append, hnoted, List.append_nil]
      refine List.filter_eq_nil_iff.mpr fun e he => ?_
      obtain ⟨_, -, rfl⟩ := List.mem_map.mp he
      exact Bool.false_ne_true

theorem isOfDial_dialProblem {e : Error} (h : dialProblem? address settings = some e) :
    isOfDial e = true := by
  unfold dialProblem? at h
  split at h
  · next hvalidate =>
    cases h
    unfold StreamSettings.validate at hvalidate
    split at hvalidate
    · cases hvalidate; rfl
    · split at hvalidate
      · cases hvalidate; rfl
      · split at hvalidate <;> cases hvalidate
        rfl
  · split at h <;> cases h
    rfl

theorem beginDial_comes (h : r.point? n = some p) (address : String) (settings : StreamSettings) :
    ∃ q, Comes r (r.beginDial n address settings).1 n p q ∧
      Begins r (r.beginDial n address settings).1 n address settings q
        (r.beginDial n address settings).2 := by
  unfold beginDial
  cases hproblem : dialProblem? address settings with
  | some e =>
    refine ⟨_, .callAt h (by rfl) _, rfl, .inl ⟨rfl, isOfDial_dialProblem hproblem⟩, ?_, by rfl,
      by rfl, ?_, by simp, .inr ⟨rfl, by rfl⟩⟩
    · intro c hc; cases hc
    · simp [Point.starts, Call.dialsBegun, Call.canDial, hproblem]
  | none =>
    refine ⟨_, .callAt h (by rfl) _, rfl, by rfl, ?_, by rfl, by rfl, ?_, by simp,
      .inl ⟨rfl, by rfl⟩⟩
    · intro c hc; cases hc; rfl
    · simp [Point.starts, Call.dialsBegun, Call.canDial, hproblem]

/-- Where nothing is tracked, a call that looks again begins to dial. -/
theorem claim_of_untracked (h : r.point? n = some (.claiming address settings))
    (hholder : r.turn.holder = some n) (hget : r.tracked.get? address = none) : ∃ q,
    Comes r (r.claim n address settings).1 n (.claiming address settings) q ∧
      (r.claim n address settings).1.turn.holder = (if q.keepsTurn then some n else none) ∧
      Acts r (r.claim n address settings).1 n q (.connect address settings)
        (r.claim n address settings).2 := by
  have hlive : r.plain.live? r.isLive address = none := Plain.live?_eq_none hget
  have htarget : r.plain.target r.isLive false (.connect address settings) = .undialed := by
    rw [Plain.target, hlive]; rfl
  have hplain : r.plain.perform r.isLive false (.connect address settings) = r.plain := by
    rw [Plain.perform, hlive]
    show Plain.mk (r.tracked.erase address) _ = _
    rw [KeyMap.erase_eq_self hget]
    rfl
  have hdials : r.plain.dials r.isLive (.connect address settings) = true := by
    rw [Plain.dials_connect, hlive]; rfl
  obtain ⟨q, hcomes, hbegins⟩ := beginDial_comes h address settings
  rw [claim, hget]
  refine ⟨q, hcomes, ?_, ?_, hbegins.hasActed, hbegins.call_eq, hbegins.plain.trans hplain.symm,
    hbegins.notes, ?_, fun a s i k heq => absurd heq (hbegins.unreplaced a s i k)⟩
  · rcases hbegins.turn with ⟨rfl, hturn⟩ | ⟨hleaves, hturn⟩
    · rw [hturn, hholder]; rfl
    · rw [hturn, hleaves, Turn.leave, hholder, if_pos rfl]; rfl
  · rw [htarget]
    exact hbegins.shows
  · rw [hbegins.starts, hdials, if_pos rfl]

/-- A call that looks again and finds a stream that is live no more begins to close it. -/
theorem claim_of_stale (h : r.point? n = some (.claiming address settings))
    (hholder : r.turn.holder = some n) (hget : r.tracked.get? address = some id)
    (hid : r.isLive id = false) : ∃ q,
    Comes r (r.claim n address settings).1 n (.claiming address settings) q ∧
      (r.claim n address settings).1.turn.holder = (if q.keepsTurn then some n else none) ∧
      Acts r (r.claim n address settings).1 n q (.connect address settings)
        (r.claim n address settings).2 := by
  have hlive : r.plain.live? r.isLive address = none := by
    rw [Plain.live?, get?_plain, hget, Option.filter_some, hid, if_neg Bool.false_ne_true]
  obtain ⟨connections, k, noted, hstart, hlength, hnoted⟩ := startClose_frame (r.forget address) id
  simp only [claim, hget, hid, if_false, hstart, Bool.false_eq_true]
  refine ⟨_, .callAt h (by rfl) _, hholder, ?_, rfl, ?_, ?_, hnoted, ?_, ?_⟩
  · rw [Plain.target, hlive]; rfl
  · intro c hc; cases hc; rfl
  · rw [Plain.perform, hlive]
    exact congrArg (Plain.mk (r.tracked.erase address)) hlength
  · rw [Plain.dials_connect, hlive]; rfl
  · intro a s i l heq
    cases heq
    refine ⟨hget, fun c hc => ?_⟩
    have hlt := (List.getElem?_eq_some_iff.mp hc).1
    rw [startClose_of_some (r := r.forget address) hc] at hstart
    cases hstart
    exact ⟨rfl, List.getElem?_set_self hlt⟩

/-- What a call does that has got the turn to look again. -/
theorem claim_acts (h : r.point? n = some (.claiming address settings))
    (hholder : r.turn.holder = some n) : ∃ q,
    Comes r (r.claim n address settings).1 n (.claiming address settings) q ∧
      (r.claim n address settings).1.turn.holder = (if q.keepsTurn then some n else none) ∧
      Acts r (r.claim n address settings).1 n q (.connect address settings)
        (r.claim n address settings).2 := by
  cases hget : r.tracked.get? address with
  | none => exact claim_of_untracked h hholder hget
  | some id =>
    cases hid : r.isLive id with
    | true =>
      have hlive : r.plain.live? r.isLive address = some id := Plain.live?_eq_some hget hid
      have hleave : (r.turn.leave n).holder = none := by rw [Turn.leave, hholder, if_pos rfl]
      simp only [claim, hget, hid, if_true]
      refine ⟨_, .callAt h (by rfl) _, hleave, .returns (by rfl) ?_ ?_ ?_⟩
      · rw [Plain.target, hlive]; rfl
      · rw [Plain.perform, hlive]
      · rw [Plain.dials_connect, hlive]; rfl
    | false => exact claim_of_stale h hholder hget hid

/-! ### Moves -/

theorem actingTurn?_eq_none (hsig : sig ≠ .go) : r.actingTurn? place (.step n sig) = none := by
  cases sig <;> first | rfl | exact absurd rfl hsig

theorem TurnStep.of_callStep (h : r.callStep n sig = some (r', events)) :
    TurnStep r r' place (r.actingTurn? place (.step n sig)) events := by
  cases CallStep.of_callStep h with
  | @look call hpoint henter =>
    have hholder := holder_of_mayEnter henter
    have hleave : ((r.takeTurn n).leaveTurn n).turn.holder = none := by
      simp [takeTurn, leaveTurn, Turn.take, Turn.leave]
    cases hagain : r.looksAgain call with
    | true =>
      cases call with
      | connect address settings =>
        have hlive : ((r.takeTurn n).leaveTurn n).live? address = none :=
          Option.isNone_iff_eq_none.mp hagain
        simp only [actingTurn?, hpoint, hagain, if_true, look, hlive]
        exact .miss (.callAt hpoint (by rfl) _) rfl hholder hleave
      | get _ | subscribe _ _ | send _ _ | close _ | closeAll => cases hagain
    | false =>
      obtain ⟨q, hcomes, hkeeps, hfree, hacts⟩ :=
        look_acts (r := (r.takeTurn n).leaveTurn n) (n := n) hpoint hagain
      simp only [actingTurn?, hpoint, hagain, if_false, Bool.false_eq_true]
      refine .act ⟨hpoint, hcomes.point?⟩ rfl rfl hholder ?_ ⟨hacts.shows, hacts.hasActed,
        hacts.call_eq, hacts.plain, hacts.notes, hacts.starts, hacts.stale⟩
      rw [hfree, hleave, hkeeps]
      rfl
  | @claim address settings hpoint henter =>
    obtain ⟨q, hcomes, hkeeps, hacts⟩ := claim_acts (r := r.takeTurn n) (n := n) hpoint rfl
    simp only [actingTurn?, hpoint]
    exact .act ⟨hpoint, hcomes.point?⟩ rfl rfl (holder_of_mayEnter henter) hkeeps ⟨hacts.shows,
      hacts.hasActed, hacts.call_eq, hacts.plain, hacts.notes, hacts.starts, hacts.stale⟩
  | @replace address settings id k hpoint hfinished =>
    obtain ⟨q, hcomes, hbegins⟩ := beginDial_comes hpoint address settings
    simp only [actingTurn?, hpoint]
    refine .proceed hcomes ⟨rfl, hbegins.hasActed, by simp, ?_, ?_, hbegins.plain, ?_,
      ⟨[], hbegins.notes, .inl rfl⟩, ?_, ?_, ?_⟩
    · intro target htarget
      cases htarget
      exact hbegins.shows
    · exact fun c hc => congrArg some (hbegins.call_eq c hc).symm
    · rcases hbegins.turn with ⟨rfl, hturn⟩ | ⟨hleaves, hturn⟩
      · exact .inl ⟨rfl, hturn⟩
      · exact .inr ⟨rfl, hleaves, hturn⟩
    · intro call hcall
      cases hcall _ rfl
      exact hbegins.starts
    · intro hkeeps
      rcases hbegins.turn with ⟨rfl, -⟩ | ⟨hleaves, -⟩
      · exact ⟨address, settings, id, k, rfl, rfl, hfinished⟩
      · cases hleaves.symm.trans hkeeps
    · intro i l hmem
      cases List.mem_singleton.mp hmem
      exact hfinished
  | dialed hpoint =>
    exact .opened (.callAt hpoint (by rfl) _) (congrArg (Plain.mk _) List.length_append) rfl
  | @dialFails address settings since sig reason hpoint hsig =>
    rw [actingTurn?_eq_none hsig]
    exact .proceed (.callAt hpoint (by rfl) _) ⟨rfl, rfl, by simp, fun _ h => .inl ⟨h, rfl⟩,
      by simp [Point.call?], rfl, .inr ⟨rfl, rfl, rfl⟩, ⟨_, rfl, .inr ⟨address, rfl⟩⟩,
      fun _ _ => Nat.zero_add _, by simp [Point.keepsTurn], by simp [Point.closings]⟩
  | sent hpoint _ =>
    simp only [actingTurn?, hpoint]
    exact .proceed (.callAt hpoint (by rfl) _) ⟨rfl, rfl, by simp, fun _ h => h,
      by simp [Point.call?], rfl, .inl ⟨rfl, rfl⟩, ⟨_, rfl, .inl rfl⟩, fun _ _ => Nat.zero_add _,
      by simp [Point.keepsTurn], by simp [Point.closings]⟩
  | closed hpoint hall =>
    simp only [actingTurn?, hpoint]
    exact .proceed (.callAt hpoint (by rfl) _) ⟨rfl, rfl, by simp, fun _ h => ⟨_, h⟩,
      by simp [Point.call?], rfl, .inl ⟨rfl, rfl⟩, ⟨_, rfl, .inl rfl⟩, fun _ _ => Nat.zero_add _,
      by simp [Point.keepsTurn], hall⟩

theorem TurnStep.of_moveStream {move : Connection.Move}
    (h : r.moveStream id move = some (r', events)) : TurnStep r r' place none events := by
  obtain ⟨_, c', noted, -, -, rfl, rfl⟩ := moveStream_eq h
  exact .idle (fun _ => rfl) rfl List.length_set rfl (filter_isOfCall_stream id noted)

/-- What every move means for the calls. -/
theorem TurnStep.of_next? {move : Move} (h : r.next? move = some (r', events)) :
    TurnStep r r' place (r.actingTurn? place move) events := by
  cases move with
  | call call =>
    cases h
    refine .call (n := r.calls.length) (by simp [point?]) (fun m => ?_) rfl rfl
    simp only [point?, List.getElem?_append]
    by_cases hm : m = r.calls.length
    · simp [hm]
    · rcases Nat.lt_or_gt_of_ne hm with hlt | hgt
      · simp [hlt, hm]
      · have hnone : r.calls[m]? = none := List.getElem?_eq_none (Nat.le_of_lt hgt)
        have hpos : m - r.calls.length ≠ 0 := by omega
        simp [hm, Nat.not_lt.mpr (Nat.le_of_lt hgt), hpos]
  | step n sig =>
    by_cases hsuspend : sig = .suspend
    · subst hsuspend
      obtain ⟨d, hd, heq⟩ := Option.map_eq_some_iff.mp h
      cases heq
      unfold suspend? at hd
      split at hd <;> cases hd
      refine .idle (point?_suspend h) rfl rfl ?_ rfl
      show (if r.awaitsTurn n then r.turn.join n else r.turn).holder = r.turn.holder
      split
      · unfold Turn.join
        split <;> rfl
      · rfl
    · rw [next?_step hsuspend] at h
      exact .of_callStep h
  | stream id move => exact .of_moveStream (moveStream_of_next? h)
  | elapse n =>
    cases h
    exact .idle (fun _ => rfl) rfl (List.length_map _) rfl rfl

/-! ### Answers with streams -/

theorem returned_not_mem_of_filter {answer : Answer} (h : events.filter Event.isOfCall = []) :
    .returned m answer ∉ events := by
  intro hmem
  have hfilter := List.mem_filter.mpr ⟨hmem, (rfl : (Event.returned m answer).isOfCall = true)⟩
  rw [h] at hfilter
  cases hfilter

/-- A call that looks answers with a stream to use only if it is live. -/
theorem isLive_of_look (h : .returned m (.connected id) ∈ (r.look n call).2) :
    r.isLive id = true := by
  cases call with
  | connect address settings =>
    simp only [look] at h
    split at h
    · next hlive =>
      cases List.mem_singleton.mp h
      exact (Option.filter_eq_some_iff.mp hlive).2
    · cases h
  | get address => cases List.mem_singleton.mp h
  | subscribe address topic =>
    simp only [look] at h
    split at h
    · cases List.mem_singleton.mp h
    · split at h
      · cases List.mem_singleton.mp h
      · simp [returns] at h
  | send address message =>
    simp only [look] at h
    split at h
    · cases List.mem_singleton.mp h
    · split at h
      · next hmove =>
        obtain ⟨_, _, noted, -, -, -, rfl⟩ := moveStream_eq hmove
        exact absurd h (returned_not_mem_of_filter (filter_isOfCall_stream _ _))
      · cases h
  | close address =>
    simp only [look] at h
    split at h
    · cases List.mem_singleton.mp h
    · next i _ =>
      obtain ⟨connections, k, noted, hstart, -, hnoted⟩ := startClose_frame (r.forget address) i
      rw [hstart] at h
      have hrest := (List.mem_cons.mp h).resolve_left Event.noConfusion
      exact absurd hrest (returned_not_mem_of_filter hnoted)
  | closeAll =>
    simp only [look] at h
    obtain ⟨connections, closings, noted, hstart, -, hnoted, -⟩ :=
      startCloses_frame r.forgetAll.2 (r.forgetAll.1.map Prod.snd)
    rw [hstart] at h
    rcases List.mem_append.mp h with h | h
    · obtain ⟨_, -, heq⟩ := List.mem_map.mp h
      cases heq
    · exact absurd h (returned_not_mem_of_filter hnoted)

theorem connected_not_mem_beginDial :
    .returned m (.connected id) ∉ (r.beginDial n address settings).2 := by
  unfold beginDial
  split <;> simp [returns]

/-- A call that looks again answers with a stream to use only if it is live. -/
theorem isLive_of_claim (h : .returned m (.connected id) ∈ (r.claim n address settings).2) :
    r.isLive id = true := by
  simp only [claim] at h
  split at h
  · exact absurd h connected_not_mem_beginDial
  · next i _ =>
    split at h
    · next hlive =>
      cases List.mem_singleton.mp h
      exact hlive
    · obtain ⟨connections, k, noted, hstart, -, hnoted⟩ := startClose_frame (r.forget address) i
      rw [hstart] at h
      have hrest := (List.mem_cons.mp h).resolve_left Event.noConfusion
      exact absurd hrest (returned_not_mem_of_filter hnoted)

/-- A call is given a stream to use only if it is live or newly opened. -/
theorem isLive_of_connected {move : Move} (h : r.next? move = some (r', events))
    (hmem : .returned m (.connected id) ∈ events) :
    r.isLive id = true ∨ id = r.connections.length := by
  cases move with
  | call call => cases h; cases List.mem_singleton.mp hmem
  | elapse => cases h; cases hmem
  | stream i move =>
    obtain ⟨_, _, noted, -, -, -, rfl⟩ := moveStream_eq (moveStream_of_next? h)
    exact absurd hmem (returned_not_mem_of_filter (filter_isOfCall_stream _ _))
  | step n sig =>
    by_cases hsuspend : sig = .suspend
    · subst hsuspend
      obtain ⟨_, _, -, rfl⟩ := suspend_frame h
      cases hmem
    · rw [next?_step hsuspend] at h
      cases CallStep.of_callStep h with
      | look =>
        exact .inl (isLive_of_look (r := (r.takeTurn n).leaveTurn n)
          ((List.mem_cons.mp hmem).resolve_left Event.noConfusion))
      | claim =>
        exact .inl (isLive_of_claim (r := r.takeTurn n)
          ((List.mem_cons.mp hmem).resolve_left Event.noConfusion))
      | replace => exact absurd hmem connected_not_mem_beginDial
      | dialed =>
        simp only [dialSucceeds, returns, List.mem_cons, reduceCtorEq, Event.returned.injEq,
          Answer.connected.injEq, List.not_mem_nil, or_false, false_or] at hmem
        exact .inr hmem.2
      | dialFails => simp [dialFails, returns] at hmem
      | sent | closed => simp [returns] at hmem

end Uplink.Stream.Registry

import Uplink.Proofs.Registry.Linear
import Uplink.Proofs.Stream.Transition

/-! Where dials and streams come from. A call dials only what its caller asked for, and only what
nothing keeps from being dialed; a stream was opened by such a dial, and keeps its address and
settings as long as it lives. -/

namespace Uplink.Stream.Registry

/-- A caller has asked for an address with some settings, and a dial of it can begin. -/
structure Sought (history : List Event) (address : String) (settings : StreamSettings) : Prop where
  called : ∃ n, .called n (.connect address settings) ∈ history
  canDial : dialProblem? address settings = none

/-- Every one of some streams has the address and the settings of one of some others. -/
def Descend (after before : List Connection) : Prop :=
  ∀ c' ∈ after, ∃ c ∈ before, c'.address = c.address ∧ c'.settings = c.settings

variable {schedule : Schedule} {epoch : Int} {r r' : Registry} {history events : List Event}
  {turns : List ActingTurn} {turn : Option ActingTurn} {n place : Nat} {id : ConnectionId}
  {address : String} {settings : StreamSettings} {since : Instant} {call : Call} {sig : Signal}
  {c c' : Connection}

/-- A dial can begin if and only if its settings pass their check and a handshake can be
prepared. -/
theorem dialProblem?_eq_none_iff : dialProblem? address settings = none ↔
    settings.validate = .ok () ∧
      ∃ h, Handshake.prepare "" address settings.headers.entries = .ok h := by
  unfold dialProblem?
  cases settings.validate with
  | error e => simp
  | ok =>
    cases Handshake.prepare "" address settings.headers.entries <;> simp

theorem Sought.append (h : Sought history address settings) (events : List Event) :
    Sought (history ++ events) address settings :=
  ⟨h.called.imp fun _ hmem => List.mem_append_left _ hmem, h.canDial⟩

/-! ### Streams that descend from others -/

theorem Descend.refl (streams : List Connection) : Descend streams streams :=
  fun c hc => ⟨c, hc, rfl, rfl⟩

theorem Descend.trans {first second third : List Connection} (h : Descend third second)
    (h' : Descend second first) : Descend third first := by
  intro c'' hc''
  obtain ⟨c', hc', haddress, hsettings⟩ := h c'' hc''
  obtain ⟨c, hc, haddress', hsettings'⟩ := h' c' hc'
  exact ⟨c, hc, haddress.trans haddress', hsettings.trans hsettings'⟩

theorem Descend.set {move : Connection.Move} {noted : List Stream.Event}
    (hc : r.connections[id]? = some c) (h : c.next? move = some (c', noted)) :
    Descend (r.connections.set id c') r.connections := by
  intro d hd
  rcases List.mem_or_eq_of_mem_set hd with hd | rfl
  · exact ⟨d, hd, rfl, rfl⟩
  · exact ⟨c, List.mem_of_getElem? hc, (Connection.Transition.of_next? h).identity_eq⟩

theorem descend_moveStream {move : Connection.Move}
    (h : r.moveStream id move = some (r', events)) : Descend r'.connections r.connections := by
  obtain ⟨c, c', noted, hc, hnext, rfl, -⟩ := moveStream_eq h
  exact .set hc hnext

theorem descend_startClose (r : Registry) (id : ConnectionId) :
    Descend (r.startClose id).1.connections r.connections := by
  unfold startClose
  cases hmove : r.moveStream id .close with
  | none => exact .refl _
  | some result => exact descend_moveStream hmove

theorem descend_startCloses (r : Registry) (ids : List ConnectionId) :
    Descend (r.startCloses ids).1.connections r.connections := by
  induction ids generalizing r with
  | nil => exact .refl _
  | cons id ids ih => exact (ih (r.startClose id).1).trans (descend_startClose r id)

theorem descend_look (r : Registry) (n : Nat) (call : Call) :
    Descend (r.look n call).1.connections r.connections := by
  cases call with
  | connect address settings =>
    simp only [look]
    split <;> exact .refl _
  | get address => exact .refl _
  | subscribe address topic =>
    simp only [look]
    split
    · exact .refl _
    · next id c hfound =>
      obtain ⟨_, -, hj⟩ := Option.bind_eq_some_iff.mp hfound
      obtain ⟨d, hd, heq⟩ := Option.map_eq_some_iff.mp hj
      cases heq
      split
      · exact .refl _
      · next c' channel hsubscribe =>
        have hnext : c.next? (.subscribe topic) = some (c', [.subscribed topic channel]) := by
          simp only [Connection.next?, hsubscribe]
        exact .set hd hnext
  | send address message =>
    simp only [look]
    split
    · exact .refl _
    · split
      · next hmove =>
        have hsent := descend_moveStream hmove
        exact hsent
      · exact .refl _
  | close address =>
    simp only [look]
    split
    · exact .refl _
    · exact descend_startClose (r.forget address) _
  | closeAll => exact descend_startCloses r.forgetAll.2 _

theorem descend_claim (r : Registry) (n : Nat) (address : String) (settings : StreamSettings) :
    Descend (r.claim n address settings).1.connections r.connections := by
  unfold claim
  split
  · rw [connections_beginDial]
    exact .refl _
  · split
    · exact .refl _
    · exact descend_startClose (r.forget address) _

/-- The streams after a step of a call descend from those before it, but for one that the call has
dialed. -/
theorem connections_of_callStep (h : r.callStep n sig = some (r', events)) :
    Descend r'.connections r.connections ∨ ∃ address settings since,
      r.point? n = some (.dialing address settings since) ∧
        r'.connections = r.connections ++ [.opened address settings r.now r.epoch] := by
  cases CallStep.of_callStep h with
  | @look call => exact .inl (descend_look ((r.takeTurn n).leaveTurn n) n call)
  | @claim address settings => exact .inl (descend_claim (r.takeTurn n) n address settings)
  | replace =>
    rw [connections_beginDial]
    exact .inl (.refl _)
  | @dialed address settings since hpoint => exact .inr ⟨address, settings, since, hpoint, rfl⟩
  | dialFails | sent | closed => exact .inl (.refl _)

/-- The streams after a move descend from those before it, but for one that a call has dialed. -/
theorem connections_of_next? {move : Move} (h : r.next? move = some (r', events)) :
    Descend r'.connections r.connections ∨ ∃ n address settings since,
      r.point? n = some (.dialing address settings since) ∧
        r'.connections = r.connections ++ [.opened address settings r.now r.epoch] := by
  cases move with
  | call call =>
    cases h
    exact .inl (.refl _)
  | step n sig =>
    by_cases hsuspend : sig = .suspend
    · subst hsuspend
      obtain ⟨_, _, rfl, -⟩ := suspend_frame h
      exact .inl (.refl _)
    · rw [next?_step hsuspend] at h
      exact (connections_of_callStep h).imp_right fun hopens => ⟨n, hopens⟩
  | stream id move => exact .inl (descend_moveStream (moveStream_of_next? h))
  | elapse nanos =>
    cases h
    refine .inl fun d hd => ?_
    obtain ⟨c, hc, rfl⟩ := List.mem_map.mp hd
    exact ⟨c, hc, rfl, rfl⟩

/-! ### Dials that were asked for -/

theorem dialProblem?_of_dialsBegun (since : Instant)
    (h : (Call.connect address settings).dialsBegun (.dialing address settings since) ≠ 0) :
    dialProblem? address settings = none := by
  cases hproblem : dialProblem? address settings with
  | none => rfl
  | some e => simp [Call.dialsBegun, Call.canDial, hproblem] at h

/-- A call comes to dial only what nothing keeps from being dialed. -/
theorem TurnStep.canDial (h : TurnStep r r' place turn events)
    (hbefore : ∀ n address settings since, r.point? n = some (.dialing address settings since) →
      dialProblem? address settings = none)
    (hpoint : r'.point? n = some (.dialing address settings since)) :
    dialProblem? address settings = none := by
  cases h with
  | idle hsame => exact hbefore n _ _ since (hsame n ▸ hpoint)
  | call _ hsame =>
    rw [hsame] at hpoint
    split at hpoint
    · cases hpoint
    · exact hbefore n _ _ since hpoint
  | miss hcomes | opened hcomes =>
    rw [hcomes.point?] at hpoint
    split at hpoint
    · cases hpoint
    · exact hbefore n _ _ since hpoint
  | act hcomes _ _ _ _ hacts =>
    rw [hcomes.point?] at hpoint
    split at hpoint
    · cases hpoint
      have hcall := hacts.call_eq _ rfl
      have hstarts := hacts.starts
      rw [← hcall] at hstarts
      refine dialProblem?_of_dialsBegun since fun hzero => ?_
      rw [hzero, ite_self] at hstarts
      cases hstarts
    · exact hbefore n _ _ since hpoint
  | proceed hcomes hproceeds =>
    rw [hcomes.point?] at hpoint
    split at hpoint
    · cases hpoint
      have hcall := hproceeds.call_eq _ rfl
      have hstarts := hproceeds.starts (.connect address settings) fun c hc =>
        Option.some.inj (hc.symm.trans hcall)
      refine dialProblem?_of_dialsBegun since fun hzero => ?_
      rw [hzero, Nat.add_comm] at hstarts
      cases hstarts
    · exact hbefore n _ _ since hpoint

theorem Turned.sought (h : Turned schedule epoch r history turns) :
    (∀ n address settings since, r.point? n = some (.dialing address settings since) →
      Sought history address settings) ∧
    ∀ c ∈ r.connections, Sought history c.address c.settings := by
  induction h with
  | start =>
    constructor
    · intro n address settings since hpoint
      cases hpoint
    · intro c hc
      cases hc
  | @move r r' history events turns move hbefore hadmits hnext ih =>
    obtain ⟨hdials, hstreams⟩ := ih
    have hturn : TurnStep r r' history.length _ events := .of_next? hnext
    refine ⟨fun n address settings since hpoint => ⟨?_, ?_⟩, fun c' hc' => ?_⟩
    · exact ⟨n, (hbefore.move hadmits hnext).noted.called n _ _ hpoint rfl⟩
    · exact hturn.canDial (fun n _ _ since hp => (hdials n _ _ since hp).canDial) hpoint
    · rcases connections_of_next? hnext with hdescend | ⟨n, a, s, since, hdialing, hopened⟩
      · obtain ⟨c, hc, haddress, hsettings⟩ := hdescend c' hc'
        rw [haddress, hsettings]
        exact (hstreams c hc).append events
      · rw [hopened] at hc'
        rcases List.mem_append.mp hc' with hc' | hc'
        · exact (hstreams c' hc').append events
        · cases List.mem_singleton.mp hc'
          exact (hdials n a s since hdialing).append events

/-- What a call dials was asked for. -/
theorem Run.sought_of_dialing (h : Run schedule epoch r history)
    (hpoint : r.point? n = some (.dialing address settings since)) :
    Sought history address settings := by
  obtain ⟨turns, hturned⟩ := h.turned
  exact hturned.sought.1 n address settings since hpoint

/-- The address of a stream was asked for with the stream's settings. -/
theorem Run.sought_of_stream (h : Run schedule epoch r history) (hc : c ∈ r.connections) :
    Sought history c.address c.settings := by
  obtain ⟨turns, hturned⟩ := h.turned
  exact hturned.sought.2 c hc

/-- The moves of a caller who opens a stream with some settings. -/
def openMoves (settings : StreamSettings) : List Move :=
  [.call (.connect "ws://host/" settings), .step 0 .go, .step 0 .go, .step 0 .suspend,
    .step 0 .dialed]

end Uplink.Stream.Registry

import Uplink.Proofs.Registry.Linear
import Uplink.Proofs.Stream.Await

/-! Replacing a stream that is live no more: it is closed before its address is dialed again, and
nothing comes between the end of closing it and the dial. -/

namespace Uplink.Stream

namespace Connection

variable {c c' : Connection} {m : Move} {events : List Event} {k n : CallId} {p : ClosePoint}

/-- A call to close has returned, and had not before, only where the stream is closed. -/
structure ReturnsClosed (c c' : Connection) (k : CallId) : Prop where
  lt_length : k < c'.closes.length
  closed : c.closePoint? k ≠ some .returned → c'.closePoint? k = some .returned → c'.state = .closed

theorem ReturnsClosed.of_closes_eq (h : k < c.closes.length) (hcloses : c'.closes = c.closes) :
    ReturnsClosed c c' k where
  lt_length := hcloses ▸ h
  closed := by
    intro hbefore hafter
    rw [closePoint?, hcloses] at hafter
    exact absurd hafter hbefore

/-- A call to close comes to a point where it has not returned, or returns from a closed stream. -/
theorem ReturnsClosed.closeAt {d : Connection} {q : ClosePoint} (h : k < c.closes.length)
    (hpoint : c.closePoint? n = some q) (hcloses : d.closes = c.closes)
    (hp : p = .returned → d.state = .closed) : ReturnsClosed c (d.closeAt n p) k where
  lt_length := by
    show k < (d.closes.set n ⟨p, false, false⟩).length
    rw [List.length_set, hcloses]
    exact h
  closed := by
    intro hbefore hafter
    have hsame : d.closePoint? k = c.closePoint? k := by rw [closePoint?, hcloses]; rfl
    have hd : d.closePoint? n = some q := by rw [closePoint?, hcloses]; exact hpoint
    rw [closePoint?_closeAt hd] at hafter
    split at hafter
    · exact hp (Option.some.inj hafter)
    · exact absurd (hsame.symm.trans hafter) hbefore

theorem CloseStep.returnsClosed (hstep : CloseStep c n c' events) (h : k < c.closes.length) :
    ReturnsClosed c c' k := by
  cases hstep with
  | leave hpoint hclosed => exact .closeAt h hpoint rfl fun _ => hclosed
  | @abort t _ _ hpoint _ =>
    refine .closeAt h hpoint ?_ (by simp)
    cases t <;> rfl
  | ending hpoint hending =>
    obtain ⟨_, _, _, _, _, rfl⟩ := hending.frame
    exact .closeAt h hpoint rfl (by simp)
  | ended hpoint hending =>
    refine .closeAt h hpoint ?_ fun _ => ?_
    · obtain ⟨_, _, _, _, _, rfl⟩ := hending.frame
      rfl
    · cases hending with
      | alreadyClosed hclosed => exact hclosed
      | finish => rfl
  | take hpoint | begin hpoint _ | cancel hpoint | joined hpoint | join hpoint _ =>
    exact .closeAt h hpoint rfl (by simp)

theorem Transition.returnsClosed (hstep : Transition c m c' events) (h : k < c.closes.length) :
    ReturnsClosed c c' k := by
  cases hstep with
  | @suspend t _ =>
    cases t with
    | close n =>
      refine ⟨by simpa [park] using h, fun hbefore hafter => ?_⟩
      refine absurd ?_ hbefore
      rw [← hafter]
      simp only [closePoint?, park, List.getElem?_modify]
      cases c.closes[k]? with
      | none => rfl
      | some thread => simp only [Option.map_some]; split <;> rfl
    | _ => exact .of_closes_eq h rfl
  | reader hstep =>
    cases hstep with
    | read f => cases f <;> exact .of_closes_eq h rfl
    | ending _ hending =>
      obtain ⟨_, _, _, _, _, rfl⟩ := hending.frame
      exact .of_closes_eq h rfl
    | _ => exact .of_closes_eq h rfl
  | heartbeat hstep =>
    cases hstep with
    | ending _ hending =>
      obtain ⟨_, _, _, _, _, rfl⟩ := hending.frame
      exact .of_closes_eq h rfl
    | _ => exact .of_closes_eq h rfl
  | sending hstep => cases hstep <;> exact .of_closes_eq h rfl
  | closing hstep => exact hstep.returnsClosed h
  | close =>
    refine ⟨Nat.lt_of_lt_of_le h (by simp), fun hbefore hafter => absurd ?_ hbefore⟩
    rw [← hafter, closePoint?, closePoint?, List.getElem?_append_left h]
  | dropHandle =>
    obtain ⟨_, _, habort⟩ := abort_frame c.tasks { c with cancelled := true, tasks := [] }
    rw [habort]
    exact .of_closes_eq h rfl
  | _ => exact .of_closes_eq h rfl

end Connection

namespace Registry

variable {epoch : Int} {r r' : Registry} {history events : List Event} {turns : List ActingTurn}
  {n m : Nat} {p q : Point} {id : ConnectionId} {k : CallId} {address : String}
  {settings : StreamSettings} {sig : Signal}

/-- The stream that a call replaces was tracked when the call got its turn, and is closed once the
call to close it has returned. -/
structure Replaces (r : Registry) (history : List Event) (turns : List ActingTurn) (n : Nat)
    (address : String) (id : ConnectionId) (k : CallId) : Prop where
  tracked : ∃ before t, turns = before ++ [t] ∧ t.caller = n ∧
    (Plain.empty.follow (hasOpened history) before).tracked.get? address = some id
  closing : ∃ c, r.connections[id]? = some c ∧ k < c.closes.length ∧
    (c.closePoint? k = some .returned → c.state = .closed)

/-- No move of a call, other than the success of its dial, changes a stream while a call keeps its
turn. -/
theorem connections_callStep (h : r.callStep m sig = some (r', events))
    (hholder : r.turn.holder = some n)
    (hpoint : ∀ address settings since, r.point? m ≠ some (.dialing address settings since)) :
    r'.connections = r.connections := by
  have hturn : r.mayEnter m ≠ true := fun henter => by
    rw [holder_of_mayEnter henter] at hholder
    cases hholder
  cases CallStep.of_callStep h with
  | look _ henter | claim _ henter => exact absurd henter hturn
  | replace => exact connections_beginDial
  | dialed hdialing | dialFails _ hdialing => exact absurd hdialing (hpoint _ _ _)
  | sent | closed => rfl

/-- A call whose call to close a stream has returned goes on at once. -/
theorem isResumed_of_returned {c : Connection}
    (hpoint : r.point? n = some (.replacing address settings id k))
    (hc : r.connections[id]? = some c) (hreturned : c.closePoint? k = some .returned) :
    r.isQuietCall n = false := by
  have hwaits : r.waits n = false := by
    simp [waits, hpoint, taskFinished, hc, Connection.hasFinished, hreturned]
  simp [isQuietCall, isResumed, hpoint, hwaits]

theorem othersQuiet_spec {except : Option Nat} (h : r.othersQuiet except = true)
    (hpoint : r.point? n = some p) (hne : some n ≠ except) : r.isQuietCall n = true := by
  have hlt : n < r.calls.length := by
    obtain ⟨thread, hthread, -⟩ := Option.map_eq_some_iff.mp hpoint
    exact (List.getElem?_eq_some_iff.mp hthread).1
  have hn := List.all_eq_true.mp h n (List.mem_range.mpr hlt)
  simpa [hne] using hn

/-- A stream that is being replaced stays one whose call to close returns only where it is closed:
once it has returned, no move but the caller's own is admitted. -/
theorem closing_step {move : Move} {c : Connection} (hkept : Kept r turns)
    (hpoint : r.point? n = some (.replacing address settings id k))
    (hc : r.connections[id]? = some c) (hlt : k < c.closes.length)
    (hclosed : c.closePoint? k = some .returned → c.state = .closed)
    (hadmits : r.admits .await move = true) (hnext : r.next? move = some (r', events)) :
    ∃ c', r'.connections[id]? = some c' ∧ k < c'.closes.length ∧
      (c'.closePoint? k = some .returned → c'.state = .closed) := by
  have hholder := hkept.holder_eq hpoint rfl
  cases move with
  | call call =>
    cases hnext
    exact ⟨c, hc, hlt, hclosed⟩
  | step m sig =>
    have hconnections : r'.connections = r.connections := by
      by_cases hsuspend : sig = .suspend
      · subst hsuspend
        obtain ⟨_, _, rfl, -⟩ := suspend_frame hnext
        rfl
      · rw [next?_step hsuspend] at hnext
        refine connections_callStep hnext hholder fun a s since hdialing => ?_
        have hm := hkept.holder_eq hdialing rfl
        rw [hholder] at hm
        cases hm
        rw [hpoint] at hdialing
        cases hdialing
    rw [hconnections]
    exact ⟨c, hc, hlt, hclosed⟩
  | stream i move =>
    obtain ⟨d, d', noted, hd, hstep, rfl, rfl⟩ := moveStream_eq (moveStream_of_next? hnext)
    have hrunning : c.closePoint? k ≠ some .returned := by
      intro hreturned
      have hquiet : r.othersQuiet none = true := by
        have hall := hadmits
        simp only [admits, Bool.and_eq_true] at hall
        exact hall.1.1
      have hn := othersQuiet_spec hquiet hpoint (by simp)
      rw [isResumed_of_returned hpoint hc hreturned] at hn
      cases hn
    by_cases hi : i = id
    · subst hi
      rw [hc] at hd
      cases hd
      have hreturns := (Connection.Transition.of_next? hstep).returnsClosed hlt
      refine ⟨d', ?_, hreturns.lt_length, hreturns.closed hrunning⟩
      exact List.getElem?_set_self (List.getElem?_eq_some_iff.mp hc).1
    · refine ⟨c, ?_, hlt, hclosed⟩
      show (r.connections.set i d')[id]? = some c
      rw [List.getElem?_set_ne hi, hc]
  | elapse nanos =>
    cases hnext
    refine ⟨{ c with now := c.now + nanos }, ?_, hlt, hclosed⟩
    show (r.connections.map _)[id]? = _
    rw [List.getElem?_map, hc]
    rfl

/-- A call goes on to replace a stream, while no dial succeeds. -/
theorem Replaces.still {move : Move} (h : Replaces r history turns n address id k)
    (hkept : Kept r turns) (hpoint : r.point? n = some (.replacing address settings id k))
    (hadmits : r.admits .await move = true) (hnext : r.next? move = some (r', events))
    (hopened : ∀ m, hasOpened events m = false) :
    Replaces r' (history ++ events) turns n address id k := by
  obtain ⟨⟨before, t, hturns, hcaller, htracked⟩, c, hc, hlt, hclosed⟩ := h
  refine ⟨⟨before, t, hturns, hcaller, ?_⟩,
    closing_step hkept hpoint hc hlt hclosed hadmits hnext⟩
  rw [hasOpened_append_eq hopened, htracked]

/-- A call that acts by replacing a stream begins to close the one that is tracked. -/
theorem Replaces.of_acts {place : Nat} {call : Call} {live : ConnectionId → Bool}
    (hlinear : Linear r history turns)
    (hacts : Acts r r' n (.replacing address settings id k) call events) :
    Replaces r' (history ++ .turned n :: events) (turns ++ [⟨place, n, call, live⟩]) n address id
      k := by
  obtain ⟨hget, hclose⟩ := hacts.stale _ _ _ _ rfl
  have hlt : id < r.connections.length := by
    have hopened := Plain.Opened.empty.follow (hasOpened history) turns
    rw [← hlinear.plain] at hopened
    exact hopened address id hget
  obtain ⟨hk, hconnection⟩ := hclose _ (List.getElem?_eq_getElem hlt)
  refine ⟨⟨turns, _, rfl, rfl, ?_⟩, _, hconnection, ?_, ?_⟩
  · rw [hasOpened_append_eq hacts.hasOpened_eq, ← hlinear.plain]
    exact hget
  · rw [hk, List.length_append]
    exact Nat.lt_succ_self _
  · intro hreturned
    simp [Connection.closePoint?, hk] at hreturned

/-- In a run, every call that replaces a stream does so rightly. -/
theorem Turned.replaces (h : Turned .await epoch r history turns) :
    ∀ n address settings id k, r.point? n = some (.replacing address settings id k) →
      Replaces r history turns n address id k := by
  induction h with
  | start => intro n address settings id k hpoint; cases hpoint
  | @move r r' history events turns move hbefore hadmits hnext ih =>
    intro n address settings id k hpoint
    have hkept := hbefore.kept
    -- A call that replaced the stream before goes on to do so.
    have hstill : r.point? n = some (.replacing address settings id k) →
        (∀ m, hasOpened events m = false) →
        Replaces r' (history ++ events) (turns ++ none.toList) n address id k := by
      intro hpoint hopened
      rw [Option.toList_none, List.append_nil]
      exact (ih n _ _ _ _ hpoint).still hkept hpoint hadmits hnext hopened
    have hstep : TurnStep r r' history.length _ events := .of_next? hnext
    generalize r.actingTurn? history.length move = turn at hstep ⊢
    cases hstep with
    | idle hsame _ _ _ hevents =>
      refine hstill ((hsame n).symm.trans hpoint) fun m => ?_
      rw [← hasOpened_filter, hevents]
      rfl
    | call _ hsame _ _ =>
      rw [hsame] at hpoint
      split at hpoint
      · cases hpoint
      · exact hstill hpoint fun _ => rfl
    | miss hcomes _ _ _ =>
      rw [hcomes.point?] at hpoint
      split at hpoint
      · cases hpoint
      · exact hstill hpoint fun _ => rfl
    | act hcomes _ _ hfree _ hacts =>
      rw [hcomes.point?] at hpoint
      split at hpoint
      · next hnm =>
        subst hnm
        cases hpoint
        exact .of_acts hbefore.linear hacts
      · rw [hkept.holder_eq hpoint rfl] at hfree
        cases hfree
    | proceed hcomes hproceeds =>
      rw [hcomes.point?] at hpoint
      split at hpoint
      · cases hpoint
        obtain ⟨_, _, _, _, -, hdialing, -⟩ := hproceeds.replaced rfl
        cases hdialing
      · exact hstill hpoint hproceeds.hasOpened_eq
    | opened hcomes _ _ =>
      rw [hcomes.point?] at hpoint
      split at hpoint
      · cases hpoint
      · next hne =>
        have hn := hkept.holder_eq hpoint rfl
        rw [hkept.holder_eq hcomes.source rfl] at hn
        exact absurd (Option.some.inj hn).symm hne

theorem Point.eq_dialing_of_mem_notes {a : String} (h : .dialStarted m a ∈ p.notes n) :
    m = n ∧ ∃ settings since, p = .dialing a settings since := by
  cases p with
  | dialing address settings since =>
    cases List.mem_singleton.mp h
    exact ⟨rfl, settings, since, rfl⟩
  | returned answer => simp [notes] at h
  | _ => cases h

/-- When a call begins to dial, the stream that was tracked when it got its turn is closed. -/
theorem Turned.closed_of_dialStarted (h : Turned .await epoch r history turns)
    {before : List ActingTurn} {t : ActingTurn} {move : Move} {a : String}
    (hturns : turns = before ++ [t]) (hnext : r.next? move = some (r', events))
    (hdial : .dialStarted t.caller a ∈ events)
    (hget : (Plain.empty.follow (hasOpened history) before).tracked.get? a = some id) :
    (r.connections[id]?).map Connection.state = some .closed := by
  have hmem : t.caller ∈ turns.map ActingTurn.caller := by simp [hturns]
  have hnoted := (mem_filter_isOfCall rfl).mp hdial
  have hstep : TurnStep r r' 0 _ events := .of_next? hnext
  generalize r.actingTurn? 0 move = turn at hstep
  cases hstep with
  | idle _ _ _ _ hevents => rw [hevents] at hnoted; cases hnoted
  | call => simp at hdial
  | miss => simp at hdial
  | act hcomes _ hp _ _ hacts =>
    rw [List.filter_cons_of_pos rfl, hacts.notes] at hnoted
    rcases List.mem_cons.mp hnoted with heq | hnoted
    · cases heq
    · obtain ⟨hcaller, -⟩ := Point.eq_dialing_of_mem_notes hnoted
      exact absurd (hcaller ▸ hmem) (h.kept.not_mem_of_not_acted hcomes.source hp)
  | @proceed m p q events hcomes hproceeds =>
    obtain ⟨ended, hevents, hended⟩ := hproceeds.notes
    rw [hevents] at hnoted
    rcases List.mem_append.mp hnoted with hnoted | hnoted
    · rcases hended with rfl | ⟨address, rfl⟩
      · cases hnoted
      · cases List.mem_singleton.mp hnoted
    · obtain ⟨rfl, settings, since, rfl⟩ := Point.eq_dialing_of_mem_notes hnoted
      obtain ⟨_, _, i, k, hp, hdialing, hfinished⟩ := hproceeds.replaced rfl
      cases hdialing
      have hpoint := hcomes.source
      rw [hp] at hpoint
      obtain ⟨⟨first, u, hfirst, -, htracked⟩, c, hc, hlt, hclosed⟩ := h.replaces _ _ _ _ _ hpoint
      obtain ⟨rfl, -⟩ := List.append_inj' (hturns.symm.trans hfirst) rfl
      rw [hget] at htracked
      cases htracked
      have hreturned : c.closePoint? k = some .returned := by
        obtain ⟨thread, hthread⟩ : ∃ thread, c.closes[k]? = some thread :=
          ⟨_, List.getElem?_eq_getElem hlt⟩
        rw [taskFinished, hc] at hfinished
        simp only [Option.all_some, Connection.hasFinished, Connection.closePoint?, hthread,
          Option.map_some] at hfinished
        rw [Connection.closePoint?, hthread, Option.map_some]
        split at hfinished
        · next heq => exact heq
        · next heq => cases heq
        · cases hfinished
      rw [hc, Option.map_some, hclosed hreturned]
  | opened => simp at hdial

end Registry

end Uplink.Stream

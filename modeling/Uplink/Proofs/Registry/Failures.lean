import Uplink.Proofs.Registry.Sole

/-! What calls on a registry leave behind. A call that fails to dial leaves nothing tracked for its
address and has touched no other; a call that finds no stream has touched nothing at all; and a
call that closes streams touches those that it has forgotten. -/

namespace Uplink.Stream.Registry

/-- Whether a call at a point waits for streams to be closed. -/
def Point.isClosing : Point → Bool
  | .replacing .. | .closing _ => true
  | _ => false

/-- Whether a call at a point has begun all that it is to begin on streams. -/
def Point.isDone : Point → Bool
  | .dialing .. | .returned _ => true
  | _ => false

/-- Whether a call of some kind can go to a point from its turn. -/
def Point.Follows : Point → Call → Prop
  | .replacing address settings .., call => call = .connect address settings
  | .sending .., call => ∃ address message, call = .send address message
  | .closing _, call => (∃ address, call = .close address) ∨ call = .closeAll
  | .returned (.sent ..), _ => False
  | _, _ => True

/-- Nothing is tracked otherwise than before but for one address, and no stream of another address
has changed. -/
structure KeepsOthers (address : String) (r r' : Registry) : Prop where
  tracked : ∀ a, a ≠ address → r'.tracked.get? a = r.tracked.get? a
  streams : ∀ (id : ConnectionId) c, r.connections[id]? = some c → c.address ≠ address →
    r'.connections[id]? = some c

/-- Neither what is tracked nor any stream has changed. -/
structure Untouched (r r' : Registry) : Prop where
  tracked : r'.tracked = r.tracked
  connections : r'.connections = r.connections

variable {r r' d : Registry} {events : List Event} {n : Nat} {p q : Point} {id : ConnectionId}
  {address : String} {settings : StreamSettings} {call : Call} {sig : Signal}
  {closings : List (ConnectionId × CallId)}

/-! ### Turns -/

theorem KeepsOthers.same (htracked : r'.tracked = r.tracked)
    (hconnections : r'.connections = r.connections) : KeepsOthers address r r' :=
  ⟨fun _ _ => by rw [htracked], fun _ _ hc _ => by rw [hconnections, hc]⟩

theorem eq_of_callAt (hn : r.point? n = some p) {q' : Point} (hcalls : d.calls = r.calls)
    (hq : (d.callAt n q').point? n = some q) : q' = q := by
  rw [(Comes.callAt hn hcalls q').point?, if_pos rfl] at hq
  exact Option.some.inj hq

/-- A call whose turn it is comes to a point, and all other calls stay where they are. -/
theorem callAt_look (call : Call) : ∃ (d : Registry) (q : Point),
    (r.look n call).1 = d.callAt n q ∧ d.calls = r.calls ∧ q.Follows call := by
  cases call with
  | connect address settings =>
    simp only [look]
    split <;> exact ⟨_, _, rfl, rfl, trivial⟩
  | get address => exact ⟨_, _, rfl, rfl, trivial⟩
  | subscribe address topic =>
    simp only [look]
    split
    · exact ⟨_, _, rfl, rfl, trivial⟩
    · split <;> exact ⟨_, _, rfl, rfl, trivial⟩
  | send address message =>
    simp only [look]
    split
    · exact ⟨_, _, rfl, rfl, trivial⟩
    · next id hlive =>
      obtain ⟨c, hc⟩ := exists_of_live? hlive
      simp only [moveStream, hc, Connection.next?, Option.map_some]
      exact ⟨_, _, rfl, rfl, ⟨_, _, rfl⟩⟩
  | close address =>
    simp only [look]
    split
    · exact ⟨_, _, rfl, rfl, trivial⟩
    · exact ⟨_, _, rfl, calls_startClose, .inl ⟨_, rfl⟩⟩
  | closeAll => exact ⟨_, _, rfl, calls_startCloses, .inr rfl⟩

theorem callAt_beginDial : ∃ (d : Registry) (q : Point),
    (r.beginDial n address settings).1 = d.callAt n q ∧ d.calls = r.calls ∧ q.isDone = true ∧
      q.Follows (.connect address settings) := by
  unfold beginDial
  split <;> exact ⟨_, _, rfl, rfl, rfl, trivial⟩

theorem callAt_claim (address : String) (settings : StreamSettings) : ∃ (d : Registry) (q : Point),
    (r.claim n address settings).1 = d.callAt n q ∧ d.calls = r.calls ∧
      q.Follows (.connect address settings) := by
  unfold claim
  split
  · obtain ⟨d, q, heq, hcalls, -, hfollows⟩ := callAt_beginDial (r := r) (n := n)
    exact ⟨d, q, heq, hcalls, hfollows⟩
  · split
    · exact ⟨_, _, rfl, rfl, trivial⟩
    · exact ⟨_, _, rfl, calls_startClose, rfl⟩

/-- A step of a call leaves all others where they are. The call goes from its turn to where its kind
goes; once it has had the turn in which it acts, it begins nothing on a stream any more. -/
theorem point?_of_callStep (h : r.callStep n sig = some (r', events)) :
    ∃ p q, r.point? n = some p ∧ (∀ m, r'.point? m = if m = n then some q else r.point? m) ∧
      (p.hasActed = false → ∃ call, p.call? = some call ∧ q.Follows call) ∧
      (p.hasActed = true → q.isDone = true) := by
  have hcomes : ∀ (d : Registry) p q, r.point? n = some p → d.calls = r.calls →
      (p.hasActed = false → ∃ call, p.call? = some call ∧ q.Follows call) →
      (p.hasActed = true → q.isDone = true) →
      ∃ p q', r.point? n = some p ∧
        (∀ m, (d.callAt n q).point? m = if m = n then some q' else r.point? m) ∧
          (p.hasActed = false → ∃ call, p.call? = some call ∧ q'.Follows call) ∧
          (p.hasActed = true → q'.isDone = true) :=
    fun d p q hp hcalls hfollows hdone =>
      ⟨p, q, hp, (Comes.callAt hp hcalls q).point?, hfollows, hdone⟩
  cases CallStep.of_callStep h with
  | @look call hp =>
    obtain ⟨d, q, heq, hcalls, hfollows⟩ :=
      callAt_look (r := (r.takeTurn n).leaveTurn n) (n := n) call
    rw [heq]
    exact hcomes d _ q hp hcalls (fun _ => ⟨call, rfl, hfollows⟩) Bool.noConfusion
  | @claim address settings hp =>
    obtain ⟨d, q, heq, hcalls, hfollows⟩ :=
      callAt_claim (r := r.takeTurn n) (n := n) address settings
    rw [heq]
    exact hcomes d _ q hp hcalls (fun _ => ⟨_, rfl, hfollows⟩) Bool.noConfusion
  | replace hp =>
    obtain ⟨d, q, heq, hcalls, hq, -⟩ := callAt_beginDial (r := r) (n := n)
    rw [heq]
    exact hcomes d _ q hp hcalls Bool.noConfusion fun _ => hq
  | dialed hp | dialFails _ hp | sent hp | closed hp =>
    exact hcomes _ _ _ hp rfl Bool.noConfusion fun _ => rfl

/-- Who comes to close streams has forgotten them. -/
theorem Releases.look (htracks : Tracks r) (hn : r.point? n = some p)
    (hq : (r.look n call).1.point? n = some q)
    (hclosing : q.isClosing = true) : Releases r (r.look n call).1 call q.closings := by
  obtain ⟨d, q', hlook, hcalls, hfollows⟩ := callAt_look (r := r) (n := n) call
  obtain rfl := eq_of_callAt hn hcalls (hlook ▸ hq)
  cases q' with
  | replacing =>
    cases hfollows
    simp only [Registry.look] at hq
    split at hq <;> cases eq_of_callAt hn rfl hq
  | closing =>
    rcases hfollows with ⟨address, rfl⟩ | rfl
    · simp only [Registry.look] at hq ⊢
      split at hq
      · cases eq_of_callAt hn rfl hq
      · next id hget =>
        obtain ⟨c, hc⟩ := htracks.exists_stream address id hget
        cases eq_of_callAt hn (calls_startClose (r := r.forget address)) hq
        exact .one hget hc (mayForget_close address) _ n
    · simp only [Registry.look] at hq ⊢
      cases eq_of_callAt hn (calls_startCloses (r := r.forgetAll.2)) hq
      exact .all htracks _ n
  | _ => cases hclosing

theorem Releases.claim (htracks : Tracks r) (hn : r.point? n = some p)
    (hq : (r.claim n address settings).1.point? n = some q)
    (hclosing : q.isClosing = true) :
    Releases r (r.claim n address settings).1 (.connect address settings) q.closings := by
  unfold Registry.claim at hq ⊢
  split at hq
  · unfold beginDial at hq
    split at hq <;> cases eq_of_callAt hn rfl hq <;> cases hclosing
  · next id hget =>
    split at hq
    · cases eq_of_callAt hn rfl hq; cases hclosing
    · next hdead =>
      obtain ⟨c, hc⟩ := htracks.exists_stream address id hget
      cases eq_of_callAt hn (calls_startClose (r := r.forget address)) hq
      rw [if_neg hdead]
      exact .one hget hc (mayForget_connect address settings) _ n

theorem Releases.of_callStep (hsole : Sole r) (hp : r.point? n = some p)
    (hacted : p.hasActed = false) (h : r.callStep n sig = some (r', events))
    (hq : r'.point? n = some q) (hclosing : q.isClosing = true) :
    ∃ call, p.call? = some call ∧ Releases r r' call q.closings := by
  cases CallStep.of_callStep h with
  | @look call hpoint =>
    cases hp.symm.trans hpoint
    exact ⟨call, rfl, .of_turn (.look (r := (r.takeTurn n).leaveTurn n) hsole.tracks.of_turn hpoint
      hq hclosing)⟩
  | @claim address settings hpoint =>
    cases hp.symm.trans hpoint
    exact ⟨_, rfl, .of_turn (.claim (r := r.takeTurn n) hsole.tracks.of_turn hpoint hq hclosing)⟩
  | replace hpoint | dialed hpoint | dialFails _ hpoint | sent hpoint | closed hpoint =>
    cases hp.symm.trans hpoint
    cases hacted

/-! ### Calls that fail -/

theorem KeepsOthers.of_releases (h : Releases r r' call closings)
    (hsole : Sole r) (hcall : ∀ a, call.mayForget a ↔ a = address) : KeepsOthers address r r' := by
  refine ⟨fun a ha => h.keeps a fun hmay => ha ((hcall a).mp hmay), fun id c hc hne => ?_⟩
  refine h.others id c hc fun hmem => hne ?_
  obtain ⟨⟨_, k⟩, hk, rfl⟩ := List.mem_map.mp hmem
  obtain ⟨a, _, hmay, hget, -⟩ := h.closes _ k hk
  obtain ⟨d, hd, haddress⟩ := hsole.tracked a _ hget
  cases hc.symm.trans hd
  exact haddress.trans ((hcall a).mp hmay)

/-- A dial that does not begin leaves everything as it is. -/
theorem untouched_beginDial (address : String) (settings : StreamSettings) :
    Untouched r (r.beginDial n address settings).1 := by
  unfold beginDial
  split <;> exact ⟨rfl, rfl⟩

theorem untouched_suspend (h : r.next? (.step n .suspend) = some (r', events)) :
    Untouched r r' ∧ events = [] := by
  obtain ⟨_, _, rfl, hevents⟩ := suspend_frame h
  exact ⟨⟨rfl, rfl⟩, hevents⟩

/-- A step of a call that dials changes nothing that is tracked for another address and no stream of
another address; if it fails, nothing is tracked for its own. -/
theorem keepsOthers_of_connect (hsole : Sole r) (hp : r.point? n = some p)
    (hcall : p.call? = some (.connect address settings))
    (h : r.next? (.step n sig) = some (r', events)) :
    KeepsOthers address r r' ∧
      ∀ e, .returned n (.failed e) ∈ events → r'.tracked.get? address = none := by
  by_cases hsuspend : sig = .suspend
  · subst hsuspend
    obtain ⟨huntouched, rfl⟩ := untouched_suspend h
    exact ⟨KeepsOthers.same huntouched.1 huntouched.2, by simp⟩
  rw [next?_step hsuspend] at h
  have hvacant : p.dials? = some address → r.tracked.get? address = none :=
    hsole.vacant n p address hp
  cases CallStep.of_callStep h with
  | look hpoint =>
    cases hp.symm.trans hpoint
    cases hcall
    simp only [look]
    split
    · exact ⟨.same rfl rfl, by simp [returns]⟩
    · exact ⟨.same rfl rfl, by simp⟩
  | claim hpoint =>
    cases hp.symm.trans hpoint
    cases hcall
    unfold Registry.claim
    split
    · next hnone =>
      obtain ⟨htracked, hconnections⟩ :=
        untouched_beginDial (r := r.takeTurn n) (n := n) address settings
      exact ⟨.same htracked hconnections, fun e _ => htracked ▸ hnone⟩
    · next id hget =>
      split
      · exact ⟨.same rfl rfl, by simp [returns]⟩
      · obtain ⟨c, hc, -⟩ := hsole.tracked address id hget
        have hforget := mayForget_connect address settings
        have hreleases := Releases.one (r := r.takeTurn n) hget hc hforget
        refine ⟨.of_releases (.of_turn (hreleases _ n)) hsole hforget, ?_⟩
        have hc' : ((r.takeTurn n).forget address).connections[id]? = some c := hc
        rw [startClose_of_some hc']
        simp
  | replace hpoint =>
    cases hp.symm.trans hpoint
    cases hcall
    obtain ⟨htracked, hconnections⟩ := untouched_beginDial (r := r) (n := n) address settings
    exact ⟨.same htracked hconnections, fun e _ => htracked ▸ hvacant rfl⟩
  | @dialed _ _ since hpoint =>
    cases hp.symm.trans hpoint
    cases hcall
    refine ⟨⟨fun a ha => ?_, fun id c hc _ => ?_⟩, by simp [dialSucceeds, returns]⟩
    · exact (KeyMap.get?_insert _ _ _ _).trans (if_neg ha)
    · exact (List.getElem?_append_left (List.getElem?_eq_some_iff.mp hc).1).trans hc
  | dialFails reason hpoint =>
    cases hp.symm.trans hpoint
    cases hcall
    exact ⟨.same rfl rfl, fun e _ => hvacant rfl⟩
  | sent hpoint | closed hpoint =>
    cases hp.symm.trans hpoint
    cases hcall

theorem untouched_look {e : Error} (hmem : .returned n (.failed e) ∈ (r.look n call).2) :
    Untouched r (r.look n call).1 := by
  cases call with
  | connect address settings =>
    simp only [look]
    split <;> exact ⟨rfl, rfl⟩
  | get address => exact ⟨rfl, rfl⟩
  | subscribe address topic =>
    cases hlive : r.live? address with
    | none =>
      simp only [look, hlive, Option.bind_none]
      exact ⟨rfl, rfl⟩
    | some id =>
      obtain ⟨c, hc⟩ := exists_of_live? hlive
      have hopen := isLive_of_live? hlive hc
      simp [look, hlive, hc, Connection.subscribe, hopen, returns] at hmem
  | send address message =>
    cases hlive : r.live? address with
    | none =>
      simp only [look, hlive]
      exact ⟨rfl, rfl⟩
    | some id =>
      obtain ⟨c, hc⟩ := exists_of_live? hlive
      simp [look, hlive, moveStream, hc, Connection.next?] at hmem
  | close address =>
    cases hget : r.tracked.get? address with
    | none =>
      simp only [look, hget]
      exact ⟨rfl, rfl⟩
    | some id =>
      obtain ⟨_, k, noted, hstart, -, hnoted⟩ := startClose_frame (r.forget address) id
      simp only [look, hget, hstart] at hmem
      exact absurd ((List.mem_cons.mp hmem).resolve_left (by simp))
        (returned_not_mem_of_filter hnoted)
  | closeAll =>
    obtain ⟨_, closings, noted, hstart, -, hnoted, -⟩ :=
      startCloses_frame r.forgetAll.2 (r.forgetAll.1.map Prod.snd)
    simp only [look, hstart] at hmem
    rcases List.mem_append.mp hmem with hmem | hmem
    · obtain ⟨_, -, heq⟩ := List.mem_map.mp hmem
      cases heq
    · exact absurd hmem (returned_not_mem_of_filter hnoted)

/-- A call that waits for its turn, or fails in it, leaves everything as it is. -/
theorem untouched_of_look (hp : r.point? n = some (.looking call))
    (h : r.next? (.step n sig) = some (r', events))
    (hfails : sig = .suspend ∨ ∃ e, .returned n (.failed e) ∈ events) : Untouched r r' := by
  by_cases hsuspend : sig = .suspend
  · subst hsuspend
    exact (untouched_suspend h).1
  obtain ⟨e, hmem⟩ := hfails.resolve_left hsuspend
  rw [next?_step hsuspend] at h
  cases CallStep.of_callStep h with
  | look hpoint =>
    cases hp.symm.trans hpoint
    obtain ⟨htracked, hconnections⟩ :=
      untouched_look ((List.mem_cons.mp hmem).resolve_left (by simp))
    exact ⟨htracked, hconnections⟩
  | claim hpoint | replace hpoint | dialed hpoint | dialFails _ hpoint | sent hpoint
  | closed hpoint => cases hp.symm.trans hpoint

/-- A call that has closed what it was to close returns and changes nothing. -/
theorem untouched_of_closing (hp : r.point? n = some (.closing closings))
    (h : r.next? (.step n sig) = some (r', events)) : Untouched r r' := by
  by_cases hsuspend : sig = .suspend
  · subst hsuspend
    exact (untouched_suspend h).1
  rw [next?_step hsuspend] at h
  cases CallStep.of_callStep h with
  | closed => exact ⟨rfl, rfl⟩
  | look hpoint | claim hpoint | replace hpoint | dialed hpoint | dialFails _ hpoint
  | sent hpoint => cases hp.symm.trans hpoint

end Uplink.Stream.Registry

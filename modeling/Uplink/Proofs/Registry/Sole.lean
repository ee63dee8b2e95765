import Uplink.Proofs.Registry.Release
import Uplink.Proofs.Registry.Replacement
import Uplink.Proofs.Stream.Refusal

/-! At most one live stream of an address is not being closed. A call to close forgets the address
and gives its turn away before the stream is closed, so that another stream of the address may open
meanwhile; but a call that was made to close the old one then still waits for it. -/

namespace Uplink.Stream

namespace Connection

variable {c c' : Connection} {k : CallId} {m : Move} {events : List Event}

/-- A stream stays as it is, or makes a move between two waits; its handle is dropped only once it
is closed. -/
inductive Moves (c : Connection) : Connection → Prop where
  | stays : Moves c c
  | makes {m : Move} {c' : Connection} {events : List Event} : c.admits .await m = true →
      c.next? m = some (c', events) → (m = .dropHandle → c.state = .closed) → Moves c c'

/-- What holds between waits in every run: waiting tasks queue in order, and closing is final. -/
structure Orderly (c : Connection) : Prop where
  inTurn : InTurn c
  closes : Closes c

theorem orderly_opened (address : String) (settings : StreamSettings) (now : Instant)
    (epoch : Int) : Orderly (opened address settings now epoch) :=
  ⟨inTurn_opened address settings now epoch, closes_opened address settings now epoch⟩

theorem Orderly.of_moves (h : Orderly c) (hmoves : Moves c c') : Orderly c' := by
  cases hmoves with
  | stays => exact h
  | makes hadmits hnext =>
    have hstep := Transition.of_next? hnext
    exact ⟨h.inTurn.step (hstep.concerns hadmits), h.closes.of_transition h.inTurn hadmits hstep⟩

theorem Moves.address_eq (h : Moves c c') : c'.address = c.address := by
  cases h with
  | stays => rfl
  | makes _ hnext => exact (Transition.of_next? hnext).identity_eq.1

/-- A stream that is not closed was not closed before. -/
theorem Orderly.not_closed_of_moves (h : Orderly c) (hmoves : Moves c c')
    (hopen : c'.state ≠ .closed) : c.state ≠ .closed := by
  cases hmoves with
  | stays => exact hopen
  | makes _ hnext =>
    intro hclosed
    exact hopen (h.closes.closed_of_transition (.of_next? hnext) hclosed)

theorem Orderly.closed_of_moves (h : Orderly c) (hmoves : Moves c c')
    (hclosed : c.state = .closed) : c'.state = .closed := by
  by_contra hopen
  exact h.not_closed_of_moves hmoves hopen hclosed

theorem hasFinished_close_eq_false :
    c.hasFinished (.close k) = false ↔ k < c.closes.length ∧ c.closePoint? k ≠ some .returned := by
  unfold hasFinished closePoint?
  by_cases hk : k < c.closes.length
  · simp only [List.getElem?_eq_getElem hk, Option.map_some, hk, true_and]
    cases (c.closes[k]).point <;> simp
  · simp [hk]

/-- A call to close returns only from a closed stream. -/
theorem Moves.close_unfinished (h : Moves c c') (hopen : c'.state ≠ .closed)
    (hk : c.hasFinished (.close k) = false) : c'.hasFinished (.close k) = false := by
  cases h with
  | stays => exact hk
  | makes _ hnext =>
    obtain ⟨hlt, hpoint⟩ := hasFinished_close_eq_false.mp hk
    have hreturns := (Transition.of_next? hnext).returnsClosed hlt
    exact hasFinished_close_eq_false.mpr
      ⟨hreturns.lt_length, fun hreturned => hopen (hreturns.closed hpoint hreturned)⟩

theorem hasFinished_closeCalled : c.closeCalled.hasFinished (.close c.closes.length) = false :=
  hasFinished_close_eq_false.mpr (by simp [closeCalled, closePoint?])

theorem moves_closeCalled (hsettled : c.isSettled = true) : Moves c c.closeCalled :=
  .makes (m := .close) hsettled rfl (by simp)

end Connection

namespace Registry

/-- The address that a call at a point dials or is about to dial. -/
def Point.dials? : Point → Option String
  | .replacing address .. | .dialing address .. => some address
  | _ => none

theorem Point.keepsTurn_of_dials? {p : Point} {address : String}
    (h : p.dials? = some address) : p.keepsTurn = true := by
  cases p with
  | replacing | dialing => rfl
  | _ => cases h

theorem Point.closings_of_not_acted {p : Point} (h : p.hasActed = false) : p.closings = [] := by
  cases p with
  | looking | claiming => rfl
  | _ => cases h

/-- Some call waits for a call to close a stream that has not returned. -/
def Closing (r : Registry) (id : ConnectionId) : Prop :=
  ∃ n p k, r.point? n = some p ∧ (id, k) ∈ p.closings ∧ r.taskFinished id (.close k) = false

/-- What a move means for the streams and for what is tracked of them. -/
inductive StreamStep (r r' : Registry) : Prop where
  /-- Streams move, and all that are tracked stay so. -/
  | moves : r'.tracked = r.tracked → r'.connections.length = r.connections.length →
      (∀ (id : ConnectionId) (c : Connection), r.connections[id]? = some c →
        ∃ c', r'.connections[id]? = some c' ∧ c.Moves c') → StreamStep r r'
  /-- A call forgets streams and begins to close them. -/
  | releases {n : Nat} {p : Point} : r'.point? n = some p →
      (∀ address id, r'.tracked.get? address = some id → r.tracked.get? address = some id) →
      r'.connections.length = r.connections.length →
      (∀ (id : ConnectionId) (c : Connection), r.connections[id]? = some c →
        (r'.connections[id]? = some c ∧ ∀ address, r.tracked.get? address = some id →
          r'.tracked.get? address = some id) ∨
        (r'.connections[id]? = some c.closeCalled ∧ c.isSettled = true ∧
          (id, c.closes.length) ∈ p.closings)) → StreamStep r r'
  /-- The dial of a call succeeds. -/
  | opens {n : Nat} {address : String} {settings : StreamSettings} {since : Instant} :
      r.point? n = some (.dialing address settings since) →
      r'.tracked = r.tracked.insert address r.connections.length →
      r'.connections = r.connections ++ [.opened address settings r.now r.epoch] → StreamStep r r'

variable {epoch : Int} {r r' : Registry} {history events : List Event} {turns : List ActingTurn}
  {n m : Nat} {p q : Point} {id i j : ConnectionId} {ids : List ConnectionId} {k : CallId}
  {address : String} {settings : StreamSettings} {call : Call} {sig : Signal} {c c' d : Connection}

/-! ### What a move means for streams -/

theorem StreamStep.same (htracked : r'.tracked = r.tracked)
    (hconnections : r'.connections = r.connections) : StreamStep r r' :=
  .moves htracked (by rw [hconnections]) fun _ c hc => ⟨c, by rw [hconnections, hc], .stays⟩

theorem StreamStep.set (hc : r.connections[id]? = some c) (hmoves : c.Moves c')
    (htracked : r'.tracked = r.tracked) (hconnections : r'.connections = r.connections.set id c') :
    StreamStep r r' := by
  refine .moves htracked (by rw [hconnections, List.length_set]) fun j d hd => ?_
  rw [hconnections]
  by_cases hj : j = id
  · subst hj
    cases hc.symm.trans hd
    exact ⟨c', List.getElem?_set_self (List.getElem?_eq_some_iff.mp hc).1, hmoves⟩
  · exact ⟨d, by rw [List.getElem?_set_ne (Ne.symm hj), hd], .stays⟩

theorem settled_of_streamsSettled (h : r.streamsSettled none = true)
    (hc : r.connections[id]? = some c) : c.isSettled = true := by
  have hid := List.all_eq_true.mp h id
    (List.mem_range.mpr (List.getElem?_eq_some_iff.mp hc).1)
  rw [hc] at hid
  simpa using hid

/-- A call forgets streams and begins to close them. -/
theorem StreamStep.of_releases (h : Releases r r' call p.closings)
    (hsettled : r.streamsSettled none = true) (hpoint : r'.point? n = some p) :
    StreamStep r r' := by
  refine .releases hpoint (fun address id hget => ?_) h.length fun id c hc => ?_
  · by_cases hmay : call.mayForget address
    · cases (h.forgets address hmay).symm.trans hget
    · exact (h.keeps address hmay).symm.trans hget
  · by_cases hid : id ∈ p.closings.map Prod.fst
    · obtain ⟨⟨_, k⟩, hk, rfl⟩ := List.mem_map.mp hid
      obtain ⟨_, d, -, -, hd, rfl, hafter⟩ := h.closes _ k hk
      cases hc.symm.trans hd
      exact .inr ⟨hafter, settled_of_streamsSettled hsettled hc, hk⟩
    · refine .inl ⟨h.others id c hc hid, fun address hget => ?_⟩
      rw [h.keeps address fun hmay => ?_, hget]
      obtain ⟨k, hk⟩ := h.removed address id hmay hget
      exact hid (List.mem_map_of_mem hk)

theorem StreamStep.of_turn {turn : Turn Nat} (h : StreamStep { r with turn } r') :
    StreamStep r r' := by
  cases h with
  | moves htracked hlength hstreams => exact .moves htracked hlength hstreams
  | releases hpoint htracked hlength hstreams => exact .releases hpoint htracked hlength hstreams
  | opens hpoint htracked hconnections => exact .opens hpoint htracked hconnections

theorem StreamStep.look (htracks : Tracks r) (hsettled : r.streamsSettled none = true)
    (hn : r.point? n = some q) : StreamStep r (r.look n call).1 := by
  cases call with
  | connect address settings =>
    simp only [Registry.look]
    split <;> exact .same rfl rfl
  | get address => exact .same rfl rfl
  | subscribe address topic =>
    simp only [Registry.look]
    split
    · exact .same rfl rfl
    · next id c hfound =>
      obtain ⟨j, -, hj⟩ := Option.bind_eq_some_iff.mp hfound
      obtain ⟨d, hd, heq⟩ := Option.map_eq_some_iff.mp hj
      cases heq
      split
      · exact .same rfl rfl
      · next c' channel hsubscribe =>
        have hnext : c.next? (.subscribe topic) = some (c', [.subscribed topic channel]) := by
          simp only [Connection.next?, hsubscribe]
        have hadmits : c.admits .await (.subscribe topic) = true :=
          settled_of_streamsSettled hsettled hd
        exact .set hd (.makes hadmits hnext (by simp)) rfl rfl
  | send address message =>
    simp only [Registry.look]
    split
    · exact .same rfl rfl
    · split
      · next hmove =>
        obtain ⟨c, c', noted, hc, hnext, rfl, -⟩ := moveStream_eq hmove
        have hadmits : c.admits .await (.send message) = true :=
          settled_of_streamsSettled hsettled hc
        exact .set hc (.makes hadmits hnext (by simp)) rfl rfl
      · exact .same rfl rfl
  | close address =>
    simp only [Registry.look]
    split
    · exact .same rfl rfl
    · next hget =>
      obtain ⟨c, hc⟩ := htracks.exists_stream _ _ hget
      exact .of_releases (p := .closing [_]) (.one hget hc (mayForget_close address) _ n) hsettled
        (point?_callAt_self hn (calls_startClose (r := r.forget address)))
  | closeAll =>
    exact .of_releases (p := .closing _) (.all htracks _ n) hsettled
      (point?_callAt_self hn (calls_startCloses (r := r.forgetAll.2)))

theorem StreamStep.beginDial : StreamStep r (r.beginDial n address settings).1 := by
  unfold Registry.beginDial
  split <;> exact .same rfl rfl

theorem StreamStep.claim (htracks : Tracks r) (hsettled : r.streamsSettled none = true)
    (hn : r.point? n = some q) : StreamStep r (r.claim n address settings).1 := by
  unfold Registry.claim
  split
  · exact .beginDial
  · next hget =>
    split
    · exact .same rfl rfl
    · obtain ⟨c, hc⟩ := htracks.exists_stream _ _ hget
      have hforget := mayForget_connect address settings
      exact .of_releases (p := .replacing address settings _ _) (.one hget hc hforget _ n) hsettled
        (point?_callAt_self hn (calls_startClose (r := r.forget address)))

theorem StreamStep.of_callStep (htracks : Tracks r)
    (hsettled : r.streamsSettled none = true) (h : r.callStep n sig = some (r', events)) :
    StreamStep r r' := by
  cases CallStep.of_callStep h with
  | look hpoint =>
    exact .of_turn (.look (r := (r.takeTurn n).leaveTurn n) htracks.of_turn hsettled hpoint)
  | claim hpoint => exact .of_turn (.claim (r := r.takeTurn n) htracks.of_turn hsettled hpoint)
  | replace => exact .beginDial
  | dialed hpoint => exact .opens hpoint rfl rfl
  | dialFails | sent | closed => exact .same rfl rfl

theorem not_held_of_dropHandle (h : r.next? (.stream id .dropHandle) = some (r', events)) :
    r.isHeld id = false := by
  rw [← Bool.not_eq_true]
  intro hheld
  simp only [next?, hheld, if_true] at h
  cases h

/-- What every admitted move means for the streams, if every stream that is not closed is held. -/
theorem StreamStep.of_next? {move : Move} (htracks : Tracks r)
    (hheld : ∀ (id : ConnectionId) c, r.connections[id]? = some c → r.isHeld id = false →
      c.state = .closed) (hadmits : r.admits .await move = true)
    (h : r.next? move = some (r', events)) : StreamStep r r' := by
  cases move with
  | call call =>
    cases h
    exact .same rfl rfl
  | step n sig =>
    have hsettled := (Bool.and_eq_true_iff.mp hadmits).2
    by_cases hsuspend : sig = .suspend
    · subst hsuspend
      obtain ⟨_, _, rfl, -⟩ := suspend_frame h
      exact .same rfl rfl
    · rw [next?_step hsuspend] at h
      exact .of_callStep htracks hsettled h
  | stream id move =>
    obtain ⟨c, c', noted, hc, hnext, rfl, -⟩ := moveStream_eq (moveStream_of_next? h)
    have hc' := (Bool.and_eq_true_iff.mp hadmits).2
    rw [hc, Option.any_some] at hc'
    refine .set hc (.makes hc' hnext fun hdrop => hheld id c hc ?_) rfl rfl
    subst hdrop
    exact not_held_of_dropHandle h
  | elapse nanos =>
    cases h
    refine .moves rfl (List.length_map _) fun id c hc => ?_
    have hsettled := settled_of_streamsSettled (Bool.and_eq_true_iff.mp hadmits).2 hc
    refine ⟨{ c with now := c.now + nanos }, ?_,
      .makes (m := .elapse nanos) hsettled rfl (by simp)⟩
    rw [List.getElem?_map, hc, Option.map_some]

/-! ### Streams that nobody closes -/

/-- Every stream that is not closed is tracked or being closed, and nothing is tracked for an
address that a call dials. -/
structure Sole (r : Registry) : Prop where
  orderly : ∀ (id : ConnectionId) c, r.connections[id]? = some c → c.Orderly
  tracked : ∀ address id, r.tracked.get? address = some id →
    ∃ c, r.connections[id]? = some c ∧ c.address = address
  vacant : ∀ n p address, r.point? n = some p → p.dials? = some address →
    r.tracked.get? address = none
  held : ∀ (id : ConnectionId) c, r.connections[id]? = some c → c.state ≠ .closed →
    r.tracked.get? c.address = some id ∨ r.Closing id

theorem Sole.start : Sole (empty epoch) := by
  refine ⟨fun id c hc => ?_, fun a id hget => ?_, fun n p a hpoint => ?_, fun id c hc => ?_⟩
  · cases hc
  · cases hget
  · cases hpoint
  · cases hc

theorem Sole.tracks (h : Sole r) : Tracks r := by
  refine ⟨?_, fun a id hget => (h.tracked a id hget).imp fun _ hc => hc.1⟩
  refine List.pairwise_map.mpr (r.tracked.nodup_entries.imp_of_mem fun {e f} he hf hne heq => ?_)
  obtain ⟨c, hc, haddress⟩ := h.tracked e.1 e.2 (KeyMap.get?_eq_some_iff.mpr he)
  obtain ⟨d, hd, haddress'⟩ := h.tracked f.1 f.2 (KeyMap.get?_eq_some_iff.mpr hf)
  rw [heq, hd] at hc
  cases hc
  exact hne (Prod.ext (haddress.symm.trans haddress') heq)

theorem isHeld_of_tracked (h : r.tracked.get? address = some id) : r.isHeld id = true := by
  rw [isHeld, Bool.or_eq_true]
  exact .inl (List.any_eq_true.mpr ⟨_, KeyMap.get?_eq_some_iff.mp h, beq_self_eq_true id⟩)

/-- A call that closes a stream holds it. -/
theorem isHeld_of_closings (hpoint : r.point? n = some p) (hmem : (id, k) ∈ p.closings) :
    r.isHeld id = true := by
  obtain ⟨thread, hthread, rfl⟩ := Option.map_eq_some_iff.mp hpoint
  rw [isHeld, Bool.or_eq_true]
  refine .inr (List.any_eq_true.mpr ⟨thread, List.mem_of_getElem? hthread, ?_⟩)
  generalize thread.point = q at hmem ⊢
  cases q with
  | replacing =>
    cases List.mem_singleton.mp hmem
    exact beq_self_eq_true id
  | closing closings => exact List.any_eq_true.mpr ⟨_, hmem, beq_self_eq_true id⟩
  | _ => cases hmem

/-- A stream that is not held any more is closed. -/
theorem Sole.closed_of_not_held (h : Sole r) (hc : r.connections[id]? = some c)
    (hnot : r.isHeld id = false) : c.state = .closed := by
  by_contra hopen
  rcases h.held id c hc hopen with hget | ⟨n, p, k, hpoint, hmem, -⟩
  · cases (isHeld_of_tracked hget).symm.trans hnot
  · cases (isHeld_of_closings hpoint hmem).symm.trans hnot

theorem Sole.streamStep {move : Move} (h : Sole r) (hadmits : r.admits .await move = true)
    (hnext : r.next? move = some (r', events)) : StreamStep r r' :=
  .of_next? h.tracks (fun _ _ => h.closed_of_not_held) hadmits hnext

theorem StreamStep.goes_on (h : StreamStep r r') (hc : r.connections[id]? = some c) :
    ∃ c', r'.connections[id]? = some c' ∧ c.Moves c' := by
  cases h with
  | moves _ _ hstreams => exact hstreams id c hc
  | releases _ _ _ hstreams =>
    rcases hstreams id c hc with ⟨hc', -⟩ | ⟨hc', hsettled, -⟩
    · exact ⟨c, hc', .stays⟩
    · exact ⟨c.closeCalled, hc', Connection.moves_closeCalled hsettled⟩
  | opens _ _ hconnections =>
    refine ⟨c, ?_, .stays⟩
    rw [hconnections, List.getElem?_append_left (List.getElem?_eq_some_iff.mp hc).1, hc]

/-- A stream was there before, or it is the one that a call has opened. -/
theorem StreamStep.origin (h : StreamStep r r') (hc' : r'.connections[id]? = some c') :
    (∃ c, r.connections[id]? = some c ∧ c.Moves c') ∨
      ∃ address settings, c' = .opened address settings r.now r.epoch ∧
        r'.tracked = r.tracked.insert address id := by
  cases hc : r.connections[id]? with
  | some c =>
    obtain ⟨d, hd, hmoves⟩ := h.goes_on hc
    cases hc'.symm.trans hd
    exact .inl ⟨c, rfl, hmoves⟩
  | none =>
    have hge := List.getElem?_eq_none_iff.mp hc
    have hlt := (List.getElem?_eq_some_iff.mp hc').1
    cases h with
    | moves _ hlength _ | releases _ _ hlength _ =>
      rw [hlength] at hlt
      exact absurd hlt (Nat.not_lt.mpr hge)
    | @opens _ address settings _ _ htracked hconnections =>
      rw [hconnections, List.length_append] at hlt
      have hid : id = r.connections.length := Nat.le_antisymm (Nat.le_of_lt_succ hlt) hge
      rw [hconnections, hid, List.getElem?_concat_length] at hc'
      cases hc'
      exact .inr ⟨address, settings, rfl, hid ▸ htracked⟩

/-- A stream that a call has forgotten is being closed, unless another was opened in its place. -/
theorem StreamStep.kept_or_closing (h : StreamStep r r') (hc : r.connections[id]? = some c)
    (hget : r.tracked.get? address = some id) :
    r'.tracked.get? address = some id ∨ r'.Closing id ∨
      ∃ n settings since, r.point? n = some (.dialing address settings since) := by
  cases h with
  | moves htracked _ _ => exact .inl (htracked ▸ hget)
  | @releases n p hpoint _ _ hstreams =>
    rcases hstreams id c hc with ⟨-, hkept⟩ | ⟨hc', -, hmem⟩
    · exact .inl (hkept address hget)
    · refine .inr (.inl ⟨n, p, _, hpoint, hmem, ?_⟩)
      rw [taskFinished, hc', Option.all_some, Connection.hasFinished_closeCalled]
  | @opens n a settings since hpoint htracked _ =>
    by_cases ha : address = a
    · subst ha
      exact .inr (.inr ⟨n, settings, since, hpoint⟩)
    · refine .inl ?_
      rw [htracked, KeyMap.get?_insert, if_neg ha, hget]

/-- A call that waits for a call to close a stream stays where it is. -/
theorem TurnStep.point?_of_closing {place : Nat} {turn : Option ActingTurn}
    (h : TurnStep r r' place turn events) (hpoint : r.point? n = some p)
    (hmem : (id, k) ∈ p.closings) (hk : r.taskFinished id (.close k) = false) :
    r'.point? n = some p := by
  have hstays : ∀ {m q q'}, Comes r r' m q q' → (q = p → False) → r'.point? n = some p := by
    intro m q q' hcomes hne
    rw [hcomes.point?, if_neg, hpoint]
    rintro rfl
    exact hne (Option.some.inj (hcomes.source.symm.trans hpoint))
  cases h with
  | idle hsame => rw [hsame, hpoint]
  | call hnone hsame =>
    rw [hsame, if_neg, hpoint]
    rintro rfl
    cases hnone.symm.trans hpoint
  | miss hcomes => exact hstays hcomes fun hq => by subst hq; cases hmem
  | @act _ q _ _ _ hcomes _ hacted =>
    refine hstays hcomes fun hq => ?_
    subst hq
    rw [Point.closings_of_not_acted hacted] at hmem
    cases hmem
  | proceed hcomes hproceeds =>
    refine hstays hcomes fun hq => ?_
    subst hq
    rw [hproceeds.closed id k hmem] at hk
    cases hk
  | opened hcomes => exact hstays hcomes fun hq => by subst hq; cases hmem

theorem Closing.of_step {place : Nat} {turn : Option ActingTurn} (hclosing : r.Closing id)
    (hc : r.connections[id]? = some c) (hc' : r'.connections[id]? = some c') (hmoves : c.Moves c')
    (hopen : c'.state ≠ .closed) (h : TurnStep r r' place turn events) : r'.Closing id := by
  obtain ⟨n, p, k, hpoint, hmem, hk⟩ := hclosing
  refine ⟨n, p, k, h.point?_of_closing hpoint hmem hk, hmem, ?_⟩
  rw [taskFinished, hc, Option.all_some] at hk
  rw [taskFinished, hc', Option.all_some]
  exact hmoves.close_unfinished hopen hk

/-- A call that comes to dial an address in its turn has found nothing live there, and has
forgotten what it found. -/
theorem Acts.vacant (h : Acts r r' n q call events) (hdials : q.dials? = some address) :
    r'.tracked.get? address = none := by
  have hcall : (∃ settings, call = .connect address settings) ∧
      r.plain.target r.isLive false call = .undialed := by
    cases q with
    | replacing a settings i k | dialing a settings since =>
      cases hdials
      exact ⟨⟨settings, (h.call_eq _ rfl).symm⟩, h.shows⟩
    | _ => cases hdials
  obtain ⟨⟨settings, rfl⟩, htarget⟩ := hcall
  have hlive : r.plain.live? r.isLive address = none := by
    rw [Plain.target] at htarget
    split at htarget
    · cases htarget
    · assumption
  have htracked : r'.tracked = r.tracked.erase address := by
    have hplain := congrArg Plain.tracked h.plain
    rw [Plain.perform, hlive] at hplain
    exact hplain
  rw [htracked, KeyMap.get?_erase, if_pos rfl]

/-- A call that comes to dial an address leaves nothing tracked for it, and while it dials no other
call acts. -/
theorem TurnStep.vacant {place : Nat} {turn : Option ActingTurn}
    (h : TurnStep r r' place turn events) (hkept : Kept r turns)
    (hvacant : ∀ n p address, r.point? n = some p → p.dials? = some address →
      r.tracked.get? address = none)
    (hpoint : r'.point? n = some p) (hdials : p.dials? = some address) :
    r'.tracked.get? address = none := by
  have hkeeps := Point.keepsTurn_of_dials? hdials
  have hsame : ∀ {d : Registry}, d.plain = r.plain → r.point? n = some p →
      d.tracked.get? address = none := by
    intro d hplain hp
    rw [show d.tracked = r.tracked from congrArg Plain.tracked hplain]
    exact hvacant n p address hp hdials
  cases h with
  | idle hpoints htracked _ _ _ =>
    rw [htracked]
    exact hvacant n p address ((hpoints n).symm.trans hpoint) hdials
  | call hnone hpoints hplain _ =>
    rw [hpoints] at hpoint
    split at hpoint
    · cases hpoint
      cases hdials
    · exact hsame hplain hpoint
  | miss hcomes hplain _ _ =>
    rw [hcomes.point?] at hpoint
    split at hpoint
    · cases hpoint
      cases hdials
    · exact hsame hplain hpoint
  | @act m q q' call _ hcomes hcall hacted hfree _ hacts =>
    rw [hcomes.point?] at hpoint
    split at hpoint
    · cases hpoint
      exact hacts.vacant hdials
    · rw [hkept.holder_eq hpoint hkeeps] at hfree
      cases hfree
  | proceed hcomes hproceeds =>
    rw [hcomes.point?] at hpoint
    split at hpoint
    · cases hpoint
      obtain ⟨a, settings, i, k, rfl, rfl, -⟩ := hproceeds.replaced hkeeps
      cases hdials
      rw [show r'.tracked = r.tracked from congrArg Plain.tracked hproceeds.plain]
      exact hvacant _ _ _ hcomes.source rfl
    · exact hsame hproceeds.plain hpoint
  | opened hcomes _ _ =>
    rw [hcomes.point?] at hpoint
    split at hpoint
    · cases hpoint
      cases hdials
    · next hne =>
      have hn := hkept.holder_eq hpoint hkeeps
      rw [hkept.holder_eq hcomes.source rfl] at hn
      exact absurd (Option.some.inj hn).symm hne

theorem Sole.of_step {place : Nat} {turn : Option ActingTurn} (h : Sole r) (hkept : Kept r turns)
    (hturn : TurnStep r r' place turn events) (hstream : StreamStep r r') : Sole r' where
  orderly := by
    intro id c' hc'
    rcases hstream.origin hc' with ⟨c, hc, hmoves⟩ | ⟨a, settings, rfl, -⟩
    · exact (h.orderly id c hc).of_moves hmoves
    · exact Connection.orderly_opened a settings r.now r.epoch
  tracked := by
    intro address id hget
    have hstays : r.tracked.get? address = some id →
        ∃ c', r'.connections[id]? = some c' ∧ c'.address = address := by
      intro hget
      obtain ⟨c, hc, haddress⟩ := h.tracked address id hget
      obtain ⟨c', hc', hmoves⟩ := hstream.goes_on hc
      exact ⟨c', hc', hmoves.address_eq.trans haddress⟩
    cases hstream with
    | moves htracked => exact hstays (htracked ▸ hget)
    | releases _ htracked => exact hstays (htracked address id hget)
    | opens _ htracked hconnections =>
      rw [htracked, KeyMap.get?_insert] at hget
      split at hget
      · next ha =>
        cases hget
        exact ⟨_, by rw [hconnections, List.getElem?_concat_length], ha.symm⟩
      · exact hstays hget
  vacant := fun n p address hpoint hdials => hturn.vacant hkept h.vacant hpoint hdials
  held := by
    intro id c' hc' hopen
    rcases hstream.origin hc' with ⟨c, hc, hmoves⟩ | ⟨a, settings, rfl, htracked⟩
    · rw [hmoves.address_eq]
      -- A stream that is not closed was not closed before, so it was tracked or being closed.
      have hwas := (h.orderly id c hc).not_closed_of_moves hmoves hopen
      rcases h.held id c hc hwas with hget | hclosing
      · rcases hstream.kept_or_closing hc hget with hkeeps | hcloses | ⟨n, _, _, hdialing⟩
        · exact .inl hkeeps
        · exact .inr hcloses
        -- No other stream opens in the place of a tracked one.
        · rw [h.vacant _ _ _ hdialing rfl] at hget
          cases hget
      · exact .inr (hclosing.of_step hc hc' hmoves hopen hturn)
    · refine .inl ?_
      rw [htracked]
      exact (KeyMap.get?_insert _ _ _ _).trans (if_pos rfl)

theorem Turned.sole (h : Turned .await epoch r history turns) : Sole r := by
  induction h with
  | start => exact .start
  | @move r r' _ events _ move hbefore hadmits hnext ih =>
    have hturn : TurnStep r r' 0 (r.actingTurn? 0 move) events := .of_next? hnext
    exact ih.of_step hbefore.kept hturn (ih.streamStep hadmits hnext)

theorem not_closed_of_isLive (h : c.isLive = true) : c.state ≠ .closed := by
  intro hclosed
  rw [Connection.isLive, hclosed] at h
  cases h

theorem Sole.tracked_or_closing (h : Sole r) (hc : r.connections[id]? = some c)
    (hlive : c.isLive = true) : r.tracked.get? c.address = some id ∨ r.Closing id :=
  h.held id c hc (not_closed_of_isLive hlive)

theorem Sole.closing_of_same_address (h : Sole r) (hne : i ≠ j) (hc : r.connections[i]? = some c)
    (hd : r.connections[j]? = some d) (haddress : c.address = d.address)
    (hlive : c.isLive = true) (hlive' : d.isLive = true) : r.Closing i ∨ r.Closing j := by
  rcases h.tracked_or_closing hc hlive with hgeti | hclosing
  · rcases h.tracked_or_closing hd hlive' with hgetj | hclosing
    · rw [haddress, hgetj] at hgeti
      exact absurd (Option.some.inj hgeti).symm hne
    · exact .inr hclosing
  · exact .inl hclosing

/-- A live stream of an address that a call dials is tracked no more, so it is being closed. -/
theorem Sole.closing_of_dials (h : Sole r) (hp : r.point? n = some p)
    (hdials : p.dials? = some c.address) (hc : r.connections[id]? = some c)
    (hlive : c.isLive = true) : r.Closing id := by
  rcases h.tracked_or_closing hc hlive with hget | hclosing
  · cases (h.vacant n p _ hp hdials).symm.trans hget
  · exact hclosing

theorem Kept.eq_of_dials {a b : String} (h : Kept r turns) (hp : r.point? n = some p)
    (hq : r.point? m = some q) (ha : p.dials? = some a) (hb : q.dials? = some b) : n = m := by
  have hn := h.holder_eq hp (Point.keepsTurn_of_dials? ha)
  have hm := h.holder_eq hq (Point.keepsTurn_of_dials? hb)
  exact Option.some.inj (hn.symm.trans hm)

/-- In every run, of the live streams of an address and the dials for it all but one are streams
that are being closed: of two live streams one is, every live stream is whose address is being
dialed, and no two calls dial. -/
theorem Run.closing_of_two_live (h : Run .await epoch r history) :
    (∀ (i j : ConnectionId) c d, i ≠ j → r.connections[i]? = some c → r.connections[j]? = some d →
      c.address = d.address → c.isLive = true → d.isLive = true → r.Closing i ∨ r.Closing j) ∧
    (∀ n p (id : ConnectionId) c, r.point? n = some p → p.dials? = some c.address →
      r.connections[id]? = some c → c.isLive = true → r.Closing id) ∧
    ∀ n m p q a b, r.point? n = some p → r.point? m = some q → p.dials? = some a →
      q.dials? = some b → n = m := by
  obtain ⟨turns, hturned⟩ := h.turned
  exact ⟨fun _ _ _ _ => hturned.sole.closing_of_same_address,
    fun _ _ _ _ => hturned.sole.closing_of_dials, fun _ _ _ _ _ _ => hturned.kept.eq_of_dials⟩

/-- The moves of a caller who opens a stream. -/
def openingMoves (n : Nat) : List Move :=
  [.call (.connect "ws://host/" { pingIntervalMs := 0 }), .step n .go, .step n .go,
    .step n .suspend, .step n .dialed]

/-- A stream is opened and gets stuck, its address is closed and connected again. -/
def overlapMoves : List Move :=
  openingMoves 0 ++ Connection.stuckMoves.map (.stream 0) ++
    [.call (.close "ws://host/"), .step 1 .go] ++
    Connection.closingMoves.tail.map (.stream 0) ++ openingMoves 2

/-- While the address is dialed again, and once it is connected, the old stream is live and being
closed. -/
theorem closing_of_overlap :
    (∃ r history c p, Run .await 0 r history ∧ r.point? 2 = some p ∧
      p.dials? = some c.address ∧ r.connections[0]? = some c ∧ c.isLive = true ∧ r.Closing 0) ∧
    ∃ r history c d, Run .await 0 r history ∧
      r.connections[0]? = some c ∧ r.connections[1]? = some d ∧ c.address = d.address ∧
      c.isLive = true ∧ d.isLive = true ∧ (r.Closing 0 ∨ r.Closing 1) := by
  constructor
  · have hrun : Run .await 0 _ _ := Reaches.of_follow? overlapMoves.dropLast .refl rfl
    exact ⟨_, _, _, _, hrun, rfl, rfl, rfl, rfl,
      hrun.closing_of_two_live.2.1 2 _ 0 _ rfl rfl rfl rfl⟩
  · have hrun : Run .await 0 _ _ := Reaches.of_follow? overlapMoves .refl rfl
    exact ⟨_, _, _, _, hrun, rfl, rfl, rfl, rfl, rfl,
      hrun.closing_of_two_live.1 0 1 _ _ Nat.zero_ne_one rfl rfl rfl rfl rfl⟩

/-- While a call waits for a stream to close, the stream is live, and so is another of its
address. -/
theorem two_live_while_closing : ∃ r history c d, Run .punctual 0 r history ∧
    r.point? 1 = some (.closing [(0, 0)]) ∧
    r.connections[0]? = some c ∧ r.connections[1]? = some d ∧ c.address = d.address ∧
    c.state = .opened ∧ d.state = .opened :=
  ⟨_, _, _, _, Reaches.of_follow? overlapMoves .refl rfl, rfl, rfl, rfl, rfl, rfl, rfl⟩

end Registry

end Uplink.Stream

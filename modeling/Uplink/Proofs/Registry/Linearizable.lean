import Uplink.Proofs.Registry.Awaited
import Uplink.Proofs.Registry.Effect

/-! Registry calls are linearizable, in the order of the turns in which they act, have streams do
what they would one after another, and dial only when nothing live is tracked. -/

namespace Uplink.Stream.Registry

variable {epoch : Int} {r r' : Registry} {history events : List Event} {turns : List ActingTurn}
  {t : ActingTurn} {move : Move}

/-- The plain map after some turns of a history, one after another. -/
def mapAfter (history : List Event) (turns : List ActingTurn) : Plain :=
  Plain.empty.follow (hasOpened history) turns

/-- The calls of a history are as if they were made one after another. -/
structure Linearizes (r : Registry) (history : List Event) (turns : List ActingTurn) : Prop where
  /-- A call acts in the last turn that it gets. -/
  last : ∀ t ∈ turns, .called t.caller t.call ∈ history ∧
    history[t.place]? = some (.turned t.caller) ∧
    ∀ i, t.place < i → history[i]? ≠ some (.turned t.caller)
  ordered : turns.Pairwise fun t u => t.place < u.place
  callers : (turns.map ActingTurn.caller).Nodup
  answered : ∀ n answer, .returned n answer ∈ history →
    r.point? n = some (.returned answer) ∧ n ∈ turns.map ActingTurn.caller
  /-- What is tracked in the end is what the plain map holds. -/
  tracked : r.tracked = (mapAfter history turns).tracked
  /-- A call acts on, and answers with, what it gets from the plain map; and the calls on streams
  that it waits for are under way. -/
  acts : ∀ before t after, turns = before ++ t :: after → ∃ p, r.point? t.caller = some p ∧
    p.Shows ((mapAfter history before).target t.live (hasOpened history t.caller) t.call) ∧
      Awaits r p
  /-- In the turn in which a call acts, it has streams do what it would on the plain map, and no
  others change. -/
  moves : ∀ move r' events t, r.next? move = some (r', events) →
    r.actingTurn? history.length move = some t → ∃ p, r'.point? t.caller = some p ∧
      Makes r r' p ((mapAfter history turns).moves t.live t.call)
  /-- A call dials once if its address has nothing live on the plain map, and else never. -/
  dials : ∀ before t after p, turns = before ++ t :: after → r.point? t.caller = some p →
    dialCount history t.caller =
      if (mapAfter history before).dials t.live t.call then t.call.dialsBegun p else 0
  undialed : ∀ n, n ∉ turns.map ActingTurn.caller → dialCount history n = 0
  /-- From a dial that succeeds to the next dial for the address, its stream stays tracked until the
  address is closed or the stream is found not to be live. -/
  redials : ∀ before t mid u after address settings settings',
    turns = before ++ t :: mid ++ u :: after → t.call = .connect address settings →
    (mapAfter history before).dials t.live t.call = true → hasOpened history t.caller = true →
    u.call = .connect address settings' →
    (mapAfter history (before ++ t :: mid)).dials u.live u.call = true →
    ∃ first v rest, mid ++ [u] = first ++ v :: rest ∧
      (mapAfter history (before ++ t :: first)).tracked.get? address =
        some (mapAfter history before).opened ∧
      v.Removes address (mapAfter history before).opened
  /-- When the dial of a call begins, the stream that it found tracked is closed. -/
  closed_first : ∀ before t move r' events address id, turns = before ++ [t] →
    r.next? move = some (r', events) → .dialStarted t.caller address ∈ events →
    (mapAfter history before).tracked.get? address = some id →
    (r.connections[id]?).map Connection.state = some .closed
  /-- Calls that connect an address that nothing is tracked for, with no stream of it taken away
  meanwhile, dial until a dial succeeds and never after, and all get its stream. -/
  shared : ∀ before mid after address, turns = before ++ mid ++ after →
    (mapAfter history before).tracked.get? address = none →
    Plain.Keeps (hasOpened history) (mapAfter history before) mid address →
    ∃ id, ∀ first t rest settings, mid = first ++ t :: rest → t.call = .connect address settings →
      ((mapAfter history (before ++ first)).target t.live (hasOpened history t.caller) t.call =
          .connection id ∨
        (mapAfter history (before ++ first)).target t.live (hasOpened history t.caller) t.call =
          .undialed) ∧
      ((mapAfter history (before ++ first)).dials t.live t.call = true ↔
        ∀ u ∈ first, (∃ settings', u.call = .connect address settings') →
          hasOpened history u.caller = false)

/-- What a call has streams do in the turn in which it acts. -/
theorem Turned.makes (h : Turned .await epoch r history turns)
    (hnext : r.next? move = some (r', events))
    (hturn : r.actingTurn? history.length move = some t) : ∃ p, r'.point? t.caller = some p ∧
      Makes r r' p ((mapAfter history turns).moves t.live t.call) := by
  have htracks := h.sole.tracks
  rw [mapAfter, ← h.linear.plain]
  obtain ⟨n, rfl⟩ : ∃ n, move = .step n .go := by
    unfold actingTurn? at hturn
    split at hturn
    · exact ⟨_, rfl⟩
    · cases hturn
  rw [next?_step (by simp)] at hnext
  cases CallStep.of_callStep hnext with
  | @look call hpoint =>
    simp only [actingTurn?, hpoint] at hturn
    split at hturn
    · cases hturn
    · next hagain =>
      cases hturn
      obtain ⟨q, hq, hmakes⟩ := Makes.look (r := (r.takeTurn n).leaveTurn n) htracks.of_turn hpoint
        (Bool.eq_false_iff.mpr hagain)
      exact ⟨q, hq, .of_turn hmakes⟩
  | claim hpoint =>
    simp only [actingTurn?, hpoint] at hturn
    cases hturn
    obtain ⟨q, hq, hmakes⟩ := Makes.claim (r := r.takeTurn n) htracks.of_turn hpoint
    exact ⟨q, hq, .of_turn hmakes⟩
  | replace hpoint | dialFails _ hpoint | sent hpoint | closed hpoint =>
    simp only [actingTurn?, hpoint] at hturn
    cases hturn

theorem Turned.linearizes (h : Turned .await epoch r history turns) :
    Linearizes r history turns where
  last := fun t ht => ⟨h.noted.called_turn t ht, h.noted.turned t ht, h.noted.last t ht⟩
  ordered := h.noted.ordered
  callers := h.kept.nodup
  answered := by
    intro n answer hreturned
    have hpoint := (h.noted.returned n answer).mp hreturned
    exact ⟨hpoint, (h.kept.acted n).mpr ⟨_, hpoint, rfl⟩⟩
  tracked := congrArg Plain.tracked h.linear.plain
  acts := by
    intro before t after heq
    obtain ⟨p, hp, hshows, -⟩ := h.linear.acts before t after heq
    exact ⟨p, hp, hshows, h.awaits hp⟩
  moves := fun _ _ _ _ => h.makes
  dials := by
    intro before t after p heq hp
    obtain ⟨q, hq, -, hcount, -⟩ := h.linear.acts before t after heq
    rw [hp] at hq
    cases hq
    exact hcount
  undialed := by
    intro n hn
    refine h.noted.undialed n fun p hp => ?_
    rw [← Bool.not_eq_true]
    exact fun hacted => hn ((h.kept.acted n).mpr ⟨p, hp, hacted⟩)
  redials := by
    intro before t mid u after address settings settings' _ hcall hdials hopened hcall' hdials'
    have hsplit : ∀ first, mapAfter history (before ++ t :: first) =
        (mapAfter history before).follow (hasOpened history) (t :: first) :=
      fun first => Plain.follow_append _
    rw [hsplit] at hdials'
    obtain ⟨first, v, rest, hmid, hget, hremoves⟩ :=
      Plain.removes_of_dials hcall hdials hopened hcall' hdials'
    exact ⟨first, v, rest, hmid, by rw [hsplit, hget], hremoves⟩
  closed_first := fun _ _ _ _ _ _ _ heq hnext hdial hget =>
    h.closed_of_dialStarted heq hnext hdial hget
  shared := by
    intro before mid after address heq hnone hkeeps
    have hsplit : ∀ first, mapAfter history (before ++ first) =
        (mapAfter history before).follow (hasOpened history) first :=
      fun first => Plain.follow_append _
    simp only [hsplit]
    refine hkeeps.share hnone fun first t rest hmid hopened => ?_
    have hturns : turns = (before ++ first) ++ t :: (rest ++ after) := by rw [heq, hmid]; simp
    obtain ⟨_, -, -, -, hdials⟩ := h.linear.acts _ t _ hturns
    rw [← hsplit]
    exact hdials hopened

/-- In every run, calls have the turns in which they act, and are linearizable in their order. -/
theorem run_linearizes (h : Run .await epoch r history) :
    (∃ turns, Turned .await epoch r history turns) ∧
      ∀ turns, Turned .await epoch r history turns → Linearizes r history turns :=
  ⟨h.turned, fun _ hturned => hturned.linearizes⟩

/-- Of two calls that race for an address, the second waits while the first dials, and gets its
stream; a call that closes the address has then begun to close that stream. -/
theorem linearizes_race : ∃ r history turns, Run .await 0 r history ∧
    Turned .await 0 r history turns ∧ Linearizes r history turns ∧
    r.point? 0 = some (.returned (.connected 0)) ∧
    r.point? 1 = some (.returned (.connected 0)) ∧ r.point? 2 = some (.closing [(0, 0)]) ∧
    ∃ c, r.connections[0]? = some c ∧ c.closePoint? 0 = some .taking := by
  have hrun : ∃ r history, Run .await 0 r history ∧
      r.point? 0 = some (.returned (.connected 0)) ∧
      r.point? 1 = some (.returned (.connected 0)) ∧ r.point? 2 = some (.closing [(0, 0)]) ∧
      ∃ c, r.connections[0]? = some c ∧ c.closePoint? 0 = some .taking :=
    ⟨_, _, Reaches.of_follow? [.call (.connect "ws://host/" {}), .step 0 .go, .step 0 .go,
      .step 0 .suspend, .call (.connect "ws://host/" {}), .step 1 .suspend, .step 0 .dialed,
      .step 1 .go, .call (.close "ws://host/"), .step 2 .go] .refl rfl, rfl, rfl, rfl, _, rfl, rfl⟩
  obtain ⟨r, history, hrun, hanswers⟩ := hrun
  obtain ⟨turns, hturned⟩ := (run_linearizes hrun).1
  exact ⟨r, history, turns, hrun, hturned, (run_linearizes hrun).2 turns hturned, hanswers⟩

end Uplink.Stream.Registry

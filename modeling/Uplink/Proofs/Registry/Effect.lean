import Uplink.Proofs.Registry.Release

/-! What calls on a registry have streams do. In the turn in which a call acts, just those streams
make a move that the plain map names, and the call waits for these moves or answers with them. -/

namespace Uplink.Stream.Registry

/-- A call that has come to a point has begun what is noted of a stream: a call to close it or to
send on it that the point waits for, or a subscription that the point answers with. -/
inductive Begun (id : ConnectionId) : Point → Stream.Event → Prop where
  | close {p : Point} {k : CallId} : (id, k) ∈ p.closings → Begun id p (.closeCalled k)
  | send {k : CallId} {message : Message} : Begun id (.sending id k) (.sendCalled k message)
  | subscribe {topic : String} {channel : ChannelId} :
      Begun id (.returned (.subscribed id channel)) (.subscribed topic channel)

/-- Some streams have made a move each, begun by a call that has come to a point, and no other
stream has changed. -/
structure Makes (r r' : Registry) (p : Point) (moves : List (ConnectionId × Connection.Move)) :
    Prop where
  made : ∀ id m, (id, m) ∈ moves → ∃ c c' e, r.connections[id]? = some c ∧
    c.next? m = some (c', [e]) ∧ r'.connections[id]? = some c' ∧ Begun id p e
  others : ∀ id : ConnectionId, id ∉ moves.map Prod.fst → r'.connections[id]? = r.connections[id]?

variable {r r' : Registry} {n : Nat} {p q : Point} {id : ConnectionId} {ids : List ConnectionId}
  {call : Call} {c c' : Connection} {m : Connection.Move} {e : Stream.Event} {turn : Turn Nat}
  {moves : List (ConnectionId × Connection.Move)}

theorem Makes.nothing (hconnections : r'.connections = r.connections) : Makes r r' p [] where
  made := fun _ _ hmem => absurd hmem List.not_mem_nil
  others := fun _ _ => by rw [hconnections]

theorem Makes.one (hc : r.connections[id]? = some c) (hnext : c.next? m = some (c', [e]))
    (hbegun : Begun id p e) (hconnections : r'.connections = r.connections.set id c') :
    Makes r r' p [(id, m)] where
  made := by
    intro j m' hmem
    cases List.mem_singleton.mp hmem
    refine ⟨c, c', e, hc, hnext, ?_, hbegun⟩
    rw [hconnections, List.getElem?_set_self (List.getElem?_eq_some_iff.mp hc).1]
  others := by
    intro j hj
    rw [hconnections, List.getElem?_set_ne]
    rintro rfl
    exact hj (List.mem_singleton_self _)

/-- A call that has forgotten streams has each of them make a call to close. -/
theorem Makes.of_releases (h : Releases r r' call p.closings)
    (hids : p.closings.map Prod.fst = ids) : Makes r r' p (ids.map (·, .close)) where
  made := by
    intro id m hmem
    obtain ⟨_, hid, heq⟩ := List.mem_map.mp hmem
    cases heq
    rw [← hids] at hid
    obtain ⟨⟨_, k⟩, hk, rfl⟩ := List.mem_map.mp hid
    obtain ⟨_, c, -, -, hc, rfl, hafter⟩ := h.closes _ k hk
    exact ⟨c, _, _, hc, rfl, hafter, .close hk⟩
  others := by
    intro id hid
    have hnot : id ∉ p.closings.map Prod.fst := by simpa [hids] using hid
    cases hc : r.connections[id]? with
    | some c => exact h.others id c hc hnot
    | none => rw [List.getElem?_eq_none_iff, h.length, ← List.getElem?_eq_none_iff, hc]

theorem Makes.of_turn (h : Makes { r with turn } r' p moves) : Makes r r' p moves :=
  ⟨h.made, h.others⟩

/-- What a call has streams do that looks at what is tracked, unless it has to look again. -/
theorem Makes.look (htracks : Tracks r) (hn : r.point? n = some p)
    (hagain : r.looksAgain call = false) : ∃ q, (r.look n call).1.point? n = some q ∧
      Makes r (r.look n call).1 q (r.plain.moves r.isLive call) := by
  cases call with
  | connect address settings =>
    cases hlive : r.live? address with
    | none => rw [looksAgain, hlive] at hagain; cases hagain
    | some id =>
      obtain ⟨hget, hid⟩ := Option.filter_eq_some_iff.mp hlive
      simp only [Registry.look, hlive, Plain.moves, get?_plain, hget, hid, if_true]
      exact ⟨_, point?_callAt_self hn rfl, .nothing rfl⟩
  | get address => exact ⟨_, point?_callAt_self hn rfl, .nothing rfl⟩
  | subscribe address topic =>
    simp only [Registry.look, Plain.moves, ← live?_eq]
    cases hlive : r.live? address with
    | none => exact ⟨_, point?_callAt_self hn rfl, .nothing rfl⟩
    | some id =>
      obtain ⟨c, hc⟩ := exists_of_live? hlive
      have hopen := isLive_of_live? hlive hc
      simp only [hc, Option.bind_some, Option.map_some, Connection.subscribe, hopen, if_true]
      have hbegun : ∀ channel, Begun id (.returned (.subscribed id channel))
          (.subscribed topic channel) := fun _ => .subscribe
      refine ⟨_, point?_callAt_self hn rfl, .one hc ?_ (hbegun _) rfl⟩
      simp only [Connection.next?, Connection.subscribe, hopen, if_true]
  | send address message =>
    simp only [Registry.look, Plain.moves, ← live?_eq]
    cases hlive : r.live? address with
    | none => exact ⟨_, point?_callAt_self hn rfl, .nothing rfl⟩
    | some id =>
      obtain ⟨c, hc⟩ := exists_of_live? hlive
      simp only [moveStream, hc, Connection.next?, Option.map_some]
      exact ⟨_, point?_callAt_self hn rfl, .one hc rfl .send rfl⟩
  | close address =>
    simp only [Registry.look, Plain.moves, get?_plain]
    cases hget : r.tracked.get? address with
    | none => exact ⟨_, point?_callAt_self hn rfl, .nothing rfl⟩
    | some id =>
      obtain ⟨c, hc⟩ := htracks.exists_stream address id hget
      exact ⟨_, point?_callAt_self hn (calls_startClose (r := r.forget address)),
        .of_releases (.one hget hc (mayForget_close address) (.closing [_]) n) rfl⟩
  | closeAll =>
    refine ⟨_, point?_callAt_self hn (calls_startCloses (r := r.forgetAll.2)), ?_⟩
    exact .of_releases (.all htracks (.closing _) n) closings_startCloses

/-- What a call has streams do that looks again. -/
theorem Makes.claim {address : String} {settings : StreamSettings} (htracks : Tracks r)
    (hn : r.point? n = some p) : ∃ q, (r.claim n address settings).1.point? n = some q ∧
      Makes r (r.claim n address settings).1 q
        (r.plain.moves r.isLive (.connect address settings)) := by
  simp only [Registry.claim, Plain.moves, get?_plain]
  cases hget : r.tracked.get? address with
  | none =>
    obtain ⟨q, hcomes, -⟩ := beginDial_comes hn address settings
    exact ⟨q, hcomes.point?_self, .nothing connections_beginDial⟩
  | some id =>
    cases hid : r.isLive id with
    | true =>
      simp only [hid, if_true]
      exact ⟨_, point?_callAt_self hn rfl, .nothing rfl⟩
    | false =>
      simp only [hid, if_false, Bool.false_eq_true]
      obtain ⟨c, hc⟩ := htracks.exists_stream address id hget
      exact ⟨_, point?_callAt_self hn (calls_startClose (r := r.forget address)),
        .of_releases (.one hget hc (mayForget_connect address settings)
          (.replacing address settings id _) n) rfl⟩

end Uplink.Stream.Registry

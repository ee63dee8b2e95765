import Mathlib.Data.List.Nodup
import Uplink.Proofs.Registry.Turn

/-! What calls do that close streams: they forget what is tracked for their addresses, and begin a
call to close on each stream that they have forgotten. -/

namespace Uplink.Stream

namespace Connection

/-- The stream with one more call to close it. -/
def closeCalled (c : Connection) : Connection :=
  { c with closes := c.closes ++ [⟨.taking, false, false⟩] }

end Connection

namespace Registry

/-- Whether a call may forget what is tracked for an address. -/
def Call.mayForget : Call → String → Prop
  | .connect address _, a | .close address, a => a = address
  | .closeAll, _ => True
  | _, _ => False

/-- Every stream that is tracked is there, and is tracked for one address only. -/
structure Tracks (r : Registry) : Prop where
  nodup : (r.tracked.entries.map Prod.snd).Nodup
  exists_stream : ∀ a id, r.tracked.get? a = some id → ∃ c, r.connections[id]? = some c

/-- A call has forgotten what is tracked for its addresses and begun to close just these streams,
and has changed nothing else. -/
structure Releases (r r' : Registry) (call : Call) (closings : List (ConnectionId × CallId)) :
    Prop where
  forgets : ∀ a, call.mayForget a → r'.tracked.get? a = none
  keeps : ∀ a, ¬call.mayForget a → r'.tracked.get? a = r.tracked.get? a
  closes : ∀ id k, (id, k) ∈ closings → ∃ a c, call.mayForget a ∧ r.tracked.get? a = some id ∧
    r.connections[id]? = some c ∧ k = c.closes.length ∧ r'.connections[id]? = some c.closeCalled
  removed : ∀ a id, call.mayForget a → r.tracked.get? a = some id → ∃ k, (id, k) ∈ closings
  length : r'.connections.length = r.connections.length
  others : ∀ (id : ConnectionId) c, r.connections[id]? = some c → id ∉ closings.map Prod.fst →
    r'.connections[id]? = some c

variable {r r' : Registry} {n : Nat} {id j : ConnectionId} {ids : List ConnectionId}
  {address : String} {call : Call} {c d : Connection} {closings : List (ConnectionId × CallId)}

theorem mayForget_connect (address : String) (settings : StreamSettings) (a : String) :
    (Call.connect address settings).mayForget a ↔ a = address := Iff.rfl

theorem mayForget_close (address a : String) :
    (Call.close address).mayForget a ↔ a = address := Iff.rfl

theorem Tracks.of_turn {turn : Turn Nat} (h : Tracks r) : Tracks { r with turn } :=
  ⟨h.nodup, h.exists_stream⟩

theorem calls_startClose : (r.startClose id).1.calls = r.calls := by
  obtain ⟨_, _, _, hstart, -⟩ := startClose_frame r id
  rw [hstart]

theorem calls_startCloses {ids : List ConnectionId} : (r.startCloses ids).1.calls = r.calls := by
  obtain ⟨_, _, _, hstart, -⟩ := startCloses_frame r ids
  rw [hstart]

theorem closings_startCloses : ((r.startCloses ids).2.1).map Prod.fst = ids := by
  obtain ⟨_, _, _, hstart, -, -, hids⟩ := startCloses_frame r ids
  rw [hstart, hids]

theorem getElem?_startClose (id : ConnectionId) (hd : r.connections[j]? = some d) :
    (r.startClose id).1.connections[j]? = some (if j = id then d.closeCalled else d) ∧
      (j = id → (r.startClose id).2.1 = d.closes.length) := by
  by_cases hj : j = id
  · subst hj
    rw [startClose_of_some hd, if_pos rfl]
    exact ⟨List.getElem?_set_self (List.getElem?_eq_some_iff.mp hd).1, fun _ => rfl⟩
  · rw [if_neg hj]
    refine ⟨?_, fun h => absurd h hj⟩
    cases hc : r.connections[id]? with
    | none => simp [startClose, moveStream, hc, hd]
    | some c =>
      rw [startClose_of_some hc]
      exact (List.getElem?_set_ne (Ne.symm hj)).trans hd

/-- To start closing different streams adds one call to each. -/
theorem getElem?_startCloses (hnodup : ids.Nodup) (hd : r.connections[j]? = some d) :
    (r.startCloses ids).1.connections[j]? = some (if j ∈ ids then d.closeCalled else d) ∧
      (j ∈ ids → (j, d.closes.length) ∈ (r.startCloses ids).2.1) := by
  induction ids generalizing r d with
  | nil => exact ⟨hd, fun h => absurd h List.not_mem_nil⟩
  | cons id ids ih =>
    obtain ⟨hid, hids⟩ := List.nodup_cons.mp hnodup
    obtain ⟨hstart, hk⟩ := getElem?_startClose id hd
    by_cases hj : j = id
    · subst hj
      rw [if_pos rfl] at hstart
      obtain ⟨hrest, -⟩ := ih hids hstart
      rw [if_neg hid] at hrest
      simp only [List.mem_cons, true_or, if_true]
      exact ⟨hrest, fun _ => List.mem_cons.mpr (.inl (congrArg (Prod.mk j) (hk rfl).symm))⟩
    · rw [if_neg hj] at hstart
      obtain ⟨hrest, hmem⟩ := ih hids hstart
      simp only [List.mem_cons, hj, false_or]
      exact ⟨hrest, fun h => List.mem_cons_of_mem _ (hmem h)⟩

/-- A call forgets the stream of an address and begins to close it. -/
theorem Releases.one (hget : r.tracked.get? address = some id) (hc : r.connections[id]? = some c)
    (hforget : ∀ a, call.mayForget a ↔ a = address) (p : Point) (n : Nat) :
    Releases r (((r.forget address).startClose id).1.callAt n p) call
      [(id, ((r.forget address).startClose id).2.1)] := by
  obtain ⟨connections, k, noted, hstart, hlength, -⟩ := startClose_frame (r.forget address) id
  have hstreams : ∀ (j : ConnectionId) d, r.connections[j]? = some d →
      ((r.forget address).startClose id).1.connections[j]? =
        some (if j = id then d.closeCalled else d) ∧
      (j = id → ((r.forget address).startClose id).2.1 = d.closes.length) :=
    fun j d hd => getElem?_startClose (r := r.forget address) id hd
  rw [hstart] at hstreams ⊢
  refine ⟨fun a ha => ?_, fun a ha => ?_, fun j k' hmem => ?_, fun a j ha hj => ?_, hlength,
    fun j d hd hmem => ?_⟩
  · show (r.tracked.erase address).get? a = none
    rw [KeyMap.get?_erase, if_pos ((hforget a).mp ha)]
  · show (r.tracked.erase address).get? a = _
    rw [KeyMap.get?_erase, if_neg fun heq => ha ((hforget a).mpr heq)]
  · obtain ⟨rfl, rfl⟩ := Prod.mk.inj (List.mem_singleton.mp hmem)
    obtain ⟨hafter, hk⟩ := hstreams j c hc
    rw [if_pos rfl] at hafter
    exact ⟨address, c, (hforget address).mpr rfl, hget, hc, hk rfl, hafter⟩
  · rw [(hforget a).mp ha, hget] at hj
    cases hj
    exact ⟨k, List.mem_singleton_self _⟩
  · obtain ⟨hafter, -⟩ := hstreams j d hd
    rw [if_neg fun heq => hmem (by simp [heq])] at hafter
    exact hafter

/-- A call forgets all streams and begins to close them. -/
theorem Releases.all (htracks : Tracks r) (p : Point) (n : Nat) :
    Releases r ((r.forgetAll.2.startCloses (r.forgetAll.1.map Prod.snd)).1.callAt n p) .closeAll
      (r.forgetAll.2.startCloses (r.forgetAll.1.map Prod.snd)).2.1 := by
  let ids := r.tracked.entries.map Prod.snd
  obtain ⟨connections, closings, noted, hstart, hlength, -, hids⟩ :=
    startCloses_frame r.forgetAll.2 ids
  have hstreams : ∀ (j : ConnectionId) d, r.connections[j]? = some d →
      (r.forgetAll.2.startCloses ids).1.connections[j]? =
        some (if j ∈ ids then d.closeCalled else d) ∧
      (j ∈ ids → (j, d.closes.length) ∈ (r.forgetAll.2.startCloses ids).2.1) :=
    fun j d hd => getElem?_startCloses (r := r.forgetAll.2) htracks.nodup hd
  have hmem : ∀ a id, r.tracked.get? a = some id → id ∈ ids := fun a id hget =>
    List.mem_map.mpr ⟨(a, id), KeyMap.get?_eq_some_iff.mp hget, rfl⟩
  have hclosings : (closings.map Prod.fst).Nodup := hids ▸ htracks.nodup
  change Releases r ((r.forgetAll.2.startCloses ids).1.callAt n p) .closeAll
    (r.forgetAll.2.startCloses ids).2.1
  rw [hstart] at hstreams ⊢
  refine ⟨fun _ _ => rfl, fun _ hnot => absurd trivial hnot, fun j k hk => ?_,
    fun a j _ hj => ?_, hlength, fun j d hd hnot => ?_⟩
  · have hj : j ∈ ids := hids ▸ List.mem_map_of_mem hk
    obtain ⟨⟨a, _⟩, hentry, rfl⟩ := List.mem_map.mp hj
    have hget := KeyMap.get?_eq_some_iff.mpr hentry
    obtain ⟨c, hc⟩ := htracks.exists_stream _ _ hget
    obtain ⟨hafter, hclosing⟩ := hstreams _ c hc
    rw [if_pos hj] at hafter
    have hsame := List.inj_on_of_nodup_map hclosings hk (hclosing hj) rfl
    exact ⟨a, c, trivial, hget, hc, (Prod.mk.inj hsame).2, hafter⟩
  · obtain ⟨c, hc⟩ := htracks.exists_stream a j hj
    exact ⟨_, (hstreams j c hc).2 (hmem a j hj)⟩
  · obtain ⟨hafter, -⟩ := hstreams j d hd
    rw [if_neg fun hj => hnot (hids.symm ▸ hj)] at hafter
    exact hafter

theorem Releases.of_turn {turn : Turn Nat}
    (h : Releases { r with turn } r' call closings) : Releases r r' call closings :=
  ⟨h.forgets, h.keeps, h.closes, h.removed, h.length, h.others⟩

end Registry

end Uplink.Stream

import Uplink.Proofs.Stream.Transition

/-! Tasks that are interleaved at their waits. A task takes a step only while all other tasks wait,
and leaves them where they are, so that at most one task is between two waits. -/

namespace Uplink.Stream.Connection

/-- Where a task stands, whatever its kind. -/
inductive Standing where
  | reader (point : ReaderPoint)
  | heartbeat (point : HeartbeatPoint)
  | send (point : SendPoint)
  | close (point : ClosePoint)

def Standing.isFinished : Standing → Bool
  | .reader .finished | .heartbeat .finished | .send (.returned _) | .close .returned => true
  | _ => false

/-- How far a task is in ending the stream, if it ends the stream. -/
def Standing.ending? : Standing → Option Ending
  | .reader (.ending e) | .heartbeat (.ending e) | .close (.ending e) => some e
  | _ => none

/-- Where a task stands, and whether it is parked. -/
def standing? (c : Connection) : Task → Option (Standing × Bool)
  | .reader => some (.reader c.reader.point, c.reader.parked)
  | .heartbeat => some (.heartbeat c.heartbeat.point, c.heartbeat.parked)
  | .send n => (c.sends[n]?).map fun t => (.send t.point, t.parked)
  | .close n => (c.closes[n]?).map fun t => (.close t.point, t.parked)

/-- Whether a task may wait while it ends the stream. -/
def mayRestEnding : Ending → Bool
  | .waiting | .saying .. | .shutting .. => true
  | _ => false

variable {c c' : Connection} {t u : Task} {m : Move} {sig : Signal} {events : List Event}
  {s : Standing} {parked : Bool} {e : Ending}

theorem Standing.isFinished_of_ending (h : s.ending? = some e) : s.isFinished = false := by
  unfold ending? at h
  split at h
  · rfl
  · rfl
  · rfl
  · cases h

theorem standing?_reader {p : ReaderPoint} (h : c.reader.point = p) :
    c.standing? .reader = some (.reader p, c.reader.parked) := by
  rw [← h]
  rfl

theorem standing?_heartbeat {p : HeartbeatPoint} (h : c.heartbeat.point = p) :
    c.standing? .heartbeat = some (.heartbeat p, c.heartbeat.parked) := by
  rw [← h]
  rfl

theorem isQuiet_of_standing? (h : c.standing? t = some (s, parked)) :
    c.isQuiet t = (s.isFinished || parked) := by
  cases t with
  | reader =>
    cases h
    simp only [isQuiet, hasFinished, isParked]
    cases c.reader.point <;> rfl
  | heartbeat =>
    cases h
    simp only [isQuiet, hasFinished, isParked]
    cases c.heartbeat.point <;> rfl
  | send n =>
    obtain ⟨thread, hthread, heq⟩ := Option.map_eq_some_iff.mp h
    cases heq
    simp only [isQuiet, hasFinished, isParked, sendPoint?, hthread, Option.map_some,
      Option.getD_some]
    cases thread.point <;> rfl
  | close n =>
    obtain ⟨thread, hthread, heq⟩ := Option.map_eq_some_iff.mp h
    cases heq
    simp only [isQuiet, hasFinished, isParked, closePoint?, hthread, Option.map_some,
      Option.getD_some]
    cases thread.point <;> rfl

theorem isQuiet_of_standing?_eq_none (h : c.standing? t = none) : c.isQuiet t = true := by
  cases t with
  | reader | heartbeat => cases h
  | send n =>
    simp [isQuiet, hasFinished, sendPoint?, Option.map_eq_none_iff.mp h]
  | close n =>
    simp [isQuiet, hasFinished, closePoint?, Option.map_eq_none_iff.mp h]

theorem mem_allTasks (h : c.isQuiet t = false) : t ∈ c.allTasks := by
  cases hs : c.standing? t with
  | none => rw [isQuiet_of_standing?_eq_none hs] at h; cases h
  | some _ =>
    cases t with
    | reader | heartbeat => simp [allTasks]
    | send n =>
      obtain ⟨thread, hthread, -⟩ := Option.map_eq_some_iff.mp hs
      have hlt := (List.getElem?_eq_some_iff.mp hthread).1
      simp [allTasks, hlt]
    | close n =>
      obtain ⟨thread, hthread, -⟩ := Option.map_eq_some_iff.mp hs
      have hlt := (List.getElem?_eq_some_iff.mp hthread).1
      simp [allTasks, hlt]

/-- A task takes a step only while all others wait. -/
theorem quiet_of_admits_step (h : c.admits .await (.step t sig) = true) (hu : u ≠ t) :
    c.isQuiet u = true := by
  rw [← Bool.not_eq_false]
  intro hquiet
  have hall := List.all_eq_true.mp h u (mem_allTasks hquiet)
  simp [hu, hquiet] at hall

/-- All else happens only while all tasks wait. -/
theorem quiet_of_isSettled (h : c.isSettled = true) : c.isQuiet u = true := by
  rw [← Bool.not_eq_false]
  intro hquiet
  have hall := List.all_eq_true.mp h u (mem_allTasks hquiet)
  rw [hquiet] at hall
  cases hall

/-! ### What a step of a task leaves as it is -/

theorem ReaderStep.standing? (h : ReaderStep c c' events) (hu : u ≠ .reader) :
    c'.standing? u = c.standing? u := by
  cases h with
  | read f => cases f <;> cases u <;> first | rfl | exact absurd rfl hu
  | ending _ hending =>
    obtain ⟨_, _, _, _, _, rfl⟩ := hending.frame
    cases u <;> first | rfl | exact absurd rfl hu
  | _ => cases u <;> first | rfl | exact absurd rfl hu

theorem HeartbeatStep.standing? (h : HeartbeatStep c c' events) (hu : u ≠ .heartbeat) :
    c'.standing? u = c.standing? u := by
  cases h with
  | ending _ hending =>
    obtain ⟨_, _, _, _, _, rfl⟩ := hending.frame
    cases u <;> first | rfl | exact absurd rfl hu
  | _ => cases u <;> first | rfl | exact absurd rfl hu

theorem standing?_sendAt {d : Connection} {n : CallId} {p : SendPoint}
    (hu : u ≠ .send n) : (d.sendAt n p).standing? u = d.standing? u := by
  cases u with
  | send k =>
    have hk : n ≠ k := fun hk => hu (hk ▸ rfl)
    simp only [Connection.standing?, sendAt, List.getElem?_set_ne hk]
  | _ => rfl

theorem standing?_closeAt {d : Connection} {n : CallId} {p : ClosePoint}
    (hu : u ≠ .close n) : (d.closeAt n p).standing? u = d.standing? u := by
  cases u with
  | close k =>
    have hk : n ≠ k := fun hk => hu (hk ▸ rfl)
    simp only [Connection.standing?, closeAt, List.getElem?_set_ne hk]
  | _ => rfl

theorem standing?_sendAt_self {n : CallId} {p : SendPoint}
    (h : (c.sendAt n p).standing? (.send n) = some (s, parked)) : s = .send p ∧ parked = false := by
  obtain ⟨thread, hthread, heq⟩ := Option.map_eq_some_iff.mp h
  simp only [sendAt, List.getElem?_set_self', Option.map_eq_map, Option.map_eq_some_iff] at hthread
  obtain ⟨_, -, rfl⟩ := hthread
  cases heq
  exact ⟨rfl, rfl⟩

theorem standing?_closeAt_self {n : CallId} {p : ClosePoint}
    (h : (c.closeAt n p).standing? (.close n) = some (s, parked)) :
    s = .close p ∧ parked = false := by
  obtain ⟨thread, hthread, heq⟩ := Option.map_eq_some_iff.mp h
  simp only [closeAt, List.getElem?_set_self', Option.map_eq_map, Option.map_eq_some_iff] at hthread
  obtain ⟨_, -, rfl⟩ := hthread
  cases heq
  exact ⟨rfl, rfl⟩

theorem closePoint?_closeAt {n k : CallId} {p q : ClosePoint} (h : c.closePoint? n = some q) :
    (c.closeAt n p).closePoint? k = if k = n then some p else c.closePoint? k := by
  obtain ⟨thread, hthread, -⟩ := Option.map_eq_some_iff.mp h
  have hlt := (List.getElem?_eq_some_iff.mp hthread).1
  simp only [closePoint?, closeAt, List.getElem?_set]
  by_cases hk : k = n
  · simp [hk, hlt]
  · simp [hk, Ne.symm hk]

theorem standing?_of_closePoint? {n : CallId} {p : ClosePoint} (h : c.closePoint? n = some p) :
    ∃ parked, c.standing? (.close n) = some (.close p, parked) := by
  obtain ⟨thread, hthread, rfl⟩ := Option.map_eq_some_iff.mp h
  exact ⟨thread.parked, Option.map_eq_some_iff.mpr ⟨thread, hthread, rfl⟩⟩

theorem standing?_closeAt_of_closePoint? {n : CallId} {p₀ p : ClosePoint}
    (h : c.closePoint? n = some p₀) :
    (c.closeAt n p).standing? (.close n) = some (.close p, false) := by
  obtain ⟨thread, hthread, -⟩ := Option.map_eq_some_iff.mp h
  simp only [Connection.standing?, closeAt, List.getElem?_set_self', hthread]
  rfl

theorem SendStep.standing? {n : CallId} (h : SendStep c n c' events) (hu : u ≠ .send n) :
    c'.standing? u = c.standing? u := by
  cases h <;> exact (standing?_sendAt hu).trans rfl

theorem standing?_abort : (c.abort t).standing? u = c.standing? u := by
  cases t <;> cases u <;> rfl

theorem CloseStep.standing? {n : CallId} (h : CloseStep c n c' events) (hu : u ≠ .close n) :
    c'.standing? u = c.standing? u := by
  cases h with
  | abort => exact (standing?_closeAt hu).trans standing?_abort
  | ending _ hending | ended _ hending =>
    obtain ⟨_, _, _, _, _, rfl⟩ := hending.frame
    exact (standing?_closeAt hu).trans rfl
  | _ => exact (standing?_closeAt hu).trans rfl

theorem standing?_park (hu : u ≠ t) : (c.park t).standing? u = c.standing? u := by
  cases t with
  | reader | heartbeat => cases u <;> first | rfl | exact absurd rfl hu
  | send n =>
    cases u with
    | send k =>
      have hk : n ≠ k := fun hk => hu (hk ▸ rfl)
      simp [Connection.standing?, park, hk]
    | _ => rfl
  | close n =>
    cases u with
    | close k =>
      have hk : n ≠ k := fun hk => hu (hk ▸ rfl)
      simp [Connection.standing?, park, hk]
    | _ => rfl

theorem standing?_park_self :
    (c.park t).standing? t = (c.standing? t).map fun standing => (standing.1, true) := by
  cases t with
  | reader | heartbeat => rfl
  | send n | close n =>
    simp only [Connection.standing?, park, List.getElem?_modify_eq, Option.map_eq_map,
      Option.map_map]
    rfl

/-! ### New calls -/

theorem getElem?_append_of_ne {α : Type} {xs : List α} {x : α} {n : Nat} (h : n ≠ xs.length) :
    (xs ++ [x])[n]? = xs[n]? := by
  rcases Nat.lt_or_gt_of_ne h with hlt | hgt
  · exact List.getElem?_append_left hlt
  · rw [List.getElem?_eq_none (by simp; omega), List.getElem?_eq_none (by omega)]

theorem standing?_start_send {thread : Thread SendPoint} (hu : u ≠ .send c.sends.length) :
    ({ c with sends := c.sends ++ [thread] }).standing? u = c.standing? u := by
  cases u with
  | send n =>
    have hn : n ≠ c.sends.length := fun hn => hu (hn ▸ rfl)
    simp only [Connection.standing?, getElem?_append_of_ne hn]
  | _ => rfl

theorem standing?_start_close {thread : Thread ClosePoint} (hu : u ≠ .close c.closes.length) :
    ({ c with closes := c.closes ++ [thread] }).standing? u = c.standing? u := by
  cases u with
  | close n =>
    have hn : n ≠ c.closes.length := fun hn => hu (hn ▸ rfl)
    simp only [Connection.standing?, getElem?_append_of_ne hn]
  | _ => rfl

end Uplink.Stream.Connection

import Mathlib.Data.List.TakeWhile
import Uplink.Limiter.Overlap
import Uplink.Proofs.Limiter.Window

/-! Admission when calls overlap. A call decides by the clock that it read before it entered, so
that admissions may be recorded out of order, and one with an old reading may come into a window
whose other admissions are forgotten already. What holds in any order is the ceiling for the window
that ends now; while the calls on a key enter in the order of their readings it holds for every
window. -/

namespace Uplink.Limiter

/-- How many of some admissions lie in the window that ends at an instant. -/
def countUpTo (window : Duration) (times : List Instant) (now : Instant) : Nat :=
  times.countP fun t => t ≤ now && counts window now t

/-- The times that the calls on a key had read, in the order in which they entered. -/
def readingsOf (history : List Decision) (key : String) : List Instant :=
  (history.filter (·.key = key)).map Decision.time

variable {l : Limiter} {window : Duration} {key : String} {limit time : Nat} {s s' : Shared}
  {m : Move} {moves : List Move} {history decisions : List Decision} {times : List Instant}

/-- Only times that lie before the end of a window are counted in it. -/
theorem countUpTo_le_countP (now : Instant) :
    countUpTo window times now ≤ times.countP (counts window now) :=
  List.countP_mono_left fun _ _ h => (Bool.and_eq_true_iff.mp h).2

theorem countUpTo_append (before after : List Instant) (now : Instant) :
    countUpTo window (before ++ after) now =
      countUpTo window before now + countUpTo window after now :=
  List.countP_append

theorem admitted_append (before after : List Decision) :
    admitted (before ++ after) key = admitted before key ++ admitted after key := by
  simp [admitted]

theorem readingsOf_append (before after : List Decision) :
    readingsOf (before ++ after) key = readingsOf before key ++ readingsOf after key := by
  simp [readingsOf]

theorem admitted_singleton (k : String) (yes : Bool) : admitted [⟨k, time, yes⟩] key =
    if k = key then if yes then [time] else [] else [] := by
  by_cases hk : k = key <;> cases yes <;> simp [admitted, hk]

theorem readingsOf_singleton (k : String) (yes : Bool) :
    readingsOf [⟨k, time, yes⟩] key = if k = key then [time] else [] := by
  by_cases hk : k = key <;> simp [readingsOf, hk]

/-- What a limiter keeps of all admissions of a key: the last ones, up to the ceiling. Each of those
before them had left the window of some call. -/
structure Retains (window : Duration) (key : String) (limit : Nat) (l : Limiter)
    (history : List Decision) : Prop where
  window_eq : l.window = window
  ceiling_eq : l.ceiling key = limit
  length_le : (l.recorded key).length ≤ limit
  kept : ∃ dropped, admitted history key = dropped ++ l.recorded key ∧
    ∀ t ∈ dropped, ∃ r ∈ readingsOf history key, counts window r t = false

namespace Retains

variable (h : Retains window key limit l history)
include h

/-- At an instant that is no earlier than any reading, at most those that are kept still count. -/
theorem countP_le {now : Instant} (hnow : ∀ r ∈ readingsOf history key, r ≤ now) :
    (admitted history key).countP (counts window now) ≤
      (prune window now (l.recorded key)).length := by
  obtain ⟨dropped, hadmitted, hdropped⟩ := h.kept
  have hgone : dropped.countP (counts window now) = 0 := by
    refine List.countP_eq_zero.mpr fun t ht => ?_
    obtain ⟨r, hr, hcounts⟩ := hdropped t ht
    simp [counts_later hcounts (hnow r hr)]
  have hfront : ((l.recorded key).takeWhile fun t => !counts window now t).countP
      (counts window now) = 0 := by
    refine List.countP_eq_zero.mpr fun t ht => ?_
    simpa using List.mem_takeWhile_imp ht
  calc (admitted history key).countP (counts window now)
      = (l.recorded key).countP (counts window now) := by
        rw [hadmitted, List.countP_append, hgone, Nat.zero_add]
    _ = (prune window now (l.recorded key)).countP (counts window now) := by
        rw [← List.takeWhile_append_dropWhile (p := fun t => !counts window now t)
          (l := l.recorded key), List.countP_append, hfront, Nat.zero_add, prune,
          List.takeWhile_append_dropWhile]
    _ ≤ (prune window now (l.recorded key)).length := List.countP_le_length

/-- A call that had read the ceiling enters. -/
theorem enter_self (time : Instant) : Retains window key limit (l.enter key limit time).2
    (history ++ [⟨key, time, (l.enter key limit time).1⟩]) where
  window_eq := (window_enter time).trans h.window_eq
  ceiling_eq := (ceiling_enter time).trans h.ceiling_eq
  length_le := by
    have hprune : (prune l.window time (l.recorded key)).length ≤ (l.recorded key).length :=
      (List.dropWhile_sublist _).length_le
    have hlength := h.length_le
    rw [recorded_enter_self, enter_fst]
    split
    · next hroom =>
      rw [List.length_append, List.length_singleton]
      exact of_decide_eq_true hroom
    · rw [List.append_nil]
      omega
  kept := by
    obtain ⟨dropped, hadmitted, hdropped⟩ := h.kept
    have hsplit : (l.recorded key).takeWhile (fun t => !counts window time t) ++
        prune window time (l.recorded key) = l.recorded key := List.takeWhile_append_dropWhile
    refine ⟨dropped ++ (l.recorded key).takeWhile fun t => !counts window time t, ?_, ?_⟩
    · rw [admitted_append, admitted_singleton, if_pos rfl, recorded_enter_self, h.window_eq,
        hadmitted, ← List.append_assoc, List.append_assoc dropped (List.takeWhile ..), hsplit]
    · intro t ht
      rw [readingsOf_append, readingsOf_singleton, if_pos rfl]
      rcases List.mem_append.mp ht with ht | ht
      · obtain ⟨r, hr, hcounts⟩ := hdropped t ht
        exact ⟨r, List.mem_append_left _ hr, hcounts⟩
      · exact ⟨time, List.mem_append_right _ (List.mem_singleton_self time), by
          simpa using List.mem_takeWhile_imp ht⟩

/-- A call on another key changes nothing for this one. -/
theorem enter_ne {k : String} (hk : key ≠ k) (n : Nat) (time : Instant) :
    Retains window key limit (l.enter k n time).2
      (history ++ [⟨k, time, (l.enter k n time).1⟩]) where
  window_eq := (window_enter time).trans h.window_eq
  ceiling_eq := (ceiling_enter time).trans h.ceiling_eq
  length_le := by rw [recorded_enter_ne time hk]; exact h.length_le
  kept := by
    rw [recorded_enter_ne time hk, admitted_append, admitted_singleton, if_neg hk.symm,
      readingsOf_append, readingsOf_singleton, if_neg hk.symm, List.append_nil, List.append_nil]
    exact h.kept

/-- A call that had read no earlier time than all calls before it, and is admitted. -/
theorem countUpTo_le (hlate : ∀ r ∈ readingsOf history key, r ≤ time)
    (hyes : (l.enter key limit time).1 = true)
    (hcount : ∀ t, countUpTo window (admitted history key) t ≤ limit) (t : Nat) :
    countUpTo window (admitted history key ++ [time]) t ≤ limit := by
  rw [countUpTo_append]
  by_cases hle : time ≤ t
  · -- What counts at `t` counts at the time of the call too, and is kept.
    have hwindow : countUpTo window (admitted history key) t ≤
        (admitted history key).countP (counts window time) := by
      refine List.countP_mono_left fun x _ hx => ?_
      have hx' := (Bool.and_eq_true_iff.mp hx).2
      rw [← Bool.not_eq_false]
      intro hnot
      rw [counts_later hnot hle] at hx'
      cases hx'
    have hkept := h.countP_le hlate
    have hroom : (prune window time (l.recorded key)).length < limit := by
      rw [enter_fst, h.window_eq] at hyes
      exact of_decide_eq_true hyes
    have hone : countUpTo window [time] t ≤ 1 := List.countP_le_length
    omega
  · have hnone : countUpTo window [time] t = 0 := by simp [countUpTo, hle]
    have hbefore := hcount t
    omega

theorem setCeiling {k : String} (hk : key ≠ k) (n : Nat) :
    Retains window key limit (l.setCeiling k n) history where
  window_eq := h.window_eq
  ceiling_eq := by rw [ceiling_setCeiling, if_neg hk, h.ceiling_eq]
  length_le := h.length_le
  kept := h.kept

end Retains

/-! ### Runs -/

/-- What holds between any two moves while the ceiling of a key is not set. -/
structure Shared.Holds (window : Duration) (key : String) (limit : Nat) (s : Shared)
    (history : List Decision) : Prop where
  retains : Retains window key limit s.limiter history
  ceilings : ∀ r ∈ s.readings, r.key = key → r.ceiling = limit
  readings : ∀ r ∈ s.readings, r.time ≤ s.now
  entered : ∀ r ∈ readingsOf history key, r ≤ s.now

namespace Shared

theorem next?_enter {n : Nat} (h : s.next? (.enter n) = some (s', decisions)) :
    ∃ r ∈ s.readings, decisions = [⟨r.key, r.time, (s.limiter.enter r.key r.ceiling r.time).1⟩] ∧
      s' = { s with
        limiter := (s.limiter.enter r.key r.ceiling r.time).2
        readings := s.readings.eraseIdx n } := by
  obtain ⟨r, hr, heq⟩ := Option.map_eq_some_iff.mp h
  cases heq
  exact ⟨r, List.mem_of_getElem? hr, rfl, rfl⟩

theorem Holds.next (h : s.Holds window key limit history) (hnext : s.next? m = some (s', decisions))
    (hunset : ∀ n, m ≠ .setCeiling key n) : s'.Holds window key limit (history ++ decisions) := by
  cases m with
  | read k =>
    cases hnext
    rw [List.append_nil]
    refine ⟨h.retains, fun r hr hkey => ?_, fun r hr => ?_, h.entered⟩
    · rcases List.mem_append.mp hr with hr | hr
      · exact h.ceilings r hr hkey
      · cases List.mem_singleton.mp hr
        cases hkey
        exact h.retains.ceiling_eq
    · rcases List.mem_append.mp hr with hr | hr
      · exact h.readings r hr
      · cases List.mem_singleton.mp hr
        exact Nat.le_refl s.now
  | enter n =>
    obtain ⟨r, hmem, rfl, rfl⟩ := next?_enter hnext
    have hothers : ∀ x ∈ s.readings.eraseIdx n, x ∈ s.readings := fun x hx =>
      List.mem_of_mem_eraseIdx hx
    refine ⟨?_, fun x hx => h.ceilings x (hothers x hx), fun x hx => h.readings x (hothers x hx),
      fun x hx => ?_⟩
    · by_cases hkey : r.key = key
      · have hceiling := h.ceilings r hmem hkey
        subst hkey
        subst hceiling
        exact h.retains.enter_self r.time
      · exact h.retains.enter_ne (Ne.symm hkey) r.ceiling r.time
    · rw [readingsOf_append, readingsOf_singleton] at hx
      rcases List.mem_append.mp hx with hx | hx
      · exact h.entered x hx
      · split at hx
        · cases List.mem_singleton.mp hx
          exact h.readings r hmem
        · cases hx
  | setCeiling k n =>
    cases hnext
    rw [List.append_nil]
    have hk : key ≠ k := fun hk => hunset n (hk ▸ rfl)
    exact ⟨h.retains.setCeiling hk n, h.ceilings, h.readings, h.entered⟩
  | elapse n =>
    cases hnext
    rw [List.append_nil]
    refine ⟨h.retains, h.ceilings, fun r hr => ?_, fun r hr => ?_⟩
    · exact Nat.le_trans (h.readings r hr) (Nat.le_add_right _ _)
    · exact Nat.le_trans (h.entered r hr) (Nat.le_add_right _ _)

/-- While the calls on a key enter in the order of their readings, no window holds more than the
ceiling. -/
theorem Holds.countUpTo_next (h : s.Holds window key limit history)
    (hnext : s.next? m = some (s', decisions))
    (hordered : (readingsOf (history ++ decisions) key).Pairwise (· ≤ ·))
    (hcount : ∀ t, countUpTo window (admitted history key) t ≤ limit) (t : Nat) :
    countUpTo window (admitted (history ++ decisions) key) t ≤ limit := by
  cases m with
  | read | setCeiling | elapse => cases hnext; rw [List.append_nil]; exact hcount t
  | enter n =>
    obtain ⟨r, hmem, rfl, rfl⟩ := next?_enter hnext
    rw [admitted_append, admitted_singleton]
    rw [readingsOf_append, readingsOf_singleton] at hordered
    split
    · next hk =>
      rw [if_pos hk] at hordered
      subst hk
      split
      · next hyes =>
        rw [h.ceilings r hmem rfl] at hyes
        refine h.retains.countUpTo_le (fun x hx => ?_) hyes hcount t
        exact (List.pairwise_append.mp hordered).2.2 x hx r.time (List.mem_singleton_self _)
      · rw [List.append_nil]
        exact hcount t
    · rw [List.append_nil]
      exact hcount t

theorem holds_start (defaultCeiling : Nat) (window : Duration) (configured : KeyMap Nat)
    (start : Instant) (key : String) :
    (ofLimiter (ofCeilings defaultCeiling window configured) start).Holds window key
      ((ofCeilings defaultCeiling window configured).ceiling key) [] where
  retains := ⟨rfl, rfl, Nat.zero_le _, [], rfl, fun _ ht => absurd ht List.not_mem_nil⟩
  ceilings := fun _ hr => absurd hr List.not_mem_nil
  readings := fun _ hr => absurd hr List.not_mem_nil
  entered := fun _ hr => absurd hr List.not_mem_nil

theorem Reaches.holds {s₀ : Shared} (h : s₀.Reaches moves s history)
    (hstart : s₀.Holds window key limit []) (hunset : ∀ n, .setCeiling key n ∉ moves) :
    s.Holds window key limit history := by
  induction h with
  | refl => exact hstart
  | move _ hnext ih =>
    refine (ih fun n hmem => hunset n (List.mem_append_left _ hmem)).next hnext fun n heq => ?_
    exact hunset n (List.mem_append_right _ (List.mem_singleton.mpr heq.symm))

theorem Reaches.countUpTo_le {s₀ : Shared} (h : s₀.Reaches moves s history)
    (hstart : s₀.Holds window key limit []) (hunset : ∀ n, .setCeiling key n ∉ moves)
    (hordered : (readingsOf history key).Pairwise (· ≤ ·)) :
    ∀ t, countUpTo window (admitted history key) t ≤ limit := by
  induction h with
  | refl => exact fun _ => Nat.zero_le limit
  | move hreaches hnext ih =>
    have hbefore := fun n hmem => hunset n (List.mem_append_left _ hmem)
    have hprefix := hordered
    rw [readingsOf_append] at hprefix
    exact (hreaches.holds hstart hbefore).countUpTo_next hnext hordered
      (ih hbefore (List.pairwise_append.mp hprefix).1)

end Shared

/-! ### Windows -/

theorem admitted_sublist : (admitted history key).Sublist (readingsOf history key) := by
  have hfilter : history.filter (fun d => d.key = key && d.admitted) =
      (history.filter (·.key = key)).filter Decision.admitted := by
    rw [List.filter_filter]
    exact List.filter_congr fun d _ => Bool.and_comm _ _
  rw [admitted, hfilter]
  exact List.filter_sublist.map _

/-- In whatever order calls that overlap enter: no more than the ceiling of all admissions of a key
lie in the window that ends now, and each that the limiter no longer keeps has left that window. If
the calls on the key enter in the order of their readings, the kept ones are in order and no window
at all holds more than the ceiling. -/
theorem overlapping_within_ceiling (defaultCeiling : Nat) (window : Duration)
    (configured : KeyMap Nat) (start : Instant)
    (h : (Shared.ofLimiter (ofCeilings defaultCeiling window configured) start).Reaches moves s
      history) (hunset : ∀ n, .setCeiling key n ∉ moves) :
    let limit := (ofCeilings defaultCeiling window configured).ceiling key
    (s.limiter.recorded key).length ≤ limit ∧
      countUpTo window (admitted history key) s.now ≤ limit ∧
      (∃ dropped, admitted history key = dropped ++ s.limiter.recorded key ∧
        countUpTo window dropped s.now = 0) ∧
      ((readingsOf history key).Pairwise (· ≤ ·) →
        (s.limiter.recorded key).Pairwise (· ≤ ·) ∧
          ∀ t, countUpTo window (admitted history key) t ≤ limit) := by
  intro limit
  have hstart := Shared.holds_start defaultCeiling window configured start key
  have hholds := h.holds hstart hunset
  obtain ⟨dropped, hadmitted, hdropped⟩ := hholds.retains.kept
  refine ⟨hholds.retains.length_le, ?_, ⟨dropped, hadmitted, ?_⟩, fun hordered => ⟨?_, ?_⟩⟩
  · calc countUpTo window (admitted history key) s.now
        ≤ (admitted history key).countP (counts window s.now) := countUpTo_le_countP s.now
      _ ≤ (prune window s.now (s.limiter.recorded key)).length :=
          hholds.retains.countP_le hholds.entered
      _ ≤ (s.limiter.recorded key).length := (List.dropWhile_sublist _).length_le
      _ ≤ limit := hholds.retains.length_le
  · refine List.countP_eq_zero.mpr fun t ht => ?_
    obtain ⟨r, hr, hcounts⟩ := hdropped t ht
    simp [counts_later hcounts (hholds.entered r hr)]
  · have hsorted := hordered.sublist admitted_sublist
    rw [hadmitted] at hsorted
    exact (List.pairwise_append.mp hsorted).2.1
  · exact h.countUpTo_le hstart hunset hordered

/-! ### Given moves -/

/-- The state after some moves, with the decisions made. -/
def Shared.follow? (s : Shared) (history : List Decision) :
    List Move → Option (Shared × List Decision)
  | [] => some (s, history)
  | m :: rest => (s.next? m).bind fun (s, decisions) => s.follow? (history ++ decisions) rest

theorem Shared.Reaches.of_follow? {s₀ : Shared} {done : List Move} {history' : List Decision}
    (rest : List Move) (hreaches : s₀.Reaches done s history)
    (h : s.follow? history rest = some (s', history')) :
    s₀.Reaches (done ++ rest) s' history' := by
  induction rest generalizing s history done with
  | nil => cases h; rw [List.append_nil]; exact hreaches
  | cons m rest ih =>
    obtain ⟨⟨s₁, decisions⟩, hnext, hrest⟩ := Option.bind_eq_some_iff.mp h
    rw [← List.singleton_append, ← List.append_assoc]
    exact ih (hreaches.move hnext) hrest

/-- Two calls read the clock and enter in turn, and a third one after the window has passed. -/
def threeCalls : List Move :=
  [.read "key", .read "key", .enter 0, .enter 0, .elapse 30000000, .read "key", .enter 0]

/-- Of three such calls no window holds more than two. -/
theorem within_ceiling_of_three_calls : ∃ moves s history,
    (Shared.ofLimiter (ofCeilings 2 (.ofMillis 10) ∅) 0).Reaches moves s history ∧
      (readingsOf history "key").Pairwise (· ≤ ·) ∧ admitted history "key" = [0, 0, 30000000] ∧
      ∀ t, countUpTo (.ofMillis 10) (admitted history "key") t ≤ 2 := by
  have hreaches : (Shared.ofLimiter (ofCeilings 2 (.ofMillis 10) ∅) 0).Reaches threeCalls _ _ :=
    Shared.Reaches.of_follow? threeCalls .refl rfl
  have hunset : ∀ n, .setCeiling "key" n ∉ threeCalls := by simp [threeCalls]
  have hwithin := overlapping_within_ceiling 2 (.ofMillis 10) ∅ 0 hreaches hunset
  exact ⟨_, _, _, hreaches, by decide, rfl, (hwithin.2.2.2 (by decide)).2⟩

/-- A call reads the clock, and enters only after two others with the same reading were admitted and
the window has passed: it is recorded after a later time, as the third in the window of its reading.
-/
theorem overlapping_exceeds_ceiling : ∃ moves s history,
    (Shared.ofLimiter (ofCeilings 2 (.ofMillis 10) ∅) 0).Reaches moves s history ∧
      (∀ key n, .setCeiling key n ∉ moves) ∧ ¬ (s.limiter.recorded "key").Pairwise (· ≤ ·) ∧
      s.limiter.ceiling "key" < countUpTo (.ofMillis 10) (admitted history "key") 0 :=
  ⟨_, _, _, Shared.Reaches.of_follow? [.read "key", .read "key", .read "key", .enter 1, .enter 1,
    .elapse 30000000, .read "key", .enter 1, .enter 0] .refl rfl, by simp, by decide, by decide⟩

end Uplink.Limiter

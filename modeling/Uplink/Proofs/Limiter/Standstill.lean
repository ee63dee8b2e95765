import Mathlib.Data.List.Perm.Basic
import Uplink.Proofs.Limiter.Log
import Uplink.Proofs.Limiter.Overlap

/-! Admission while the clock stands still. Calls that overlap all have the same reading then, so
the order in which they enter does not matter: as many are admitted as the ceiling leaves room for,
and each of these takes one place. -/

namespace Uplink.Limiter

/-- Whether a move is the start of a call on a key. -/
def Move.starts (key : String) : Move → Bool
  | .read k => k = key
  | .enter _ | .setCeiling _ _ | .elapse _ => false

variable {l : Limiter} {window : Duration} {key : String} {limit before : Nat} {now : Instant}
  {s s' : Shared} {m : Move} {moves : List Move} {history decisions : List Decision}

/-! ### One call -/

/-- A call that enters takes a place if it is admitted, and none otherwise. -/
theorem inWindow_enter (limit : Nat) (now : Instant) (h : (l.recorded key).Pairwise (· ≤ ·))
    (hwindow : 0 < l.window.nanos) :
    (l.enter key limit now).2.inWindow key now =
      l.inWindow key now + if (l.enter key limit now).1 then 1 else 0 := by
  have hnow : counts l.window now now = true := counts_iff.mpr (by omega)
  rw [inWindow, recorded_enter_self, window_enter, prune_eq_filter h, List.filter_append,
    List.filter_filter, List.length_append]
  simp only [Bool.and_self]
  split <;> simp [inWindow, hnow]

/-- What a call that enters leaves of a key is in order and not after the call. -/
theorem ordered_enter (limit : Nat) (h : (l.recorded key).Pairwise (· ≤ ·))
    (hpast : ∀ t ∈ l.recorded key, t ≤ now) :
    ((l.enter key limit now).2.recorded key).Pairwise (· ≤ ·) ∧
      ∀ t ∈ (l.enter key limit now).2.recorded key, t ≤ now := by
  have hkept : ∀ t ∈ prune l.window now (l.recorded key), t ≤ now := fun t ht =>
    hpast t ((List.dropWhile_sublist _).subset ht)
  have hone : ∀ t ∈ if (l.enter key limit now).1 then [now] else [], t = now := by
    split <;> simp
  rw [recorded_enter_self, List.pairwise_append]
  refine ⟨⟨h.sublist (List.dropWhile_sublist _), by split <;> simp, fun t ht u hu => ?_⟩,
    fun t ht => ?_⟩
  · rw [hone u hu]
    exact hkept t ht
  · rcases List.mem_append.mp ht with ht | ht
    · exact hkept t ht
    · exact Nat.le_of_eq (hone t ht)

/-! ### Runs -/

namespace Shared

/-- What holds while the clock stands still: every call under way has read the same, and of those
that entered as many were admitted as there was room for. -/
structure Fills (window : Duration) (key : String) (limit : Nat) (now : Instant) (before : Nat)
    (s : Shared) (history : List Decision) : Prop where
  window_eq : s.limiter.window = window
  ceiling_eq : s.limiter.ceiling key = limit
  now_eq : s.now = now
  ordered : (s.limiter.recorded key).Pairwise (· ≤ ·)
  past : ∀ t ∈ s.limiter.recorded key, t ≤ now
  ceilings : ∀ r ∈ s.readings, r.key = key → r.ceiling = limit
  times : ∀ r ∈ s.readings, r.time = now
  taken : s.limiter.inWindow key now = before + (admitted history key).length
  filled : (admitted history key).length =
    min (readingsOf history key).length (limit - before)

namespace Fills

variable (h : s.Fills window key limit now before history)
include h

theorem read (k : String) :
    ({ s with readings := s.readings ++ [⟨k, s.limiter.ceiling k, s.now⟩] } : Shared).Fills window
      key limit now before history where
  window_eq := h.window_eq
  ceiling_eq := h.ceiling_eq
  now_eq := h.now_eq
  ordered := h.ordered
  past := h.past
  ceilings r hr hkey := by
    rcases List.mem_append.mp hr with hr | hr
    · exact h.ceilings r hr hkey
    · cases List.mem_singleton.mp hr
      cases hkey
      exact h.ceiling_eq
  times r hr := by
    rcases List.mem_append.mp hr with hr | hr
    · exact h.times r hr
    · cases List.mem_singleton.mp hr
      exact h.now_eq
  taken := h.taken
  filled := h.filled

/-- A call on the key enters: it is admitted exactly if there still is room. -/
theorem enter_self (hwindow : 0 < window.nanos) (n : Nat) :
    ({ s with
        limiter := (s.limiter.enter key limit now).2
        readings := s.readings.eraseIdx n } : Shared).Fills window key limit now before
      (history ++ [⟨key, now, (s.limiter.enter key limit now).1⟩]) := by
  obtain ⟨hordered, hpast⟩ := ordered_enter limit h.ordered h.past
  have htaken := h.taken
  have hfilled := h.filled
  have hyes : (s.limiter.enter key limit now).1 =
      decide (before + (admitted history key).length < limit) := by
    rw [enter_fst, length_prune h.ordered, htaken]
  have hinWindow := inWindow_enter limit now h.ordered
    (h.window_eq.symm ▸ hwindow)
  have hadmitted : (admitted (history ++ [⟨key, now, (s.limiter.enter key limit now).1⟩])
      key).length = (admitted history key).length +
        if (s.limiter.enter key limit now).1 then 1 else 0 := by
    rw [admitted_append, admitted_singleton, if_pos rfl, List.length_append]
    split <;> rfl
  have hentered : (readingsOf (history ++ [⟨key, now, (s.limiter.enter key limit now).1⟩])
      key).length = (readingsOf history key).length + 1 := by
    rw [readingsOf_append, readingsOf_singleton, if_pos rfl, List.length_append,
      List.length_singleton]
  refine ⟨(window_enter now).trans h.window_eq, (ceiling_enter now).trans h.ceiling_eq, h.now_eq,
    hordered, hpast, fun r hr => h.ceilings r (List.mem_of_mem_eraseIdx hr),
    fun r hr => h.times r (List.mem_of_mem_eraseIdx hr), ?_, ?_⟩
  · rw [hinWindow, hadmitted, htaken, Nat.add_assoc]
  · rw [hadmitted, hentered, hyes]
    by_cases hroom : before + (admitted history key).length < limit
    · simp only [hroom, decide_true, if_true]
      omega
    · simp only [hroom, decide_false, Bool.false_eq_true, if_false]
      omega

/-- A call on another key enters. -/
theorem enter_ne {k : String} (hk : key ≠ k) (ceiling : Nat) (time : Instant) (n : Nat) :
    ({ s with
        limiter := (s.limiter.enter k ceiling time).2
        readings := s.readings.eraseIdx n } : Shared).Fills window key limit now before
      (history ++ [⟨k, time, (s.limiter.enter k ceiling time).1⟩]) := by
  have hrecorded : (s.limiter.enter k ceiling time).2.recorded key = s.limiter.recorded key :=
    recorded_enter_ne time hk
  refine ⟨(window_enter time).trans h.window_eq, (ceiling_enter time).trans h.ceiling_eq, h.now_eq,
    hrecorded ▸ h.ordered, hrecorded ▸ h.past,
    fun r hr => h.ceilings r (List.mem_of_mem_eraseIdx hr),
    fun r hr => h.times r (List.mem_of_mem_eraseIdx hr), ?_, ?_⟩
  · rw [inWindow, hrecorded, window_enter, admitted_append, admitted_singleton, if_neg hk.symm,
      List.append_nil]
    exact h.taken
  · rw [admitted_append, admitted_singleton, if_neg hk.symm, readingsOf_append,
      readingsOf_singleton, if_neg hk.symm, List.append_nil, List.append_nil]
    exact h.filled

theorem next (hwindow : 0 < window.nanos) (hnext : s.next? m = some (s', decisions))
    (hstill : ∀ n, m ≠ .elapse n) (hunset : ∀ n, m ≠ .setCeiling key n) :
    s'.Fills window key limit now before (history ++ decisions) := by
  cases m with
  | read k =>
    cases hnext
    rw [List.append_nil]
    exact h.read k
  | enter n =>
    obtain ⟨r, hmem, rfl, rfl⟩ := next?_enter hnext
    rw [h.times r hmem]
    by_cases hkey : r.key = key
    · rw [h.ceilings r hmem hkey, hkey]
      exact h.enter_self hwindow n
    · exact h.enter_ne (Ne.symm hkey) r.ceiling now n
  | setCeiling k n =>
    cases hnext
    rw [List.append_nil]
    have hk : key ≠ k := fun hk => hunset n (hk ▸ rfl)
    exact ⟨h.window_eq, by rw [ceiling_setCeiling, if_neg hk, h.ceiling_eq], h.now_eq, h.ordered,
      h.past, h.ceilings, h.times, h.taken, h.filled⟩
  | elapse n => exact absurd rfl (hstill n)

end Fills

theorem Reaches.fills {s₀ : Shared} (h : s₀.Reaches moves s history)
    (hstart : s₀.Fills window key limit now before []) (hwindow : 0 < window.nanos)
    (hstill : ∀ n, .elapse n ∉ moves) (hunset : ∀ n, .setCeiling key n ∉ moves) :
    s.Fills window key limit now before history := by
  induction h with
  | refl => exact hstart
  | move _ hnext ih =>
    have hbefore := ih (fun n hmem => hstill n (List.mem_append_left _ hmem))
      fun n hmem => hunset n (List.mem_append_left _ hmem)
    refine hbefore.next hwindow hnext (fun n heq => ?_) fun n heq => ?_
    · exact hstill n (List.mem_append_right _ (List.mem_singleton.mpr heq.symm))
    · exact hunset n (List.mem_append_right _ (List.mem_singleton.mpr heq.symm))

/-- A call that has started has either entered or is still under way. -/
theorem next?_starts (key : String) (hnext : s.next? m = some (s', decisions)) :
    (readingsOf decisions key).length + s'.readings.countP (·.key = key) =
      s.readings.countP (·.key = key) + if m.starts key then 1 else 0 := by
  cases m with
  | read k =>
    cases hnext
    by_cases hk : k = key <;> simp [readingsOf, Move.starts, hk]
  | enter n =>
    obtain ⟨r, hr, heq⟩ := Option.map_eq_some_iff.mp hnext
    obtain ⟨hn, hget⟩ := List.getElem?_eq_some_iff.mp hr
    cases heq
    -- The reading that enters is the one that is taken out of those under way.
    have hperm : (s.readings[n] :: s.readings.eraseIdx n).Perm s.readings :=
      List.getElem_cons_eraseIdx_perm hn
    have hcount := hperm.countP_eq (·.key = key)
    rw [List.countP_cons, hget] at hcount
    rw [readingsOf_singleton, Move.starts, ← hcount]
    by_cases hk : r.key = key <;> simp [hk, Nat.add_comm]
  | setCeiling | elapse => cases hnext; simp [readingsOf, Move.starts]

theorem Reaches.starts {s₀ : Shared} (h : s₀.Reaches moves s history) (key : String) :
    (readingsOf history key).length + s.readings.countP (·.key = key) =
      s₀.readings.countP (·.key = key) + moves.countP (Move.starts key) := by
  induction h with
  | refl => simp [readingsOf]
  | @move s₁ s₂ moves history decisions m _ hnext ih =>
    have hone := next?_starts key hnext
    have hlength : (readingsOf (history ++ decisions) key).length =
        (readingsOf history key).length + (readingsOf decisions key).length := by
      rw [readingsOf_append, List.length_append]
    rw [List.countP_append, List.countP_singleton]
    omega

/-- A call under way is never kept from entering. -/
theorem isSome_next?_enter {n : Nat} (h : n < s.readings.length) :
    (s.next? (.enter n)).isSome = true := by
  simp [next?, h]

/-- Calls to a limiter start in the state that calls before them left. -/
theorem fills_start (defaultCeiling : Nat) (window : Duration) (configured : KeyMap Nat)
    (start : Instant) (ops : List Operation) (key : String) :
    let left := (ofCeilings defaultCeiling window configured).after start ops
    (ofLimiter left.1 left.2).Fills window key (left.1.ceiling key) left.2
      (left.1.inWindow key left.2) [] := by
  intro left
  have hstart : (Log.start defaultCeiling window configured).Covers
      (ofCeilings defaultCeiling window configured) start :=
    Log.covers_start defaultCeiling window configured
  obtain ⟨htime, hcovers⟩ := hstart.after ops
  obtain ⟨dropped, htimes, -⟩ := hcovers.kept key
  refine ⟨?_, rfl, rfl, hcovers.ordered_recorded key, fun t ht => ?_,
    fun _ hr => absurd hr List.not_mem_nil, fun _ hr => absurd hr List.not_mem_nil, rfl, ?_⟩
  · exact window_after _ start ops
  · rw [htime]
    exact hcovers.past key t (htimes ▸ List.mem_append_right _ ht)
  · simp [readingsOf, admitted]

end Shared

/-- Whatever calls came before, and in whatever order calls overlap while the clock stands still: as
many of the calls on a key are admitted as the ceiling leaves room for, and each takes one place in
the window. Every call that has started can enter, and once all have, those admitted are counted by
the calls that started. -/
theorem standstill_admits_exactly (defaultCeiling : Nat) {window : Duration}
    (configured : KeyMap Nat) (start : Instant) (ops : List Operation) (key : String)
    (hwindow : 0 < window.nanos) :
    let left := (ofCeilings defaultCeiling window configured).after start ops
    let room := left.1.ceiling key - left.1.inWindow key left.2
    (Shared.ofLimiter left.1 left.2).Reaches moves s history →
      (∀ n, .elapse n ∉ moves) → (∀ n, .setCeiling key n ∉ moves) →
      (∀ n < s.readings.length, (s.next? (.enter n)).isSome = true) ∧
        (admitted history key).length = min (readingsOf history key).length room ∧
        s.limiter.inWindow key s.now =
          left.1.inWindow key left.2 + (admitted history key).length ∧
        ((∀ r ∈ s.readings, r.key ≠ key) →
          (admitted history key).length = min (moves.countP (Move.starts key)) room) := by
  intro left room h hstill hunset
  have hfills := h.fills
    (Shared.fills_start defaultCeiling window configured start ops key) hwindow hstill hunset
  refine ⟨fun n hn => Shared.isSome_next?_enter hn, hfills.filled, ?_, fun hnone => ?_⟩
  · rw [hfills.now_eq]
    exact hfills.taken
  · have hpending : s.readings.countP (·.key = key) = 0 :=
      List.countP_eq_zero.mpr fun r hr => by simpa using hnone r hr
    have hstarts := h.starts key
    rw [hpending, Nat.add_zero, Shared.ofLimiter, List.countP_nil, Nat.zero_add] at hstarts
    rw [← hstarts]
    exact hfills.filled

/-- Operations after which one admission has left the window and one is in it, with a ceiling of
three. -/
def operationsBefore : List Operation :=
  [.allow "key", .elapse 30000000, .allow "key", .setCeiling "key" 3]

/-- Three calls on a key and one on another that overlap, the last one of which enters first. -/
def overlappingCalls : List Move :=
  [.read "key", .read "other", .read "key", .read "key", .enter 3, .enter 1, .enter 1, .enter 0]

/-- Of three calls that overlap two are admitted where there is room for two. -/
theorem standstill_admits_two : ∃ s history,
    let left := (ofCeilings 5 (.ofMillis 10) ∅).after 0 operationsBefore
    (Shared.ofLimiter left.1 left.2).Reaches overlappingCalls s history ∧
      left.1.inWindow "key" left.2 = 1 ∧ (admitted history "key").length = 2 ∧
      s.limiter.inWindow "key" s.now = 3 := by
  have hreaches : (Shared.ofLimiter ((ofCeilings 5 (.ofMillis 10) ∅).after 0 operationsBefore).1
      ((ofCeilings 5 (.ofMillis 10) ∅).after 0 operationsBefore).2).Reaches overlappingCalls _ _ :=
    Shared.Reaches.of_follow? overlappingCalls .refl rfl
  have hexact := standstill_admits_exactly 5 ∅ 0 operationsBefore "key" (by decide) hreaches
    (by simp [overlappingCalls]) (by simp [overlappingCalls])
  have htwo := hexact.2.2.2 (by decide)
  exact ⟨_, _, hreaches, by decide, htwo, by rw [hexact.2.2.1, htwo]; decide⟩

end Uplink.Limiter

import Mathlib.Data.List.TakeWhile
import Uplink.Proofs.Limiter.Window
import Uplink.Settings

/-! A limiter beside a log that never forgets an admission. Whatever is asked of the two while the
clock goes on, they answer alike; so a limiter admits a call exactly if fewer admissions than the
ceiling lie in the window, although it keeps only some of their times. -/

namespace Uplink.Limiter

/-- A use of a limiter, or time that passes. -/
inductive Operation where
  | allow (key : String)
  | setCeiling (key : String) (ceiling : Nat)
  | ceiling (key : String)
  | inWindow (key : String)
  | elapse (nanos : Nat)

inductive Answer where
  | admitted (yes : Bool)
  | number (n : Nat)
  | done

/-- Whether an operation names a key, or lets time pass for all keys alike. -/
def Operation.concerns (key : String) : Operation → Bool
  | .allow k | .setCeiling k _ | .ceiling k | .inWindow k => k = key
  | .elapse _ => true

/-- An operation on a limiter at a time: the answer, and the limiter and the time after it. -/
def perform (l : Limiter) (now : Instant) : Operation → Answer × Limiter × Instant
  | .allow key => (.admitted (l.allow key now).1, (l.allow key now).2, now)
  | .setCeiling key n => (.done, l.setCeiling key n, now)
  | .ceiling key => (.number (l.ceiling key), l, now)
  | .inWindow key => (.number (l.inWindow key now), l, now)
  | .elapse n => (.done, l, now + n)

/-- The answers to operations in turn. -/
def answers (l : Limiter) (now : Instant) : List Operation → List Answer
  | [] => []
  | op :: ops => (l.perform now op).1 ::
    (l.perform now op).2.1.answers (l.perform now op).2.2 ops

/-- The limiter and the time after operations. -/
def after (l : Limiter) (now : Instant) : List Operation → Limiter × Instant
  | [] => (l, now)
  | op :: ops => (l.perform now op).2.1.after (l.perform now op).2.2 ops

/-- All admissions that were ever granted, and all ceilings that were ever set, newest first. -/
structure Log where
  window : Duration
  defaultCeiling : Nat
  configured : KeyMap Nat
  ceilingsSet : List (String × Nat)
  admissions : List (String × Instant)

namespace Log

def start (defaultCeiling : Nat) (window : Duration) (configured : KeyMap Nat) : Log :=
  ⟨window, defaultCeiling, configured, [], []⟩

/-- The last ceiling that was set for a key, else the configured one, else the default. -/
def ceiling (log : Log) (key : String) : Nat :=
  match log.ceilingsSet.find? (·.1 = key) with
  | some (_, n) => n
  | none => (log.configured.get? key).getD log.defaultCeiling

/-- The times of all admissions of a key. -/
def times (log : Log) (key : String) : List Instant :=
  (log.admissions.filter (·.1 = key)).map Prod.snd

/-- How many of all admissions of a key lie in the window that ends now. -/
def count (log : Log) (key : String) (now : Instant) : Nat :=
  (log.times key).countP fun t => now - t < log.window.nanos

/-- Admits a call if fewer admissions than the ceiling lie in the window. -/
def admits (log : Log) (key : String) (now : Instant) : Bool :=
  log.count key now < log.ceiling key

def record (log : Log) (key : String) (now : Instant) : Log :=
  { log with admissions := log.admissions ++ [(key, now)] }

/-- An operation on a log at a time: the answer, and the log and the time after it. -/
def perform (log : Log) (now : Instant) : Operation → Answer × Log × Instant
  | .allow key =>
    (.admitted (log.admits key now), if log.admits key now then log.record key now else log, now)
  | .setCeiling key n => (.done, { log with ceilingsSet := (key, n) :: log.ceilingsSet }, now)
  | .ceiling key => (.number (log.ceiling key), log, now)
  | .inWindow key => (.number (log.count key now), log, now)
  | .elapse n => (.done, log, now + n)

/-- The answers to operations in turn. -/
def answers (log : Log) (now : Instant) : List Operation → List Answer
  | [] => []
  | op :: ops => (log.perform now op).1 ::
    (log.perform now op).2.1.answers (log.perform now op).2.2 ops

/-- The log and the time after operations. -/
def after (log : Log) (now : Instant) : List Operation → Log × Instant
  | [] => (log, now)
  | op :: ops => (log.perform now op).2.1.after (log.perform now op).2.2 ops

end Log

/-! ### One operation -/

variable {log : Log} {l : Limiter} {now : Nat} {key k : String}

theorem Log.times_record : (log.record key now).times k =
    log.times k ++ if k = key then [now] else [] := by
  by_cases h : k = key
  · simp [record, times, List.filter_append, h]
  · simp [record, times, List.filter_append, h, Ne.symm h]

/-- The log of a limiter: the limiter keeps the last times of each key, and those before them count
no more. -/
structure Log.Covers (log : Log) (l : Limiter) (now : Nat) : Prop where
  window : log.window = l.window
  ceiling : ∀ key, log.ceiling key = l.ceiling key
  kept : ∀ key, ∃ dropped, log.times key = dropped ++ l.recorded key ∧
    ∀ t ∈ dropped, counts l.window now t = false
  ordered : ∀ key, (log.times key).Pairwise (· ≤ ·)
  past : ∀ key, ∀ t ∈ log.times key, t ≤ now

namespace Log.Covers

variable (h : log.Covers l now)
include h

theorem ordered_recorded (key : String) : (l.recorded key).Pairwise (· ≤ ·) := by
  obtain ⟨dropped, htimes, -⟩ := h.kept key
  have := h.ordered key
  rw [htimes] at this
  exact (List.pairwise_append.mp this).2.1

theorem count_eq (key : String) : log.count key now = l.inWindow key now := by
  obtain ⟨dropped, htimes, hdropped⟩ := h.kept key
  have hcount : log.count key now = (log.times key).countP (counts l.window now) := by
    rw [Log.count, h.window]
    rfl
  have hnone : dropped.countP (counts l.window now) = 0 :=
    List.countP_eq_zero.mpr fun t ht => by simp [hdropped t ht]
  rw [hcount, htimes, List.countP_append, hnone, Nat.zero_add, inWindow,
    List.countP_eq_length_filter]

theorem admits_eq (key : String) : log.admits key now = (l.allow key now).1 := by
  rw [Log.admits, allow, enter_fst, length_prune (h.ordered_recorded key), h.count_eq, h.ceiling]

theorem allow (key : String) :
    (if log.admits key now then log.record key now else log).Covers (l.allow key now).2 now where
  window := by rw [Limiter.allow, window_enter]; split <;> exact h.window
  ceiling k := by rw [Limiter.allow, ceiling_enter]; split <;> exact h.ceiling k
  kept k := by
    obtain ⟨dropped, htimes, hdropped⟩ := h.kept k
    rw [h.admits_eq, Limiter.allow, window_enter]
    by_cases hk : k = key
    · subst hk
      -- What the call drops no longer counts; the kept times are those that still do.
      have hsplit := (List.takeWhile_append_dropWhile
        (p := fun t => !counts l.window now t) (l := l.recorded k)).symm
      refine ⟨dropped ++ (l.recorded k).takeWhile fun t => !counts l.window now t, ?_, ?_⟩
      · rw [recorded_enter_self]
        split
        · rw [times_record, if_pos rfl, htimes, prune, List.append_assoc, List.append_assoc,
            ← List.append_assoc (List.takeWhile _ _), ← hsplit]
        · rw [htimes, prune, List.append_nil, List.append_assoc, ← hsplit]
      · intro t ht
        rcases List.mem_append.mp ht with ht | ht
        · exact hdropped t ht
        · simpa using List.mem_takeWhile_imp ht
    · refine ⟨dropped, ?_, hdropped⟩
      rw [recorded_enter_ne now hk, ← htimes]
      split
      · rw [times_record, if_neg hk, List.append_nil]
      · rfl
  ordered k := by
    split
    · rw [times_record, List.pairwise_append]
      refine ⟨h.ordered k, by split <;> simp, fun t ht u hu => ?_⟩
      have hu : u = now := by split at hu <;> simp_all
      exact hu ▸ h.past k t ht
    · exact h.ordered k
  past k t ht := by
    split at ht
    · rw [times_record, List.mem_append] at ht
      rcases ht with ht | ht
      · exact h.past k t ht
      · split at ht <;> simp_all
    · exact h.past k t ht

theorem setCeiling (key : String) (n : Nat) :
    ({ log with ceilingsSet := (key, n) :: log.ceilingsSet } : Log).Covers
      (l.setCeiling key n) now where
  window := h.window
  ceiling k := by
    rw [ceiling_setCeiling, ← h.ceiling k]
    by_cases hk : k = key
    · subst hk
      simp [Log.ceiling]
    · simp [Log.ceiling, hk, Ne.symm hk]
  kept := h.kept
  ordered := h.ordered
  past := h.past

theorem elapse (n : Nat) : log.Covers l (now + n) where
  window := h.window
  ceiling := h.ceiling
  kept key := by
    obtain ⟨dropped, htimes, hdropped⟩ := h.kept key
    exact ⟨dropped, htimes, fun t ht => counts_later (hdropped t ht) (Nat.le_add_right now n)⟩
  ordered := h.ordered
  past key t ht := Nat.le_trans (h.past key t ht) (Nat.le_add_right now n)

/-- Asked the same, a limiter and its log answer alike, and it stays the limiter's log. -/
theorem perform (op : Operation) : (l.perform now op).1 = (log.perform now op).1 ∧
    (l.perform now op).2.2 = (log.perform now op).2.2 ∧
    (log.perform now op).2.1.Covers (l.perform now op).2.1 (log.perform now op).2.2 := by
  cases op with
  | allow key => exact ⟨by rw [Limiter.perform, Log.perform, h.admits_eq], rfl, h.allow key⟩
  | setCeiling key n => exact ⟨rfl, rfl, h.setCeiling key n⟩
  | ceiling key => exact ⟨by rw [Limiter.perform, Log.perform, h.ceiling], rfl, h⟩
  | inWindow key => exact ⟨by rw [Limiter.perform, Log.perform, h.count_eq], rfl, h⟩
  | elapse n => exact ⟨rfl, rfl, h.elapse n⟩

end Log.Covers

theorem Log.covers_start (defaultCeiling : Nat) (window : Duration) (configured : KeyMap Nat) :
    (Log.start defaultCeiling window configured).Covers
      (ofCeilings defaultCeiling window configured) now where
  window := rfl
  ceiling _ := rfl
  kept _ := ⟨[], rfl, by simp⟩
  ordered _ := List.Pairwise.nil
  past _ _ ht := by simp [Log.start, Log.times] at ht

/-! ### Any number of operations -/

/-- No operation changes the window. -/
theorem window_after (l : Limiter) (now : Instant) (ops : List Operation) :
    (l.after now ops).1.window = l.window := by
  induction ops generalizing l now with
  | nil => rfl
  | cons op ops ih =>
    rw [after, ih]
    cases op with
    | allow key => exact window_enter now
    | setCeiling | ceiling | inWindow | elapse => rfl

theorem answers_append (l : Limiter) (now : Instant) (ops more : List Operation) :
    l.answers now (ops ++ more) =
      l.answers now ops ++ (l.after now ops).1.answers (l.after now ops).2 more := by
  induction ops generalizing l now with
  | nil => rfl
  | cons op ops ih => simp only [List.cons_append, answers, after, ih]

theorem Log.after_append (log : Log) (now : Instant) (ops more : List Operation) :
    log.after now (ops ++ more) = (log.after now ops).1.after (log.after now ops).2 more := by
  induction ops generalizing log now with
  | nil => rfl
  | cons op ops ih => simp only [List.cons_append, after, ih]

theorem Log.Covers.answers_eq (h : log.Covers l now) (ops : List Operation) :
    l.answers now ops = log.answers now ops := by
  induction ops generalizing log l now with
  | nil => rfl
  | cons op ops ih =>
    obtain ⟨hanswer, htime, hcovers⟩ := h.perform op
    rw [Limiter.answers, Log.answers, hanswer, htime, ih hcovers]

theorem Log.Covers.after (h : log.Covers l now) (ops : List Operation) :
    (l.after now ops).2 = (log.after now ops).2 ∧
      (log.after now ops).1.Covers (l.after now ops).1 (log.after now ops).2 := by
  induction ops generalizing log l now with
  | nil => exact ⟨rfl, h⟩
  | cons op ops ih =>
    obtain ⟨-, htime, hcovers⟩ := h.perform op
    rw [Limiter.after, Log.after, htime]
    exact ih hcovers

/-! ### Other keys -/

/-- Two logs tell the same of a key. -/
structure Log.AgreesOn (key : String) (log other : Log) : Prop where
  window : log.window = other.window
  ceiling : log.ceiling key = other.ceiling key
  times : log.times key = other.times key

namespace Log.AgreesOn

variable {other : Log}

theorem count_eq (h : log.AgreesOn key other) (now : Instant) :
    log.count key now = other.count key now := by
  rw [Log.count, Log.count, h.window, h.times]

theorem admits_eq (h : log.AgreesOn key other) (now : Instant) :
    log.admits key now = other.admits key now := by
  rw [Log.admits, Log.admits, h.count_eq, h.ceiling]

theorem record (h : log.AgreesOn key other) (now : Instant) :
    (log.record key now).AgreesOn key (other.record key now) :=
  ⟨h.window, h.ceiling, by rw [times_record, times_record, h.times]⟩

theorem perform (h : log.AgreesOn key other) (now : Instant) {op : Operation}
    (hop : op.concerns key = true) : (log.perform now op).1 = (other.perform now op).1 ∧
      (log.perform now op).2.2 = (other.perform now op).2.2 ∧
      (log.perform now op).2.1.AgreesOn key (other.perform now op).2.1 := by
  cases op with
  | allow k =>
    obtain rfl : k = key := by simpa [Operation.concerns] using hop
    refine ⟨by rw [Log.perform, Log.perform, h.admits_eq], rfl, ?_⟩
    simp only [Log.perform, h.admits_eq]
    split
    · exact h.record now
    · exact h
  | setCeiling k n =>
    obtain rfl : k = key := by simpa [Operation.concerns] using hop
    exact ⟨rfl, rfl, h.window, by simp [Log.perform, Log.ceiling], h.times⟩
  | ceiling k =>
    obtain rfl : k = key := by simpa [Operation.concerns] using hop
    exact ⟨by rw [Log.perform, Log.perform, h.ceiling], rfl, h⟩
  | inWindow k =>
    obtain rfl : k = key := by simpa [Operation.concerns] using hop
    exact ⟨by rw [Log.perform, Log.perform, h.count_eq], rfl, h⟩
  | elapse n => exact ⟨rfl, rfl, h⟩

/-- An operation on another key changes nothing for this one. -/
theorem skip (h : log.AgreesOn key other) (now : Instant) {op : Operation}
    (hop : op.concerns key = false) : (log.perform now op).2.2 = now ∧
      (log.perform now op).2.1.AgreesOn key other := by
  cases op with
  | allow k =>
    have hk : key ≠ k := by simpa [Operation.concerns, eq_comm] using hop
    refine ⟨rfl, ?_⟩
    simp only [Log.perform]
    split
    · exact ⟨h.window, h.ceiling, by rw [times_record, if_neg hk, List.append_nil, h.times]⟩
    · exact h
  | setCeiling k n =>
    have hk : k ≠ key := by simpa [Operation.concerns] using hop
    refine ⟨rfl, h.window, ?_, h.times⟩
    rw [← h.ceiling]
    simp [Log.perform, Log.ceiling, hk]
  | ceiling k | inWindow k => exact ⟨rfl, h⟩
  | elapse n => simp [Operation.concerns] at hop

theorem answers_filter (h : log.AgreesOn key other) (ops : List Operation) :
    ((ops.zip (log.answers now ops)).filter (·.1.concerns key)).map Prod.snd =
      other.answers now (ops.filter (·.concerns key)) := by
  induction ops generalizing log other now with
  | nil => rfl
  | cons op ops ih =>
    by_cases hop : op.concerns key = true
    · obtain ⟨hanswer, htime, hagrees⟩ := h.perform now hop
      simp only [Log.answers, List.zip_cons_cons, List.filter_cons, hop, if_true, List.map_cons,
        ih hagrees, hanswer, htime]
    · obtain ⟨htime, hagrees⟩ := h.skip now (Bool.not_eq_true _ ▸ hop)
      simp only [Log.answers, List.zip_cons_cons, List.filter_cons, hop, Bool.false_eq_true,
        if_false, htime, ih hagrees]

end Log.AgreesOn

/-- Right after an admission no more than the ceiling lie in the window. -/
theorem Log.count_record_le (h : log.admits key now = true) :
    (log.record key now).count key now ≤ log.ceiling key := by
  have hlt : log.count key now < log.ceiling key := by simpa [Log.admits] using h
  have hsplit : (log.record key now).count key now ≤ log.count key now + 1 := by
    rw [Log.count, times_record, if_pos rfl, List.countP_append]
    exact Nat.add_le_add_left List.countP_le_length _
  omega

/-! ### Limiters from settings -/

theorem findEntry_eq_none {α : Type} {entries : List (String × α)}
    (h : ∀ e ∈ entries, key < e.1) : findEntry key entries = none := by
  induction entries with
  | nil => rfl
  | cons e rest ih =>
    have hne : key ≠ e.1 := fun he => String.lt_irrefl e.1 (he ▸ h e List.mem_cons_self)
    rw [findEntry, if_neg hne]
    exact ih fun e he => h e (List.mem_cons_of_mem _ he)

theorem ceilings_foldl {entries : List (String × UInt64)} (hordered : Ordered entries) :
    ∃ configured : KeyMap Nat,
      entries.foldl (fun l e => l.setCeiling e.1 e.2.toNat) l = { l with ceilings := configured } ∧
      ∀ k, configured.get? k = ((findEntry k entries).map UInt64.toNat).or (l.ceilings.get? k) := by
  induction entries generalizing l with
  | nil => exact ⟨l.ceilings, rfl, fun _ => rfl⟩
  | cons e rest ih =>
    obtain ⟨hhead, htail⟩ := List.pairwise_cons.mp hordered
    obtain ⟨configured, hfold, hget⟩ := ih (l := l.setCeiling e.1 e.2.toNat) htail
    refine ⟨configured, by rw [List.foldl_cons, hfold]; rfl, fun k => ?_⟩
    rw [hget, findEntry, setCeiling, KeyMap.get?_insert]
    split
    · next hk => rw [findEntry_eq_none (hk ▸ hhead)]; rfl
    · rfl

/-- Settings make a limiter with the ceilings that they name. -/
theorem limiter_eq_ofCeilings (s : RateLimitSettings) : ∃ configured : KeyMap Nat,
    s.limiter = ofCeilings s.defaultLimit.toNat (.ofMillis s.windowMs) configured ∧
      ∀ key, configured.get? key = (s.limits.get? key).map UInt64.toNat := by
  obtain ⟨configured, hfold, hget⟩ := ceilings_foldl (l := ofCeilings s.defaultLimit.toNat
    (.ofMillis s.windowMs) ∅) s.limits.ordered
  refine ⟨configured, hfold, fun key => ?_⟩
  rw [hget]
  exact Option.or_none

/-- A limiter answers as the log of all admissions does. In particular a call that is denied leaves
no trace, calls on other keys change no answer, and right after an admission no more than the
ceiling lie in the window; settings make no other limiters than these. -/
theorem answers_eq_log_answers (defaultCeiling : Nat) (window : Duration)
    (configured : KeyMap Nat) (start : Instant) (ops : List Operation) :
    let l := ofCeilings defaultCeiling window configured
    let log := Log.start defaultCeiling window configured
    let now := (l.after start ops).2
    l.answers start ops = log.answers start ops ∧
      (∀ key more, ((l.after start ops).1.allow key now).1 = false →
        l.answers start (ops ++ [.allow key] ++ more) =
          l.answers start ops ++ .admitted false :: (l.after start ops).1.answers now more) ∧
      (∀ key, ((ops.zip (l.answers start ops)).filter (·.1.concerns key)).map Prod.snd =
        l.answers start (ops.filter (·.concerns key))) ∧
      (∀ key, ((l.after start ops).1.allow key now).1 = true →
        (log.after start (ops ++ [.allow key])).1.count key now ≤
          (log.after start ops).1.ceiling key) ∧
      ∀ s : RateLimitSettings, ∃ ceilings : KeyMap Nat,
        s.limiter = ofCeilings s.defaultLimit.toNat (.ofMillis s.windowMs) ceilings ∧
          ∀ key, ceilings.get? key = (s.limits.get? key).map UInt64.toNat := by
  intro l log now
  have hstart : log.Covers l start := Log.covers_start defaultCeiling window configured
  obtain ⟨htime, hafter⟩ := hstart.after ops
  have hnow : (log.after start ops).2 = now := htime.symm
  rw [hnow] at hafter
  refine ⟨hstart.answers_eq ops, fun key more hdenied => ?_, fun key => ?_, fun key hadmitted => ?_,
    limiter_eq_ofCeilings⟩
  · -- After the denied call the log is what it was, so it covers the limiter before and after.
    have hcovers := hafter.allow key
    rw [hafter.admits_eq, hdenied, if_neg Bool.false_ne_true] at hcovers
    rw [List.append_assoc, answers_append, List.singleton_append, answers, perform, hdenied]
    exact congrArg (_ ++ .admitted false :: ·)
      ((hcovers.answers_eq more).trans (hafter.answers_eq more).symm)
  · have hagrees : log.AgreesOn key log := ⟨rfl, rfl, rfl⟩
    rw [hstart.answers_eq, hstart.answers_eq, hagrees.answers_filter]
  · rw [← hafter.admits_eq] at hadmitted
    rw [Log.after_append, Log.after, Log.after, Log.perform, hnow, if_pos hadmitted]
    exact Log.count_record_le hadmitted

end Uplink.Limiter

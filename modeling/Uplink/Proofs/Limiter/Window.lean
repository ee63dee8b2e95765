import Uplink.Limiter

/-! What a limiter keeps. While the kept times of a key are in order, dropping from the front leaves
exactly those that still count; a call touches no key but its own. -/

namespace Uplink.Limiter

variable {window : Duration} {now later t : Nat} {times : List Instant} {l : Limiter}
  {key k : String} {ceiling : Nat}

theorem counts_iff : counts window now t = true ↔ now - t < window.nanos := by simp [counts]

/-- What counts goes on to count for later times of admission. -/
theorem counts_mono {u : Nat} (h : counts window now t = true) (htu : t ≤ u) :
    counts window now u = true := by
  rw [counts_iff] at h ⊢
  omega

/-- What no longer counts never counts again. -/
theorem counts_later (h : counts window now t = false) (hle : now ≤ later) :
    counts window later t = false := by
  rw [← Bool.not_eq_true, counts_iff] at h ⊢
  omega

theorem prune_eq_filter (h : times.Pairwise (· ≤ ·)) :
    prune window now times = times.filter (counts window now) := by
  induction times with
  | nil => rfl
  | cons t rest ih =>
    obtain ⟨hhead, htail⟩ := List.pairwise_cons.mp h
    by_cases ht : counts window now t = true
    · -- The oldest time counts, so all others do and nothing is dropped.
      have hall : rest.filter (counts window now) = rest :=
        List.filter_eq_self.mpr fun u hu => counts_mono ht (hhead u hu)
      rw [prune, List.dropWhile_cons_of_neg (by simpa using ht), List.filter_cons_of_pos ht, hall]
    · have hdrop : prune window now (t :: rest) = prune window now rest :=
        List.dropWhile_cons_of_pos (by simpa using ht)
      rw [hdrop, ih htail, List.filter_cons_of_neg ht]

/-- What is left of a key after dropping is what counts. -/
theorem length_prune (h : (l.recorded key).Pairwise (· ≤ ·)) :
    (prune l.window now (l.recorded key)).length = l.inWindow key now := by
  rw [prune_eq_filter h, inWindow]

/-! ### One call -/

@[simp] theorem ceiling_enter (time : Instant) :
    (l.enter key ceiling time).2.ceiling k = l.ceiling k := by
  rw [enter]
  split <;> rfl

@[simp] theorem window_enter (time : Instant) :
    (l.enter key ceiling time).2.window = l.window := by
  rw [enter]
  split <;> rfl

theorem recorded_enter_ne (time : Instant) (h : k ≠ key) :
    (l.enter key ceiling time).2.recorded k = l.recorded k := by
  simp only [enter]
  split <;> simp [recorded, KeyMap.get?_insert, h]

/-- A call is admitted exactly if fewer than the ceiling remain. -/
theorem enter_fst (time : Instant) : (l.enter key ceiling time).1 =
    decide ((prune l.window time (l.recorded key)).length < ceiling) := by
  simp only [enter]
  split <;> simp <;> omega

theorem recorded_enter_self (time : Instant) : (l.enter key ceiling time).2.recorded key =
    prune l.window time (l.recorded key) ++
      if (l.enter key ceiling time).1 then [time] else [] := by
  simp only [enter]
  split <;> simp [recorded, KeyMap.get?_insert]

theorem ceiling_setCeiling (n : Nat) :
    (l.setCeiling key n).ceiling k = if k = key then n else l.ceiling k := by
  simp only [Limiter.ceiling, setCeiling, KeyMap.get?_insert]
  split <;> rfl

@[simp] theorem recorded_setCeiling (n : Nat) :
    (l.setCeiling key n).recorded k = l.recorded k := rfl

@[simp] theorem window_setCeiling (n : Nat) : (l.setCeiling key n).window = l.window := rfl

end Uplink.Limiter

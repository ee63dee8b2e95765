import Mathlib.Data.List.TakeWhile
import Mathlib.Data.Nat.Find
import Mathlib.Order.Bounds.Basic
import Uplink.Call
import Uplink.Proofs.Limiter.Window

/-! The protocol of a call. A call attempts until an outcome ends it, waits before each attempt but
the first for the delay of that attempt's number, and returns the last outcome. It asks the limiter
once, and a denial leaves nothing behind. -/

namespace Uplink

/-- A denied call changes no count: what it drops from the front has left the window for good. -/
theorem Limiter.inWindow_of_denied {l : Limiter} {key k : String} {now t : Instant}
    (hdenied : (l.allow key now).1 = false) (ht : now ≤ t) :
    (l.allow key now).2.inWindow k t = l.inWindow k t := by
  have hwindow : (l.allow key now).2.window = l.window := window_enter now
  rw [inWindow, inWindow, hwindow]
  by_cases hk : k = key
  · subst hk
    have hrecorded : (l.allow k now).2.recorded k = prune l.window now (l.recorded k) := by
      rw [allow] at hdenied ⊢
      rw [recorded_enter_self, hdenied, if_neg Bool.false_ne_true, List.append_nil]
    rw [hrecorded, prune]
    have hdropped : ((l.recorded k).takeWhile fun u => !counts l.window now u).filter
        (counts l.window t) = [] := by
      refine List.filter_eq_nil_iff.mpr fun u hu => ?_
      have hpast : counts l.window now u = false := by simpa using List.mem_takeWhile_imp hu
      rw [counts_later hpast ht]
      exact Bool.false_ne_true
    conv_rhs => rw [← List.takeWhile_append_dropWhile (p := fun u => !counts l.window now u)
      (l := l.recorded k), List.filter_append, hdropped, List.nil_append]
  · rw [allow, recorded_enter_ne now hk]

namespace Call

variable {α σ : Type}

/-- Whether the outcome of an attempt ends a call that may be retried `m` times: it is a success, or
an error not worth another attempt, or that of the last attempt there may be. -/
def Ends (m : Nat) (outcome : Nat → Except Error α) (k : Nat) : Prop :=
  (∃ a, outcome k = .ok a) ∨ (∃ e, outcome k = .error e ∧ e.isRetryable = false) ∨ k = m

/-- What a call does to the world. -/
inductive Deed (α : Type) where
  | attempted (outcome : Except Error α)
  | waited (attempt : Nat) (delay : Duration)

/-- An attempt that is written down. -/
def noteAttempt (attempt : σ → Except Error α × σ) (s : σ × List (Deed α)) :
    Except Error α × σ × List (Deed α) :=
  ((attempt s.1).1, (attempt s.1).2, s.2 ++ [.attempted (attempt s.1).1])

/-- A wait that is written down. -/
def noteWait (wait : UInt32 → Duration → σ → σ) (n : UInt32) (delay : Duration)
    (s : σ × List (Deed α)) : σ × List (Deed α) :=
  (wait n delay s.1, s.2 ++ [.waited n.toNat delay])

/-- The world before an attempt, if no outcome before has ended the call. -/
def worldBefore (policy : RetryPolicy) (attempt : σ → Except Error α × σ)
    (wait : UInt32 → Duration → σ → σ) (s : σ) : Nat → σ
  | 0 => s
  | n + 1 => wait (.ofNat (n + 1)) (policy.delay (.ofNat (n + 1)))
      (attempt (worldBefore policy attempt wait s n)).2

/-- The outcome of an attempt, if no outcome before has ended the call. -/
def outcome (policy : RetryPolicy) (attempt : σ → Except Error α × σ)
    (wait : UInt32 → Duration → σ → σ) (s : σ) (n : Nat) : Except Error α :=
  (attempt (worldBefore policy attempt wait s n)).1

/-- What a call does whose attempt of number `k` is its last. -/
def deeds (policy : RetryPolicy) (outcome : Nat → Except Error α) : Nat → List (Deed α)
  | 0 => [.attempted (outcome 0)]
  | k + 1 => deeds policy outcome k ++
      [.waited (k + 1) (policy.delay (.ofNat (k + 1))), .attempted (outcome (k + 1))]

variable {policy : RetryPolicy} {limit : UInt32} {attempt : σ → Except Error α × σ}
  {wait : UInt32 → Duration → σ → σ} {s : σ} {m n k : Nat}

theorem exists_ends (outcome : Nat → Except Error α) (m : Nat) :
    ∃ k, IsLeast {i | Ends m outcome i} k ∧ k ≤ m := by
  classical
  have hends : ∃ i, Ends m outcome i := ⟨m, .inr (.inr rfl)⟩
  refine ⟨Nat.find hends, ⟨Nat.find_spec hends, fun i hi => Nat.find_min' hends hi⟩, ?_⟩
  exact Nat.find_min' hends (.inr (.inr rfl))

theorem toNat_ofNat_of_le (h : n ≤ limit.toNat) : (UInt32.ofNat n).toNat = n := by
  rw [UInt32.toNat_ofNat']
  exact Nat.mod_eq_of_lt (Nat.lt_of_le_of_lt h limit.toNat_lt)

/-- An outcome that does not end the call is an error worth another attempt, and one is left. -/
theorem not_ends_iff {o : Nat → Except Error α} :
    ¬Ends m o n ↔ ∃ e, o n = .error e ∧ e.isRetryable = true ∧ n ≠ m := by
  constructor
  · intro h
    simp only [Ends, not_or] at h
    obtain ⟨hok, herror, hm⟩ := h
    cases ho : o n with
    | ok a => exact absurd ⟨a, ho⟩ hok
    | error e =>
      refine ⟨e, rfl, ?_, hm⟩
      rw [← Bool.not_eq_false]
      exact fun he => herror ⟨e, ho, he⟩
  · rintro ⟨e, he, hretry, hne⟩ (⟨a, ha⟩ | ⟨e', he', hfinal⟩ | hm)
    · rw [he] at ha
      cases ha
    · rw [he] at he'
      cases he'
      rw [hretry] at hfinal
      cases hfinal
    · exact hne hm

theorem dropLast_deeds (o : Nat → Except Error α) (n : Nat) :
    (deeds policy o n).dropLast ++ [.attempted (o n)] = deeds policy o n := by
  cases n <;> simp [deeds]

/-- Attempts from the one of number `n` on go through to the first one whose outcome ends the
call. -/
theorem attempts_eq
    (hends : Ends limit.toNat (outcome policy attempt wait s) k) (hn : n ≤ k) (hk : k ≤ limit.toNat)
    (hbefore : ∀ i, n ≤ i → i < k → ¬Ends limit.toNat (outcome policy attempt wait s) i) :
    attempts policy limit attempt wait (.ofNat n) (worldBefore policy attempt wait s n) =
      attempt (worldBefore policy attempt wait s k) := by
  have hcounter := toNat_ofNat_of_le (Nat.le_trans hn hk)
  induction hd : k - n generalizing n with
  | zero =>
    obtain rfl : n = k := by omega
    -- The loop stops here, for whichever reason the outcome ends the call.
    have hstop : ∀ e, (attempt (worldBefore policy attempt wait s n)).1 = .error e →
        ¬(e.isRetryable = true ∧ UInt32.ofNat n < limit) := by
      intro e he hgo
      have hlt : n < limit.toNat := hcounter ▸ UInt32.lt_iff_toNat_lt.mp hgo.2
      rcases hends with ⟨a, ha⟩ | ⟨e', he', hretry⟩ | rfl
      · rw [outcome, he] at ha
        cases ha
      · rw [outcome, he] at he'
        cases he'
        rw [hretry] at hgo
        cases hgo.1
      · exact Nat.lt_irrefl _ hlt
    rw [attempts]
    split
    · next ha => exact ha.symm
    · next e t he =>
      rw [dif_neg (hstop e (congrArg Prod.fst he)), he]
  | succ d ih =>
    obtain ⟨e, he, hretry, hne⟩ := not_ends_iff.mp (hbefore n (Nat.le_refl n) (by omega))
    have hlt : UInt32.ofNat n < limit := by
      rw [UInt32.lt_iff_toNat_lt, hcounter]
      omega
    have hnext : UInt32.ofNat n + 1 = .ofNat (n + 1) := (UInt32.ofNat_add n 1).symm
    rw [attempts]
    split
    · next a t ha =>
      rw [outcome, ha] at he
      cases he
    · next e' t he' =>
      rw [outcome, he'] at he
      cases he
      rw [dif_pos ⟨hretry, hlt⟩, hnext]
      have hworld : wait (.ofNat (n + 1)) (policy.delay (.ofNat (n + 1))) t =
          worldBefore policy attempt wait s (n + 1) := by
        rw [worldBefore, he']
      rw [hworld]
      have hle : n + 1 ≤ k := by omega
      exact ih hle (fun i hi => hbefore i (by omega))
        (toNat_ofNat_of_le (Nat.le_trans hle hk)) (by omega)

/-- Writing down changes nothing in the world, and what is written down before an attempt is what
led to it. -/
theorem worldBefore_note (hn : n ≤ limit.toNat) :
    worldBefore policy (noteAttempt attempt) (noteWait wait) (s, []) n =
      (worldBefore policy attempt wait s n,
        (deeds policy (outcome policy attempt wait s) n).dropLast) := by
  induction n with
  | zero => rfl
  | succ n ih =>
    have hcounter := toNat_ofNat_of_le hn
    rw [worldBefore, ih (by omega), noteAttempt, noteWait, worldBefore]
    refine Prod.ext rfl ?_
    rw [deeds, List.dropLast_append_of_ne_nil (by simp), ← dropLast_deeds, hcounter]
    simp [outcome]

theorem outcome_note (hn : n ≤ limit.toNat) :
    outcome policy (noteAttempt attempt) (noteWait wait) (s, []) n =
      outcome policy attempt wait s n := by
  rw [outcome, worldBefore_note hn]
  rfl

theorem Ends.congr {o o' : Nat → Except Error α} (h : o n = o' n) : Ends m o n ↔ Ends m o' n := by
  rw [Ends, Ends, h]

theorem attempts_note
    (hleast : IsLeast {i | Ends limit.toNat (outcome policy attempt wait s) i} k)
    (hk : k ≤ limit.toNat) :
    attempts policy limit (noteAttempt attempt) (noteWait wait) 0 (s, []) =
      (outcome policy attempt wait s k, (attempt (worldBefore policy attempt wait s k)).2,
        deeds policy (outcome policy attempt wait s) k) := by
  have hends : ∀ i, i ≤ limit.toNat →
      (Ends limit.toNat (outcome policy (noteAttempt attempt) (noteWait wait) (s, [])) i ↔
        Ends limit.toNat (outcome policy attempt wait s) i) := fun i hi =>
    Ends.congr (outcome_note hi)
  have heq : attempts policy limit (noteAttempt attempt) (noteWait wait) 0 (s, []) =
      noteAttempt attempt (worldBefore policy (noteAttempt attempt) (noteWait wait) (s, []) k) :=
    attempts_eq ((hends k hk).mpr hleast.1) (Nat.zero_le k) hk fun i _ hi hi' =>
      Nat.not_lt.mpr (hleast.2 ((hends i (by omega)).mp hi')) hi
  rw [worldBefore_note hk] at heq
  exact heq.trans (Prod.ext rfl (Prod.ext rfl (dropLast_deeds _ k)))

/-- A call makes its attempts up to the first whose outcome ends it, waits before each of them but
the first for the delay of its number, and returns the last outcome as it is. The limiter is asked
once, if the request names a key; a denial ends the call before any attempt and leaves all counts as
they are. No number of an attempt is too large for its counter. -/
theorem execute_follows_protocol (policy : RetryPolicy) (r : Request)
    (attempt : σ → Except Error α × σ) (wait : UInt32 → Duration → σ → σ) (now : Instant)
    (l : Limiter) (s : σ) :
    ∃ k, IsLeast {i | Ends (if r.retry then policy.maxAttempts.toNat else 0)
        (outcome policy attempt wait s) i} k ∧
      (∀ i ≤ k, (UInt32.ofNat i).toNat = i) ∧
      execute policy r (noteAttempt attempt) (noteWait wait) now l (s, []) =
        (match r.rateLimitKey with
        | none => (outcome policy attempt wait s k, l,
            (attempt (worldBefore policy attempt wait s k)).2,
            deeds policy (outcome policy attempt wait s) k)
        | some key =>
          if (l.allow key now).1 then
            (outcome policy attempt wait s k, (l.allow key now).2,
              (attempt (worldBefore policy attempt wait s k)).2,
              deeds policy (outcome policy attempt wait s) k)
          else (.error (.rateLimited key), (l.allow key now).2, s, [])) ∧
      ∀ key other t, (l.allow key now).1 = false → now ≤ t →
        (l.allow key now).2.inWindow other t = l.inWindow other t := by
  have hlimit : (if r.retry then policy.maxAttempts.toNat else 0) = (limit policy r).toNat := by
    rw [limit]
    split <;> rfl
  rw [hlimit]
  obtain ⟨k, hleast, hk⟩ := exists_ends (outcome policy attempt wait s) (limit policy r).toNat
  refine ⟨k, hleast, fun i hi => toNat_ofNat_of_le (Nat.le_trans hi hk), ?_,
    fun _ _ _ hdenied ht => Limiter.inWindow_of_denied hdenied ht⟩
  have hattempts := attempts_note hleast hk
  cases hkey : r.rateLimitKey with
  | none => simp only [execute, hkey, hattempts]
  | some key =>
    simp only [execute, hkey]
    cases hallow : l.allow key now with
    | mk admitted after => cases admitted <;> simp [hattempts]

/-- A far end that fails twice, and then answers. -/
def failsTwice (n : Nat) : Except Error Unit × Nat :=
  (if n < 2 then .error (.network "http://host/" "closed") else .ok (), n + 1)

/-- A call that fails twice and then succeeds waits twice, and uses up one admission. -/
theorem protocol_of_two_failures :
    execute .default ((Request.ofMethod "GET" "http://host/").withRateLimitKey "gate")
      (noteAttempt failsTwice) (noteWait fun _ _ n => n) 0
      (.ofCeilings 1 (.ofMillis 1000) ∅) (0, []) =
        (.ok (), ((Limiter.ofCeilings 1 (.ofMillis 1000) ∅).allow "gate" 0).2, 3,
          [.attempted (.error (.network "http://host/" "closed")),
            .waited 1 (RetryPolicy.default.delay 1),
            .attempted (.error (.network "http://host/" "closed")),
            .waited 2 (RetryPolicy.default.delay 2), .attempted (.ok ())]) := by
  obtain ⟨k, ⟨hends, hleast⟩, -, heq, -⟩ := execute_follows_protocol .default
    ((Request.ofMethod "GET" "http://host/").withRateLimitKey "gate") failsTwice
    (fun _ _ n => n) 0 (.ofCeilings 1 (.ofMillis 1000) ∅) 0
  have hle : k ≤ 2 := hleast (.inl ⟨(), rfl⟩)
  obtain rfl : k = 2 := by
    rcases k with _ | _ | k
    · exact absurd hends (not_ends_iff.mpr ⟨_, rfl, rfl, by decide⟩)
    · exact absurd hends (not_ends_iff.mpr ⟨_, rfl, rfl, by decide⟩)
    · omega
  exact heq

end Call

end Uplink

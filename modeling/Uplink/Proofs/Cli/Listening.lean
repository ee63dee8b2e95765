import Mathlib.Data.Seq.Basic
import Uplink.Cli
import Uplink.Proofs.Variant.Line

/-! What a stream command prints. A count bounds the messages exactly, but it is looked at after a
message is printed, so that a count of zero acts as one: the first message is awaited and printed.
The messages come as a sequence that may end or not, and each is printed as a line of its own. -/

namespace Uplink.Cli

open Stream' (Seq)

section Sequence

variable {arrivals : Seq Variant} {v : Variant} {k n : Nat}

theorem length_take_of_get? (h : arrivals.get? k = some v) (hle : n ≤ k) :
    (arrivals.take n).length = n :=
  Seq.length_take_of_le_length fun _ =>
    Nat.le_trans hle (Nat.le_of_lt (Seq.lt_length_iff.mpr ⟨v, h⟩))

theorem take_succ_of_some (h : arrivals.get? k = some v) :
    arrivals.take (k + 1) = arrivals.take k ++ [v] := by
  refine List.ext_getElem? fun i => ?_
  rw [List.getElem?_append, length_take_of_get? h (Nat.le_refl k), Seq.getElem?_take,
    Seq.getElem?_take]
  rcases Nat.lt_trichotomy i k with hlt | rfl | hgt
  · rw [if_pos (by omega), if_pos hlt, if_pos hlt]
  · simp [h]
  · rw [if_neg (by omega), if_neg (by omega), List.getElem?_eq_none (by simp; omega)]

/-- Behind its end a sequence has nothing more. -/
theorem take_of_none (h : arrivals.get? k = none) (hle : k ≤ n) :
    arrivals.take n = arrivals.take k := by
  refine List.ext_getElem? fun i => ?_
  rw [Seq.getElem?_take, Seq.getElem?_take]
  by_cases hi : i < k
  · rw [if_pos hi, if_pos (Nat.lt_of_lt_of_le hi hle)]
  · rw [if_neg hi, arrivals.le_stable (Nat.not_lt.mp hi) h, ite_self]

end Sequence

namespace Listener

/-- The listener after it was given the first `k` messages of a sequence, or its end in place of
those that are missing. -/
def after (count : Option Nat) (arrivals : Seq Variant) : Nat → Listener
  | 0 => start
  | k + 1 => (after count arrivals k).receive count (arrivals.get? k)

/-- How many of `k` messages are printed: all of them, or as many as the count, of which zero counts
as one. -/
def bounded : Option Nat → Nat → Nat
  | none, k => k
  | some n, k => min (max n 1) k

variable {count : Option Nat} {arrivals : Seq Variant} {k : Nat} {l : Listener} {v : Variant}

/-- What a listener has done: it has printed the first of the messages, up to the count, and has
stopped once it has printed as many as the count, or was given the end. -/
structure Follows (count : Option Nat) (arrivals : Seq Variant) (k : Nat) (l : Listener) :
    Prop where
  printed : l.printed = arrivals.take (bounded count k)
  stopped : l.stopped = true ↔
    (∃ n, count = some n ∧ max n 1 ≤ l.printed.length) ∨ ∃ i < k, arrivals.get? i = none

theorem follows_start : Follows count arrivals 0 start where
  printed := by cases count <;> simp [bounded, start]
  stopped := by simp [start]

/-- A message is printed unless the count was reached before. -/
theorem Follows.message (h : Follows count arrivals k l) (hv : arrivals.get? k = some v) :
    Follows count arrivals (k + 1) (l.receive count (some v)) := by
  have hopen (m : Nat) (hm : m ≤ k + 1) : ¬∃ i < m, arrivals.get? i = none := by
    rintro ⟨i, hi, hnone⟩
    rw [arrivals.le_stable (by omega) hnone] at hv
    cases hv
  have hle : bounded count k ≤ k := by cases count <;> simp [bounded]
  have hlength : l.printed.length = bounded count k := by
    rw [h.printed, length_take_of_get? hv hle]
  have hstopped := h.stopped
  simp only [hopen k (Nat.le_succ k), or_false, hlength] at hstopped
  by_cases hdone : l.stopped = true
  · rw [receive, if_pos hdone]
    obtain ⟨n, rfl, hn⟩ := hstopped.mp hdone
    have hsame : bounded (some n) (k + 1) = bounded (some n) k := by
      simp only [bounded] at hn ⊢
      omega
    refine ⟨hsame ▸ h.printed, iff_of_true hdone (.inl ⟨n, rfl, ?_⟩)⟩
    rwa [hlength]
  · rw [receive, if_neg hdone]
    have hall : bounded count k = k ∧ bounded count (k + 1) = k + 1 := by
      cases count with
      | none => exact ⟨rfl, rfl⟩
      | some n =>
        have hlate : ¬max n 1 ≤ bounded (some n) k :=
          fun hle => hdone (hstopped.mpr ⟨n, rfl, hle⟩)
        simp only [bounded] at hlate ⊢
        omega
    refine ⟨?_, ?_⟩
    · rw [h.printed, hall.1, hall.2, take_succ_of_some hv]
    · simp only [hopen (k + 1) (Nat.le_refl _), or_false, List.length_append, List.length_singleton,
        hlength, hall.1, Option.any_eq_true, decide_eq_true_eq]
      constructor
      · rintro ⟨n, rfl, hn⟩
        exact ⟨n, rfl, by omega⟩
      · rintro ⟨n, rfl, hn⟩
        exact ⟨n, rfl, by omega⟩

/-- The end adds nothing. -/
theorem Follows.ended (h : Follows count arrivals k l) (hnone : arrivals.get? k = none) :
    Follows count arrivals (k + 1) (l.receive count none) where
  printed := by
    have hsame : bounded count (k + 1) = bounded count k ∨ bounded count k = k := by
      cases count with
      | none => exact .inr rfl
      | some n => simp only [bounded]; omega
    have hle : bounded count k ≤ bounded count (k + 1) := by
      cases count <;> simp only [bounded] <;> omega
    rcases hsame with hsame | hsame
    · rw [hsame]
      exact h.printed
    · rw [take_of_none hnone (hsame.symm.trans_le hle)]
      exact h.printed.trans (congrArg (Seq.take · arrivals) hsame)
  stopped := iff_of_true rfl (.inr ⟨k, Nat.lt_succ_self k, hnone⟩)

theorem follows_after (count : Option Nat) (arrivals : Seq Variant) (k : Nat) :
    Follows count arrivals k (after count arrivals k) := by
  induction k with
  | zero => exact follows_start
  | succ k ih =>
    rw [after]
    cases h : arrivals.get? k with
    | none => exact ih.ended h
    | some v => exact ih.message h

/-- Messages that come in a list are a sequence that ends. -/
theorem listen_eq (count : Option Nat) (messages : List Variant) :
    listen count messages = after count (Seq.ofList messages) (messages.length + 1) := by
  have hgiven (given : List (Option Variant))
      (h : ∀ i < given.length, given[i]? = some ((Seq.ofList messages).get? i)) :
      given.foldl (receive count) start = after count (Seq.ofList messages) given.length := by
    induction given using List.reverseRecOn with
    | nil => rfl
    | append_singleton given a ih =>
      have ha := h given.length (by simp)
      rw [List.getElem?_concat_length, Option.some.injEq] at ha
      rw [List.foldl_append, ih, List.length_append]
      · simp [after, ha]
      · intro i hi
        have := h i (by simp; omega)
        rwa [List.getElem?_append_left hi] at this
  rw [listen, hgiven _ (fun i hi => ?_)]
  · simp
  · rw [Seq.ofList_get?, List.getElem?_append]
    simp only [List.length_append, List.length_map, List.length_singleton] at hi ⊢
    split
    · next hlt => simp [hlt]
    · next hge =>
      have hi : i = messages.length := by omega
      simp [hi]

theorem printed_listen (count : Option Nat) (messages : List Variant) :
    (listen count messages).printed = messages.take (bounded count messages.length) := by
  have hlength : bounded count messages.length ≤ messages.length := by
    cases count <;> simp [bounded]
  have hlist (n : Nat) : (Seq.ofList messages).take n = messages.take n := by
    refine List.ext_getElem? fun i => ?_
    rw [Seq.getElem?_take, Seq.ofList_get?, List.getElem?_take]
  rw [listen_eq, (follows_after _ _ _).printed, hlist]
  cases count with
  | none => simp [bounded]
  | some n =>
    simp only [bounded]
    rcases Nat.le_total (max n 1) messages.length with hle | hle
    · rw [Nat.min_eq_left hle, Nat.min_eq_left (Nat.le_succ_of_le hle)]
    · rw [Nat.min_eq_right hle, List.take_length, List.take_of_length_le (by omega)]

end Listener

/-- What a stream command prints, and when it stops waiting. Whether it prints at all is a matter of
the stream: it must open, and the messages that are given must be sent. Then the lines are the texts
of the first messages, in order: as many as come before the subscription ends, and no more than the
count, of which zero counts as one. Each is a JSON value without controls. Of a sequence of messages
that may be endless, the listener has printed, at every time, the first of those that it was given,
up to the count; and it waits for one more until it has printed as many as the count or has met the
end. -/
theorem prints_up_to_count (s : Surroundings) (m : Manager) (l : Listen) :
    runListen s m l =
        (runListen { s with arrivals := [] } m { l with count := none }).map (fun _ =>
          (s.arrivals.take (Listener.bounded l.count s.arrivals.length)).map Variant.text) ∧
      (∀ v : Variant, Json.Grammar.Value v.depth v.text.toList v.document ∧
        ∀ c ∈ v.text.toList, 0x20 ≤ c.toNat) ∧
      ∀ (arrivals : Seq Variant) (k : Nat),
        Listener.Follows l.count arrivals k (Listener.after l.count arrivals k) := by
  refine ⟨?_, fun v => ?_, fun arrivals k => Listener.follows_after l.count arrivals k⟩
  · rw [← Listener.printed_listen]
    have hrequire : ∀ m address call, require { s with arrivals := [] } m address call =
        require s m address call := fun _ _ _ => rfl
    simp only [runListen, hrequire]
    cases require s m l.address (.connect l.address m.streamDefaults) with
    | error e => rfl
    | ok m₁ =>
      dsimp only [bind, Except.bind]
      cases require s m₁ l.address (.subscribe l.address l.topic) with
      | error e => rfl
      | ok m₂ =>
        dsimp only
        generalize List.foldlM (fun m text => require s m l.address (.send l.address (.text text)))
          m₂ l.sends = sent
        cases sent <;> rfl
  · rw [Variant.text, String.toList_ofList]
    exact ⟨Variant.value_chars v v.depth (Nat.le_refl _), fun _ => Variant.le_of_mem_chars⟩

/-- Surroundings without files, in which a stream opens and brings two messages. -/
def attended : Surroundings where
  file := fun _ => .missing
  environment := ∅
  network := fun _ => .ok ()
  send := fun _ => .response 200 []
  arrivals := [.null, .bool true]

def untouched : Manager := ⟨RetrySettings.policy {}, RateLimitSettings.limiter {}, {}, .empty 0⟩

/-- With a count of one the second message is not printed, and no third one is waited for. -/
theorem prints_up_to_count_one :
    runListen attended untouched { address := "ws://host", count := some 1 } = .ok ["null"] ∧
      (∀ c ∈ (Variant.bool true).text.toList, 0x20 ≤ c.toNat) ∧
      Listener.Follows (some 1) (Seq.ofList [.null, .bool true]) 1
        (Listener.after (some 1) (Seq.ofList [.null, .bool true]) 1) := by
  have h := prints_up_to_count attended untouched { address := "ws://host", count := some 1 }
  refine ⟨h.1.trans ?_, (h.2.1 _).2, h.2.2 _ _⟩
  decide +kernel

/-- A count of zero does not keep the first message from being printed. -/
theorem prints_one_for_count_zero :
    (run attended ["stream", "ws://host", "-n", "0"]).status = 0 ∧
      (run attended ["stream", "ws://host", "-n", "0"]).lines = ["null"] ∧
      (run attended ["stream", "ws://host", "-n", "0"]).lines ≠
        (attended.arrivals.take (min 0 attended.arrivals.length)).map Variant.text := by
  decide +kernel

end Uplink.Cli

import Mathlib.Data.List.Basic
import Mathlib.Tactic.Ring
import Uplink.Binary64.Shortest
import Uplink.Json.Number

/-! The decimal digits of natural numbers: as they are written, as they are read, and what is left
of a number when zeros are cut off its end. -/

namespace Uplink.Binary64

variable {n k : Nat}

/-- The decimal digits of a number, the first digit first. -/
def digits (n : Nat) : List Nat := (Nat.toDigits 10 n).map fun c => c.toNat - 48

theorem digits_of_lt (h : n < 10) : digits n = [n] := by
  rw [digits, Nat.toDigits_of_lt_base h, List.map_singleton, Nat.toNat_digitChar_sub_48_of_lt_ten h]

theorem digits_of_le (h : 10 ≤ n) : digits n = digits (n / 10) ++ [n % 10] := by
  rw [digits, Nat.toDigits_of_base_le (by decide) h, List.map_append, List.map_singleton,
    Nat.toNat_digitChar_sub_48_of_lt_ten (Nat.mod_lt n (by decide)), digits]

/-- Digits one by one: those in front, then the last. -/
theorem digits_induction {motive : Nat → Prop} (one : ∀ n < 10, motive n)
    (more : ∀ n, 10 ≤ n → motive (n / 10) → motive n) (n : Nat) : motive n := by
  induction n using Nat.strongRecOn with
  | ind n ih =>
    rcases Nat.lt_or_ge n 10 with h | h
    · exact one n h
    · exact more n h (ih (n / 10) (by omega))

theorem digits_map_digitChar (n : Nat) : (digits n).map Nat.digitChar = Nat.toDigits 10 n := by
  induction n using digits_induction with
  | one n h => rw [digits_of_lt h, Nat.toDigits_of_lt_base h, List.map_singleton]
  | more n h ih =>
    rw [digits_of_le h, Nat.toDigits_of_base_le (by decide) h, List.map_append, ih,
      List.map_singleton]

theorem digits_lt (n : Nat) : ∀ d ∈ digits n, d < 10 := by
  induction n using digits_induction with
  | one n h => simp [digits_of_lt h, h]
  | more n h ih =>
    intro d hd
    rw [digits_of_le h, List.mem_append, List.mem_singleton] at hd
    rcases hd with hd | rfl
    · exact ih d hd
    · exact Nat.mod_lt n (by decide)

theorem digits_ne_nil (n : Nat) : digits n ≠ [] := by simp [digits]

/-- A positive number starts with no zero. -/
theorem digits_head (h : 0 < n) : (digits n).head? ≠ some 0 := by
  induction n using digits_induction with
  | one n hlt =>
    rw [digits_of_lt hlt]
    simpa using Nat.ne_of_gt h
  | more n hge ih =>
    rw [digits_of_le hge, List.head?_append_of_ne_nil _ (digits_ne_nil _)]
    exact ih (by omega)

/-- Digits read on from a number are added behind it. -/
theorem foldl_digits (ds : List Nat) (n : Nat) :
    ds.foldl (fun n d => 10 * n + d) n = n * 10 ^ ds.length + Json.ofDigits ds := by
  induction ds generalizing n with
  | nil => simp [Json.ofDigits]
  | cons d ds ih =>
    rw [Json.ofDigits, List.foldl_cons, List.foldl_cons, ih, ih (10 * 0 + d), List.length_cons,
      Nat.pow_succ]
    ring

theorem ofDigits_append (ds es : List Nat) :
    Json.ofDigits (ds ++ es) = Json.ofDigits ds * 10 ^ es.length + Json.ofDigits es := by
  rw [Json.ofDigits, List.foldl_append, foldl_digits]
  rfl

theorem ofDigits_lt {ds : List Nat} (h : ∀ d ∈ ds, d < 10) : Json.ofDigits ds < 10 ^ ds.length := by
  induction ds with
  | nil => exact Nat.one_pos
  | cons d ds ih =>
    have hd : d < 10 := h d List.mem_cons_self
    have hds := ih fun d hd => h d (List.mem_cons_of_mem _ hd)
    have hsplit : Json.ofDigits (d :: ds) = d * 10 ^ ds.length + Json.ofDigits ds := by
      rw [Json.ofDigits, List.foldl_cons, foldl_digits]
      simp
    calc Json.ofDigits (d :: ds) < (d + 1) * 10 ^ ds.length := by
          rw [hsplit, Nat.succ_mul]
          exact Nat.add_lt_add_left hds _
      _ ≤ 10 * 10 ^ ds.length := Nat.mul_le_mul_right _ hd
      _ = 10 ^ (d :: ds).length := by rw [List.length_cons, Nat.pow_succ, Nat.mul_comm]

theorem ofDigits_replicate_zero (k : Nat) : Json.ofDigits (List.replicate k 0) = 0 := by
  induction k with
  | zero => rfl
  | succ k ih => rw [List.replicate_succ', ofDigits_append, ih]; rfl

theorem ofDigits_digits (n : Nat) : Json.ofDigits (digits n) = n := by
  induction n using digits_induction with
  | one n h => rw [digits_of_lt h]; simp [Json.ofDigits]
  | more n h ih =>
    rw [digits_of_le h, ofDigits_append, ih]
    simp [Json.ofDigits]
    omega

/-- A number without a zero in front is at least the power of ten of its first place. -/
theorem pow_le_ofDigits {ds : List Nat} (hne : ds ≠ []) (hhead : ds.head? ≠ some 0) :
    10 ^ (ds.length - 1) ≤ Json.ofDigits ds := by
  obtain ⟨d, ds, rfl⟩ := List.exists_cons_of_ne_nil hne
  have hd : 1 ≤ d := Nat.pos_of_ne_zero fun h => hhead (by rw [h]; rfl)
  have hsplit : Json.ofDigits (d :: ds) = Json.ofDigits [d] * 10 ^ ds.length + Json.ofDigits ds :=
    ofDigits_append [d] ds
  have hone : Json.ofDigits [d] = d := by simp [Json.ofDigits]
  rw [hsplit, hone, List.length_cons, Nat.add_sub_cancel]
  exact Nat.le_trans (Nat.le_mul_of_pos_left _ hd) (Nat.le_add_right _ _)

/-- The zeros that are trimmed stand for the power of ten that goes with them. -/
theorem trimZeros_mul (fuel n : Nat) :
    (trimZeros fuel n).1 * 10 ^ (trimZeros fuel n).2 = n := by
  induction fuel generalizing n with
  | zero => simp [trimZeros]
  | succ fuel ih =>
    rw [trimZeros]
    split
    · next h =>
      simp only
      rw [Nat.pow_succ, ← Nat.mul_assoc, ih, Nat.div_mul_cancel (Nat.dvd_of_mod_eq_zero h.2)]
    · simp

end Uplink.Binary64

import Mathlib.Algebra.Order.Field.Power
import Mathlib.Tactic.FieldSimp
import Mathlib.Tactic.NormNum
import Mathlib.Tactic.Positivity
import Uplink.Proofs.Binary64.Digits
import Uplink.Proofs.Binary64.Finite
import Uplink.Proofs.Binary64.Scaling
import Uplink.Proofs.Json.NumberText

/-! Which number texts have a value: those that do not exceed `scalable`. Digits that do not fit
into the significand are dropped, which makes the number smaller, but by less than one part in
`2^60`. -/

namespace Uplink.Json

open Binary64 (scalable one)

theorem isFinite_div_powerOfTen {x : Binary64} {k : Nat} (hx : x.isFinite = true) (hk : k ≤ 308) :
    (x / powerOfTen k).isFinite = true := by
  refine Binary64.isFinite_div hx (Nat.pow_pos (by decide)) ?_
  refine Nat.le_trans (Nat.mul_le_mul_right _ ?_) Binary64.scalable_bounds.1
  exact Nat.pow_le_pow_right (by decide) hk

/-- Scaling down always ends in a finite number. -/
theorem scale?_of_neg {x : Binary64} {e : Int} (hx : x.isFinite = true) (he : e < 0) :
    ∃ y, scale? x e = some y ∧ y.isFinite = true := by
  obtain ⟨k, hk⟩ : ∃ k : Nat, (-e).toNat ≤ k := ⟨_, Nat.le_refl _⟩
  induction k generalizing x e with
  | zero => omega
  | succ k ih =>
    rw [scale?, if_neg (by omega)]
    split
    · exact ⟨_, rfl, isFinite_div_powerOfTen hx (by omega)⟩
    · split
      · exact ⟨x, rfl, hx⟩
      · exact ih (isFinite_div_powerOfTen hx (Nat.le_refl _)) (by omega) (by omega)

theorem isFinite_ofNat {n : Nat} (hn : n < 2 ^ 64) : (Binary64.ofNat n).isFinite = true := by
  obtain ⟨u, _, hu, -⟩ := Binary64.ofNat_eq_finite
    (Nat.le_trans (Nat.mul_le_mul_right _ (Nat.le_of_lt hn)) Binary64.significand_le_scalable)
  rw [hu]
  rfl

theorem Number.isFinite_toBinary64 (n : Number) : n.toBinary64.isFinite = true := by
  cases n with
  | real x hx => exact hx
  | integer i hi =>
    have hlt : i.natAbs < 2 ^ 64 := by omega
    obtain ⟨onGrid, -⟩ := Binary64.ofQuotient_of_isFinite (isFinite_ofNat hlt)
    rw [toBinary64, Binary64.ofInt, Binary64.ofQuotient, dif_pos onGrid.1]
    rfl

/-- A significand of 64 bits scales to a finite number, unless it becomes too large. -/
theorem scale?_ofNat {n : Nat} {e : Int} (hn : n < 2 ^ 64)
    (h : (n : ℚ) * 10 ^ e * one ≤ scalable) :
    ∃ y, scale? (.ofNat n) e = some y ∧ y.isFinite = true := by
  have hsmall : n * one ≤ scalable :=
    Nat.le_trans (Nat.mul_le_mul_right _ (Nat.le_of_lt hn)) Binary64.significand_le_scalable
  have hfinite := isFinite_ofNat hn
  rcases Int.lt_or_le e 0 with he | he
  · exact scale?_of_neg hfinite he
  obtain ⟨k, rfl⟩ := Int.eq_ofNat_of_zero_le he
  have hproduct : n * 10 ^ k * one ≤ scalable := by
    rw [zpow_natCast] at h
    exact_mod_cast h
  rw [scale?, if_pos he]
  split
  · next hk =>
    have hpower : 10 ^ k * one ≤ scalable := by
      refine Nat.le_trans (Nat.mul_le_mul_right _ ?_) Binary64.scalable_bounds.1
      exact Nat.pow_le_pow_right (by decide) (by omega)
    have hmul : (Binary64.ofNat n * powerOfTen k).isFinite = true :=
      Binary64.isFinite_mul hsmall hpower hproduct
    simp only [Int.toNat_natCast, hmul, if_true]
    exact ⟨_, rfl, hmul⟩
  · next hk =>
    have hzero : n = 0 := by
      by_contra hne
      have hpow : 10 ^ 309 ≤ 10 ^ k := Nat.pow_le_pow_right (by decide) (by omega)
      have hle := Nat.mul_le_mul_right one
        (Nat.le_trans hpow (Nat.le_mul_of_pos_left _ (Nat.pos_of_ne_zero hne)))
      exact absurd (Nat.le_trans hle hproduct) (Nat.not_le.mpr Binary64.scalable_bounds.2)
    have hisZero : (Binary64.ofNat n).isZero = true := by
      rw [hzero, Binary64.ofNat_of_le (Nat.zero_le _)]
      exact beq_iff_eq.mpr (Nat.zero_mul _)
    rw [if_pos hisZero]
    exact ⟨_, rfl, hfinite⟩

/-! ### The significand -/

/-- Digits of value `v` are gathered to `n * 10^w`: digits are left out only where they no longer
fit, behind nineteen others. -/
structure Gathered (n w v : Nat) : Prop where
  fits : n < 2 ^ 64
  le : n * 10 ^ w ≤ v
  lt : v < (n + 1) * 10 ^ w
  full : 0 < w → 2 ^ 60 ≤ n ∧ 2 ^ 64 * 10 ^ (w - 1) ≤ v

theorem gathered_zero : Gathered 0 0 0 := ⟨by decide, by decide, by decide, nofun⟩

namespace Gathered

variable {n w v d : Nat}

theorem eq_of_zero (h : Gathered n 0 v) : n = v := by
  have hle := h.le
  have hlt := h.lt
  omega

theorem take (h : Gathered n 0 v) (hn : n * 10 + d < 2 ^ 64) :
    Gathered (n * 10 + d) 0 (10 * v + d) := by
  obtain rfl := h.eq_of_zero
  exact ⟨hn, by omega, by omega, fun h => absurd h (Nat.lt_irrefl 0)⟩

theorem skip (h : Gathered n w v) (hd : d < 10) (hn : ¬(w = 0 ∧ n * 10 + d < 2 ^ 64)) :
    Gathered n (w + 1) (10 * v + d) := by
  have hle := h.le
  have hlt := h.lt
  have hfull := h.full
  refine ⟨h.fits, ?_, ?_, fun _ => ?_⟩
  · rw [Nat.pow_succ, ← Nat.mul_assoc]
    omega
  · rw [Nat.pow_succ, ← Nat.mul_assoc]
    omega
  · rw [Nat.add_sub_cancel]
    rcases Nat.eq_zero_or_pos w with rfl | hw
    · omega
    · obtain ⟨hlarge, hover⟩ := hfull hw
      have hpow : 10 ^ w = 10 * 10 ^ (w - 1) := by
        rw [← Nat.pow_succ', Nat.succ_eq_add_one, Nat.sub_add_cancel hw]
      rw [hpow, Nat.mul_left_comm]
      omega

theorem whole (ds : List Nat) (hds : ∀ d ∈ ds, d < 10) (h : Gathered n w v) :
    ∃ n' w', Scaled.whole ⟨n, w⟩ ds = ⟨n', (w' : Nat)⟩ ∧
      Gathered n' w' (ds.foldl (fun n d => 10 * n + d) v) := by
  induction ds generalizing n w v with
  | nil => exact ⟨n, w, rfl, h⟩
  | cons d ds ih =>
    obtain ⟨hd, hds⟩ := List.forall_mem_cons.mp hds
    rw [Scaled.whole]
    simp only
    split
    · next hn =>
      obtain rfl : w = 0 := Int.ofNat_eq_zero.mp hn.1
      exact ih hds (h.take hn.2)
    · next hn => exact ih hds (h.skip hd (by simpa using hn))

end Gathered

/-- Nothing is added to a significand that is full. -/
theorem Scaled.fraction_of_full (s : Scaled) (h : 2 ^ 64 ≤ s.significand * 10) (ds : List Nat) :
    s.fraction ds = s := by
  cases ds with
  | nil => rfl
  | cons d ds =>
    exact if_neg (by omega)

theorem Scaled.fraction_of_lt {n : Nat} {e : Int} {ds : List Nat}
    (h : ds.foldl (fun n d => 10 * n + d) n < 2 ^ 64) :
    Scaled.fraction ⟨n, e⟩ ds = ⟨ds.foldl (fun n d => 10 * n + d) n, e - ds.length⟩ := by
  induction ds generalizing n e with
  | nil => simp [Scaled.fraction]
  | cons d ds ih =>
    rw [List.foldl_cons] at h
    have hn : n * 10 + d < 2 ^ 64 := by
      rw [Binary64.foldl_digits] at h
      have hpow : 0 < 10 ^ ds.length := Nat.pow_pos (by decide)
      have := Nat.le_mul_of_pos_right (10 * n + d) hpow
      omega
    rw [Scaled.fraction]
    refine (if_pos hn).trans ?_
    have hlast : e - 1 - ds.length = e - (d :: ds).length := by
      rw [List.length_cons]
      omega
    simp only
    rw [Nat.mul_comm n, ih h, List.foldl_cons, hlast]

/-- A value is that of a significand and of less than one part in `2^60` that is dropped. -/
def Scaled.Near (s : Scaled) (v : ℚ) : Prop :=
  s.significand < 2 ^ 64 ∧ s.significand * 10 ^ s.exponent ≤ v ∧
    (v - s.significand * 10 ^ s.exponent) * 2 ^ 60 ≤ v

/-- What lies above a large significand by less than one in its last place is near it. -/
theorem Scaled.near_of_lt {s : Scaled} {v : ℚ} {n : Nat} {w : Int} (hfits : s.significand < 2 ^ 64)
    (hle : s.significand * 10 ^ s.exponent ≤ v) (hn : 2 ^ 60 ≤ n)
    (hlow : (n : ℚ) * 10 ^ w ≤ s.significand * 10 ^ s.exponent) (hlt : v < (n + 1) * 10 ^ w) :
    s.Near v := by
  refine ⟨hfits, hle, ?_⟩
  have hn : (2 ^ 60 : ℚ) ≤ n := by exact_mod_cast hn
  have hpow : (0 : ℚ) ≤ 10 ^ w := by positivity
  have hlast := mul_le_mul_of_nonneg_right hn hpow
  linarith

theorem zpow_split (e : Int) (k : Nat) : (10 : ℚ) ^ e = 10 ^ k * 10 ^ (e - k) := by
  rw [← zpow_natCast, ← zpow_add₀ (by norm_num)]
  congr 1
  omega

/-- The value of digits behind a number, between it and the next. -/
theorem foldl_bounds {ds : List Nat} (hds : ∀ d ∈ ds, d < 10) (n : Nat) (e : Int) :
    (n : ℚ) * 10 ^ e ≤ (ds.foldl (fun n d => 10 * n + d) n : Nat) * 10 ^ (e - ds.length) ∧
      ((ds.foldl (fun n d => 10 * n + d) n : Nat) : ℚ) * 10 ^ (e - ds.length) <
        (n + 1) * 10 ^ e := by
  have hrest : (ofDigits ds : ℚ) < 10 ^ ds.length := by exact_mod_cast Binary64.ofDigits_lt hds
  have hrest0 : (0 : ℚ) ≤ ofDigits ds := Nat.cast_nonneg _
  have hpow : (0 : ℚ) < 10 ^ (e - ds.length) := by positivity
  rw [Binary64.foldl_digits, zpow_split e ds.length, ← mul_assoc, ← mul_assoc]
  push_cast
  constructor
  · refine mul_le_mul_of_nonneg_right ?_ hpow.le
    linarith
  · refine mul_lt_mul_of_pos_right ?_ hpow
    linarith

/-- The digits after the point are gathered, as long as those before it all fit. -/
theorem Scaled.fraction_near (s : Scaled) (hs : s.significand < 2 ^ 64) {ds : List Nat}
    (hds : ∀ d ∈ ds, d < 10) : (s.fraction ds).Near
      ((ds.foldl (fun n d => 10 * n + d) s.significand : Nat) * 10 ^ (s.exponent - ds.length)) := by
  induction ds generalizing s with
  | nil =>
    refine ⟨hs, by simp [Scaled.fraction], ?_⟩
    simp only [Scaled.fraction, List.foldl_nil, List.length_nil, Nat.cast_zero, sub_zero, sub_self,
      zero_mul]
    positivity
  | cons d ds ih =>
    obtain ⟨hd, htail⟩ := List.forall_mem_cons.mp hds
    obtain ⟨n, e⟩ := s
    rw [Scaled.fraction]
    simp only
    split
    · next hn =>
      have hlast : e - 1 - ds.length = e - (d :: ds).length := by
        rw [List.length_cons]
        omega
      rw [List.foldl_cons, Nat.mul_comm 10, ← hlast]
      exact ih ⟨n * 10 + d, e - 1⟩ hn htail
    · next hn =>
      obtain ⟨hle, hlt⟩ := foldl_bounds hds n e
      exact near_of_lt hs hle (n := n) (by omega) (le_refl _) hlt

/-- If some before it do not fit, at most one more digit is. -/
theorem Gathered.fraction_near {n w v : Nat} (h : Gathered n w v) {ds : List Nat}
    (hds : ∀ d ∈ ds, d < 10) : (Scaled.fraction ⟨n, w⟩ ds).Near
      ((ds.foldl (fun n d => 10 * n + d) v : Nat) * 10 ^ (-ds.length : Int)) := by
  cases w with
  | zero =>
    obtain rfl := h.eq_of_zero
    simpa using Scaled.fraction_near ⟨n, 0⟩ h.fits hds
  | succ w =>
    obtain ⟨hlarge, hover⟩ := h.full (Nat.succ_pos w)
    obtain ⟨hge, hnext⟩ := foldl_bounds hds v 0
    rw [zpow_zero, mul_one, zero_sub] at hge hnext
    have hle : (n : ℚ) * 10 ^ ((w + 1 : Nat) : Int) ≤ v := by
      rw [zpow_natCast]
      exact_mod_cast h.le
    have hlt : (v + 1 : ℚ) ≤ (n + 1) * 10 ^ ((w + 1 : Nat) : Int) := by
      rw [zpow_natCast]
      exact_mod_cast h.lt
    have hskip : Scaled.Near ⟨n, (w + 1 : Nat)⟩
        ((ds.foldl (fun n d => 10 * n + d) v : Nat) * 10 ^ (-ds.length : Int)) :=
      Scaled.near_of_lt h.fits (le_trans hle hge) hlarge (le_refl _) (lt_of_lt_of_le hnext hlt)
    cases ds with
    | nil => exact hskip
    | cons d ds =>
      rw [Scaled.fraction]
      simp only
      split
      · next hn =>
        have hexp : ((w + 1 : Nat) : Int) - 1 = w := by omega
        rw [Scaled.fraction_of_full _ (by simp only; omega)]
        have hlast : ((n * 10 + d : Nat) : ℚ) * 10 ^ (w : Int) ≤ v := by
          rw [zpow_natCast]
          exact_mod_cast Nat.le_trans (Nat.mul_le_mul_right _ (Nat.le_of_lt hn)) hover
        have hlow : (n : ℚ) * 10 ^ ((w + 1 : Nat) : Int) ≤ (n * 10 + d : Nat) * 10 ^ (w : Int) := by
          rw [zpow_natCast, zpow_natCast, pow_succ]
          have hd : (0 : ℚ) ≤ d * 10 ^ w := by positivity
          push_cast
          linarith
        refine Scaled.near_of_lt hn (le_trans ?_ hge) hlarge ?_ (lt_of_lt_of_le hnext hlt)
        · rwa [hexp]
        · rwa [hexp]
      · exact hskip

namespace NumberText

/-- The power of ten that the exponent stands for. -/
def power (t : NumberText) : Int :=
  match t.exponent with
  | none => 0
  | some (below, ds) => if below then -ofDigits ds else ofDigits ds

/-- The value of a number text in units, without its sign. -/
def units (t : NumberText) : ℚ :=
  ofDigits (t.whole ++ t.fraction) * 10 ^ (t.power - t.fraction.length) * one

/-- The digits of a number as the reader gathers them. -/
def scaled (t : NumberText) : Scaled := (Scaled.whole ⟨0, 0⟩ t.whole).fraction t.fraction

/-- Without a fraction and an exponent, a number of digits that all fit is an integer. -/
def IsInteger (t : NumberText) : Prop :=
  (Scaled.whole ⟨0, 0⟩ t.whole).exponent = 0 ∧ t.fraction = [] ∧ t.exponent = none

instance (t : NumberText) : Decidable t.IsInteger := inferInstanceAs (Decidable (_ ∧ _ ∧ _))

variable {t : NumberText}

theorem scaled_of_isInteger (h : t.IsInteger) : t.scaled = Scaled.whole ⟨0, 0⟩ t.whole := by
  rw [scaled, h.2.1]
  rfl

/-- The value of a number: a written exponent counts as long as it has 31 bits. -/
theorem value?_eq (t : NumberText) : t.value? =
    if t.IsInteger then Number.ofInteger? t.negative t.scaled.significand
    else if t.power.natAbs < 2 ^ 31 then
      (scale? (.ofNat t.scaled.significand) (t.scaled.exponent + t.power)).bind
        (Number.signed? t.negative)
    else if t.scaled.significand ≠ 0 ∧ 0 < t.power then none
    else Number.signed? t.negative .zero := by
  by_cases hint : t.IsInteger
  · rw [if_pos hint, scaled_of_isInteger hint, value?]
    exact if_pos hint
  rw [if_neg hint, value?]
  refine (if_neg hint).trans ?_
  rw [← scaled]
  generalize t.scaled = s
  obtain ⟨negative, whole, fraction, exponent⟩ := t
  rcases exponent with _ | ⟨_ | _, ds⟩
  · simp [power]
  all_goals
    simp only [power, Bool.false_eq_true, if_false, if_true, Int.natAbs_neg, Int.natAbs_natCast]
    by_cases hds : ofDigits ds < 0x80000000
    · rw [if_pos hds]
      exact (if_pos hds).symm
    · have hpositive : 0 < ofDigits ds := by omega
      rw [if_neg hds]
      refine Eq.trans ?_ (if_neg hds).symm
      simp [hpositive]

/-- Digits in front of the point whose number fits are all gathered. -/
theorem whole_of_lt (ht : t.WellFormed) (h : ofDigits t.whole < 2 ^ 64) :
    Scaled.whole ⟨0, 0⟩ t.whole = ⟨ofDigits t.whole, 0⟩ := by
  obtain ⟨n, w, hwhole, hgathered⟩ := gathered_zero.whole t.whole ht.whole_lt
  have hw : w = 0 := by
    by_contra hw
    obtain ⟨-, hover⟩ := hgathered.full (Nat.pos_of_ne_zero hw)
    have hpow : 0 < 10 ^ (w - 1) := Nat.pow_pos (by decide)
    exact absurd (Nat.le_trans (Nat.le_mul_of_pos_right _ hpow) hover) (Nat.not_le.mpr h)
  subst hw
  rw [hgathered.eq_of_zero] at hwhole
  exact hwhole

/-- Digits whose number fits are all gathered. -/
theorem scaled_of_lt (ht : t.WellFormed) (h : ofDigits (t.whole ++ t.fraction) < 2 ^ 64) :
    t.scaled = ⟨ofDigits (t.whole ++ t.fraction), -t.fraction.length⟩ := by
  have hwhole : ofDigits t.whole < 2 ^ 64 := by
    refine Nat.lt_of_le_of_lt ?_ h
    rw [Binary64.ofDigits_append]
    exact Nat.le_trans (Nat.le_mul_of_pos_right _ (Nat.pow_pos (by decide))) (Nat.le_add_right _ _)
  have hsplit : ofDigits (t.whole ++ t.fraction) =
      t.fraction.foldl (fun n d => 10 * n + d) (ofDigits t.whole) := List.foldl_append
  rw [hsplit] at h ⊢
  rw [scaled, whole_of_lt ht hwhole, Scaled.fraction_of_lt h, zero_sub]

theorem scaled_near (ht : t.WellFormed) : t.scaled.Near
    (ofDigits (t.whole ++ t.fraction) * 10 ^ (-t.fraction.length : Int)) := by
  obtain ⟨n, w, hwhole, hgathered⟩ := gathered_zero.whole t.whole ht.whole_lt
  rw [scaled, ofDigits, List.foldl_append]
  exact (congrArg (fun s => Scaled.Near (Scaled.fraction s t.fraction) _) hwhole).mpr
    (hgathered.fraction_near ht.fraction_lt)

theorem units_eq (t : NumberText) : t.units =
    ofDigits (t.whole ++ t.fraction) * 10 ^ (-t.fraction.length : Int) * 10 ^ t.power * one := by
  rw [units, sub_eq_neg_add, zpow_add₀ (by norm_num), ← mul_assoc]

theorem units_nonneg (t : NumberText) : 0 ≤ t.units :=
  mul_nonneg (by positivity) (Nat.cast_nonneg _)

/-- What is gathered of a number and scaled is its value but for less than one part in `2^60`. -/
theorem units_near (ht : t.WellFormed) :
    t.scaled.significand * 10 ^ (t.scaled.exponent + t.power) * one ≤ t.units ∧
      (t.units - t.scaled.significand * 10 ^ (t.scaled.exponent + t.power) * one) * 2 ^ 60 ≤
        t.units := by
  obtain ⟨-, hle, hnear⟩ := scaled_near ht
  have hscale : (0 : ℚ) ≤ 10 ^ t.power * one := mul_nonneg (by positivity) (Nat.cast_nonneg _)
  have hunits := units_eq t
  rw [mul_assoc] at hunits
  rw [zpow_add₀ (by norm_num), ← mul_assoc, mul_assoc, hunits]
  have hle := mul_le_mul_of_nonneg_right hle hscale
  have hnear := mul_le_mul_of_nonneg_right hnear hscale
  exact ⟨hle, by linarith⟩

theorem signed?_isSome (negative : Bool) {x : Binary64} (hx : x.isFinite = true) :
    ∃ n, Number.signed? negative x = some n := by
  have hneg : (-x).isFinite = true := by
    cases x <;> exact hx
  cases negative with
  | false => exact ⟨.real x hx, dif_pos hx⟩
  | true => exact ⟨.real (-x) hneg, dif_pos hneg⟩

theorem ofInteger?_isSome (negative : Bool) {n : Nat} (hn : n < 2 ^ 64) :
    ∃ m, Number.ofInteger? negative n = some m := by
  unfold Number.ofInteger?
  split
  · split
    · exact ⟨_, rfl⟩
    · exact signed?_isSome true (isFinite_ofNat hn)
  · exact ⟨_, dif_pos hn⟩

/-- A number has a value if it is not too large. -/
theorem value?_isSome (ht : t.WellFormed) (hpower : t.power < 2 ^ 31)
    (hunits : t.units ≤ scalable) : ∃ n, t.value? = some n := by
  obtain ⟨hlt, -⟩ := scaled_near ht
  rw [value?_eq]
  split
  · exact ofInteger?_isSome t.negative hlt
  · split
    · obtain ⟨y, hy, hfinite⟩ := scale?_ofNat hlt (le_trans (units_near ht).1 hunits)
      rw [hy]
      exact signed?_isSome t.negative hfinite
    · rw [if_neg (by omega)]
      exact signed?_isSome t.negative rfl

end NumberText

end Uplink.Json

import Mathlib.Algebra.Order.Field.Basic
import Mathlib.Data.Nat.Cast.Order.Field
import Mathlib.Tactic.FieldSimp
import Mathlib.Tactic.GCongr
import Mathlib.Tactic.Linarith
import Mathlib.Tactic.NormNum
import Mathlib.Tactic.Positivity
import Mathlib.Tactic.Ring
import Uplink.Proofs.Binary64.Rounding

/-! How errors add up. An error is a part of the exact value and something beside it; products and
quotients of inexact values are inexact by the parts of both, and rounding adds half the distance of
neighbours, which is a part of one in `2^53` or half a unit. What rounds to a number lies around it
without a gap, half a spacing away at most. -/

namespace Uplink.Binary64

/-- `x` differs from `y` by the part `c` of `y` and by `b` at most. -/
def Within (c b x y : ℚ) : Prop := |x - y| ≤ c * y + b

section Errors

variable {b b' c c' x x' y y' z : ℚ}

theorem within_self (hc : 0 ≤ c) (hb : 0 ≤ b) (hy : 0 ≤ y) : Within c b y y := by
  rw [Within, sub_self, abs_zero]
  positivity

theorem Within.weaken (h : Within c b x y) (hc : c ≤ c') (hb : b ≤ b') (hy : 0 ≤ y) :
    Within c' b' x y :=
  le_trans h (add_le_add (mul_le_mul_of_nonneg_right hc hy) hb)

theorem Within.le (h : Within c b x y) : x ≤ (1 + c) * y + b := by
  have := (abs_le.mp h).2
  linarith

theorem Within.ge (h : Within c b x y) : (1 - c) * y - b ≤ x := by
  have := (abs_le.mp h).1
  linarith

theorem Within.trans (h : Within c b x y) (h' : Within c' b' y z) (hc : 0 ≤ c) :
    Within (c + c' + c * c') (b + b' + c * b') x z := by
  calc |x - z| ≤ |x - y| + |y - z| := abs_sub_le x y z
    _ ≤ (c * y + b) + (c' * z + b') := add_le_add h h'
    _ ≤ (c * ((1 + c') * z + b') + b) + (c' * z + b') := by
      have := mul_le_mul_of_nonneg_left h'.le hc
      linarith
    _ = (c + c' + c * c') * z + (b + b' + c * b') := by ring

theorem Within.mul (h : Within c 0 x y) (h' : Within c' 0 x' y') (hc : 0 ≤ c) (hx' : 0 ≤ x')
    (hy : 0 ≤ y) : Within (c + c' + c * c') 0 (x * x') (y * y') := by
  rw [Within, add_zero] at h h'
  have hle : x' ≤ (1 + c') * y' := by
    have := (abs_le.mp h').2
    linarith
  calc |x * x' - y * y'| = |(x - y) * x' + y * (x' - y')| := by ring_nf
    _ ≤ |x - y| * x' + y * |x' - y'| := by
      refine le_trans (abs_add_le _ _) (le_of_eq ?_)
      rw [abs_mul, abs_mul, abs_of_nonneg hx', abs_of_nonneg hy]
    _ ≤ c * y * ((1 + c') * y') + y * (c' * y') :=
      add_le_add (mul_le_mul h hle hx' (mul_nonneg hc hy)) (mul_le_mul_of_nonneg_left h' hy)
    _ = (c + c' + c * c') * (y * y') + 0 := by ring

theorem Within.div (h : Within c b x y) (h' : Within c' 0 x' y') (hb : 0 ≤ b) (hc : 0 ≤ c)
    (hc' : 0 ≤ c') (hlt : c' < 1) (hy : 0 ≤ y) (hy' : 0 < y') :
    Within ((c + c') / (1 - c')) (b / ((1 - c') * y')) (x / x') (y / y') := by
  have hbelow : (1 - c') * y' ≤ x' := by
    have := h'.ge
    linarith
  have hlow : 0 < (1 - c') * y' := mul_pos (sub_pos.mpr hlt) hy'
  have hx' : 0 < x' := lt_of_lt_of_le hlow hbelow
  rw [Within, add_zero] at h'
  have hsplit : x / x' - y / y' = ((x - y) + y / y' * (y' - x')) / x' := by
    field_simp
    ring
  have hsum : |(x - y) + y / y' * (y' - x')| ≤ (c + c') * y + b := by
    calc |(x - y) + y / y' * (y' - x')| ≤ |x - y| + y / y' * |x' - y'| := by
          refine le_trans (abs_add_le _ _) (le_of_eq ?_)
          rw [abs_mul, abs_of_nonneg (div_nonneg hy hy'.le), abs_sub_comm y' x']
      _ ≤ (c * y + b) + y / y' * (c' * y') :=
        add_le_add h (mul_le_mul_of_nonneg_left h' (div_nonneg hy hy'.le))
      _ = (c + c') * y + b := by
        field_simp
        ring
  calc |x / x' - y / y'| = |(x - y) + y / y' * (y' - x')| / x' := by
        rw [hsplit, abs_div, abs_of_pos hx']
    _ ≤ ((c + c') * y + b) / ((1 - c') * y') := div_le_div₀ (by positivity) hsum hlow hbelow
    _ = (c + c') / (1 - c') * (y / y') + b / ((1 - c') * y') := by
      have : 1 - c' ≠ 0 := ne_of_gt (sub_pos.mpr hlt)
      field_simp

end Errors

variable {n d u : Nat}

theorem one_cast_pos : (0 : ℚ) < one := Nat.cast_pos.mpr one_pos

theorem spacing_of_lt (h : u < 2 ^ 53) : spacing u = 1 := by
  have hlog : u.log2 - 52 = 0 := by
    rcases Nat.eq_zero_or_pos u with rfl | hu
    · rfl
    · have := (Nat.log2_lt (Nat.ne_of_gt hu)).mpr h
      omega
  rw [spacing_eq_two_pow, hlog, Nat.pow_zero]

theorem lt_mul_spacing (u : Nat) : u < 2 ^ 53 * spacing u := by
  rw [spacing_eq_two_pow, ← Nat.pow_add]
  exact Nat.lt_of_lt_of_le Nat.lt_log2_self (Nat.pow_le_pow_right (by decide) (by omega))

theorem abs_nearestUnits_sub_le_half (n : Nat) (hd : 0 < d) :
    |(nearestUnits n d : ℚ) - n / d| ≤ spacing (n / d) / 2 := by
  obtain ⟨hbelow, habove⟩ := two_mul_nearestUnits (n := n) hd
  have hdpos : (0 : ℚ) < d := Nat.cast_pos.mpr hd
  have hbelow : (2 * (d * nearestUnits n d) : ℚ) ≤ 2 * n + d * spacing (n / d) := by
    exact_mod_cast hbelow
  have habove : (2 * n : ℚ) ≤ 2 * (d * nearestUnits n d) + d * spacing (n / d) := by
    exact_mod_cast habove
  have hmul : (n : ℚ) / d * d = n := div_mul_cancel₀ _ (ne_of_gt hdpos)
  rw [abs_le]
  constructor <;> refine le_of_mul_le_mul_right ?_ hdpos <;> linarith

/-- Rounding is off by half a unit, or by one part in `2^53`, at most. -/
theorem abs_nearestUnits_sub_le (n : Nat) (hd : 0 < d) :
    |(nearestUnits n d : ℚ) - n / d| ≤ max (1 / 2) ((n : ℚ) / d / 2 ^ 53) := by
  refine le_trans (abs_nearestUnits_sub_le_half n hd) ?_
  rcases Nat.lt_or_ge (n / d) (2 ^ 53) with hsmall | hlarge
  · rw [spacing_of_lt hsmall, Nat.cast_one]
    exact le_max_left _ _
  · refine le_max_of_le_right ?_
    have hspacing : (spacing (n / d) * 2 ^ 52 : ℚ) ≤ (n / d : Nat) := by
      exact_mod_cast spacing_mul_le (Nat.le_trans (by decide) hlarge)
    have hfloor : ((n / d : Nat) : ℚ) ≤ n / d := Nat.cast_div_le
    have hpow : (2 : ℚ) ^ 53 = 2 ^ 52 * 2 := by norm_num
    rw [div_le_div_iff₀ (by norm_num) (by norm_num), hpow]
    linarith

theorem within_nearestUnits_half (n : Nat) (hd : 0 < d) :
    Within (1 / 2 ^ 53) (1 / 2) (nearestUnits n d) (n / d) := by
  have hnonneg : (0 : ℚ) ≤ n / d / 2 ^ 53 := by positivity
  refine le_trans (abs_nearestUnits_sub_le n hd) (max_le ?_ ?_) <;> linarith

/-- Where numbers have 53 digits, rounding is off by one part in `2^53` at most. -/
theorem within_nearestUnits (hd : 0 < d) (h : (2 ^ 52 : ℚ) ≤ n / d) :
    Within (1 / 2 ^ 53) 0 (nearestUnits n d) (n / d) := by
  refine le_trans (abs_nearestUnits_sub_le n hd) (max_le ?_ (le_of_eq ?_))
  · rw [add_zero, one_div_mul_eq_div, div_le_div_iff₀ (by norm_num) (by norm_num)]
    have hpow : (2 : ℚ) ^ 53 = 2 ^ 52 * 2 := by norm_num
    linarith
  · ring

/-- A quotient rounds the same however it is written. -/
theorem nearestUnits_mul_right (n d : Nat) {c : Nat} (hc : 0 < c) :
    nearestUnits (n * c) (d * c) = nearestUnits n d := by
  have hround (d : Nat) : roundQuotient (n * c) (d * c) = roundQuotient n d := by
    unfold roundQuotient
    simp only [Nat.mul_div_mul_right _ _ hc, Nat.mul_mod_mul_right, ← Nat.mul_assoc,
      Nat.mul_lt_mul_right hc]
  rw [nearestUnits, nearestUnits, Nat.mul_div_mul_right _ _ hc, Nat.mul_right_comm d c, hround]

theorem nearestUnits_le_of_div_le {n' d' : Nat} (hd : 0 < d) (hd' : 0 < d')
    (h : (n : ℚ) / d ≤ n' / d') : nearestUnits n d ≤ nearestUnits n' d' := by
  have hcross : n * d' ≤ n' * d := by
    rw [div_le_div_iff₀ (by positivity) (by positivity)] at h
    exact_mod_cast h
  calc nearestUnits n d = nearestUnits (n * d') (d * d') := (nearestUnits_mul_right n d hd').symm
    _ ≤ nearestUnits (n' * d) (d * d') := nearestUnits_mono hcross
    _ = nearestUnits n' d' := by rw [Nat.mul_comm d, nearestUnits_mul_right n' d' hd]

theorem nearestUnits_congr {n' d' : Nat} (hd : 0 < d) (hd' : 0 < d') (h : (n : ℚ) / d = n' / d') :
    nearestUnits n d = nearestUnits n' d' :=
  le_antisymm (nearestUnits_le_of_div_le hd hd' h.le) (nearestUnits_le_of_div_le hd' hd h.ge)

/-! ### What rounds to a number -/

/-- How far a number of the format extends to both sides at least: half a unit, or one part in
`2^54`. -/
def reach (u : Nat) : ℚ := max (1 / 2) (u / 2 ^ 54)

theorem reach_le {s : Nat} (hs : 0 < s) (h : u ≤ 2 ^ 53 * s) : reach u ≤ s / 2 := by
  have hone : (1 : ℚ) ≤ s := by exact_mod_cast hs
  have hle : (u : ℚ) ≤ 2 ^ 53 * s := by exact_mod_cast h
  have hpow : (2 : ℚ) ^ 54 = 2 ^ 53 * 2 := by norm_num
  refine max_le (by linarith) ?_
  rw [div_le_div_iff₀ (by norm_num) (by norm_num), hpow]
  linarith

/-- A quotient within the reach of a number lies among numbers whose distance divides that one, and
closer to it than half of that distance. -/
theorem spacing_dvd_of_lt_reach (hd : 0 < d) (hu : spacing u ∣ u)
    (h : |(n : ℚ) / d - u| < reach u) :
    spacing (n / d) ∣ u ∧ |(n : ℚ) / d - u| < spacing (n / d) / 2 := by
  have hdpos : (0 : ℚ) < d := Nat.cast_pos.mpr hd
  have hfloor : ((n / d : Nat) : ℚ) ≤ n / d := Nat.cast_div_le
  have hnext : (n : ℚ) / d < (n / d : Nat) + 1 := by
    rw [div_lt_iff₀ hdpos]
    exact_mod_cast (Nat.div_lt_iff_lt_mul hd).mp (Nat.lt_succ_self (n / d))
  generalize (n : ℚ) / d = x at *
  generalize n / d = q at *
  have hspacing := spacing_pos q
  rcases Nat.lt_or_ge q u with hbelow | habove
  · have hdvd : spacing q ∣ u := Nat.dvd_trans (spacing_le_spacing (Nat.le_of_lt hbelow)) hu
    refine ⟨hdvd, lt_of_lt_of_le h (reach_le hspacing (Nat.not_lt.mp fun hlarge => ?_))⟩
    -- A number above the next power of two would not reach below that.
    have hq : (q + 1 : ℚ) ≤ 2 ^ 53 * spacing q := by exact_mod_cast lt_mul_spacing q
    have hu : (2 ^ 53 * spacing q + spacing q : ℚ) ≤ u := by
      have hle : 2 ^ 53 * spacing q + spacing q ≤ u := by
        obtain ⟨k, rfl⟩ := hdvd
        rw [Nat.mul_comm (spacing q) k, ← Nat.succ_mul]
        exact Nat.mul_le_mul_right _ (Nat.lt_of_mul_lt_mul_right (by rwa [Nat.mul_comm k]))
      exact_mod_cast hle
    have hone : (1 : ℚ) ≤ spacing q := by exact_mod_cast hspacing
    have hfar : (u : ℚ) - x < reach u := by
      have := neg_abs_le (x - u)
      linarith
    rcases max_choice (1 / 2 : ℚ) (u / 2 ^ 54) with hreach | hreach <;> rw [reach, hreach] at hfar
    · linarith
    · norm_num at *
      linarith
  · have hreach := reach_le (spacing_pos u) (Nat.le_of_lt (lt_mul_spacing u))
    have hfar : x - u < spacing u / 2 := by
      have := le_abs_self (x - u)
      linarith
    obtain ⟨rest, rfl⟩ := Nat.exists_eq_add_of_le habove
    have hrest : rest < spacing u := by
      have hlt : (rest : ℚ) < spacing u := by
        push_cast at hfloor
        have : (0 : ℚ) < spacing u := Nat.cast_pos.mpr (spacing_pos u)
        linarith
      exact_mod_cast hlt
    rw [spacing_add hu hrest]
    exact ⟨hu, lt_of_lt_of_le h hreach⟩

/-- What lies within the reach of a number rounds to it. -/
theorem nearestUnits_eq_of_lt_reach (hd : 0 < d) (hu : spacing u ∣ u)
    (h : |(n : ℚ) / d - u| < reach u) : nearestUnits n d = u := by
  obtain ⟨⟨k, hk⟩, hclose⟩ := spacing_dvd_of_lt_reach hd hu h
  have hround := abs_nearestUnits_sub_le_half n hd
  have hlt : |(nearestUnits n d : ℚ) - u| < spacing (n / d) := by
    have := abs_sub_le (nearestUnits n d : ℚ) (n / d) u
    linarith
  rw [nearestUnits] at hlt ⊢
  have hpos : (0 : ℚ) < spacing (n / d) := Nat.cast_pos.mpr (spacing_pos (n / d))
  generalize roundQuotient n (d * spacing (n / d)) = r at *
  generalize spacing (n / d) = s at *
  subst hk
  push_cast at hlt
  obtain ⟨hlow, hhigh⟩ := abs_lt.mp hlt
  suffices r = k by rw [this, Nat.mul_comm]
  rcases Nat.lt_trichotomy r k with hrk | hrk | hrk
  · have hstep : (r + 1 : ℚ) ≤ k := by exact_mod_cast hrk
    have := mul_le_mul_of_nonneg_right hstep hpos.le
    linarith
  · exact hrk
  · have hstep : (k + 1 : ℚ) ≤ r := by exact_mod_cast hrk
    have := mul_le_mul_of_nonneg_right hstep hpos.le
    linarith

/-- A value that rounds to `u` units. -/
def RoundsTo (v : ℚ) (u : Nat) : Prop := ∃ n d : Nat,
  0 < d ∧ (n : ℚ) / d = v ∧ nearestUnits n d = u

theorem spacing_le_spacing_nearestUnits (hd : 0 < d) :
    spacing (n / d) ≤ spacing (nearestUnits n d) := by
  rcases Nat.eq_zero_or_pos (n / d) with hzero | hpos
  · rw [hzero]
    exact spacing_pos _
  · have hlow : 2 ^ (n / d).log2 ≤ nearestUnits n d := by
      refine two_pow_le_nearestUnits hd ((Nat.le_div_iff_mul_le hd).mp ?_)
      exact Nat.log2_self_le (Nat.ne_of_gt hpos)
    have hlog : (n / d).log2 ≤ (nearestUnits n d).log2 :=
      (Nat.le_log2 (Nat.ne_of_gt (Nat.lt_of_lt_of_le (Nat.two_pow_pos _) hlow))).mpr hlow
    rw [spacing_eq_two_pow, spacing_eq_two_pow]
    exact Nat.pow_le_pow_right (by decide) (by omega)

theorem RoundsTo.abs_sub_le {v : ℚ} (h : RoundsTo v u) : |v - u| ≤ spacing u / 2 := by
  obtain ⟨n, d, hd, rfl, rfl⟩ := h
  have hspacing : (spacing (n / d) : ℚ) ≤ spacing (nearestUnits n d) := by
    exact_mod_cast spacing_le_spacing_nearestUnits hd
  rw [abs_sub_comm]
  exact le_trans (abs_nearestUnits_sub_le_half n hd) (by linarith)

theorem RoundsTo.nearestUnits_eq {v : ℚ} (h : RoundsTo v u) (hd : 0 < d) (hv : (n : ℚ) / d = v) :
    nearestUnits n d = u := by
  obtain ⟨n', d', hd', hv', hround⟩ := h
  rw [nearestUnits_congr hd hd' (hv.trans hv'.symm), hround]

/-- What lies between a value and the number it rounds to rounds to that number as well. -/
theorem RoundsTo.between {v w : ℚ} (h : RoundsTo v u) (hu : spacing u ∣ u) (hd : 0 < d)
    (hw : (n : ℚ) / d = w) (hlow : min v u ≤ w) (hhigh : w ≤ max v u) : RoundsTo w u := by
  obtain ⟨n', d', hd', rfl, hround⟩ := h
  subst hw
  have hself := nearestUnits_self hu
  have hone : (u : ℚ) = u / (1 : Nat) := by rw [Nat.cast_one, div_one]
  rw [hone] at hlow hhigh
  refine ⟨n, d, hd, rfl, le_antisymm ?_ ?_⟩
  · rcases le_max_iff.mp hhigh with hle | hle
    · exact hround ▸ nearestUnits_le_of_div_le hd hd' hle
    · exact (nearestUnits_le_of_div_le hd Nat.one_pos hle).trans_eq hself
  · rcases min_le_iff.mp hlow with hle | hle
    · exact hround ▸ nearestUnits_le_of_div_le hd' hd hle
    · exact hself.ge.trans (nearestUnits_le_of_div_le Nat.one_pos hd hle)

end Uplink.Binary64

import Uplink.Proofs.Binary64.Accuracy
import Uplink.Proofs.Json.NumberValue

/-! How close a scaled significand comes to the exact product. A significand and a power of ten are
each rounded once, and their product or quotient once more. A number too small for one division is
divided twice; the first quotient may be off by half a unit, of which the second division leaves a
tenth. -/

namespace Uplink.Json

open Binary64 (OnGrid RoundsTo Within finite nearestUnits ofQuotient one one_cast_pos scalable)

variable {n k : Nat} {c v : ℚ}

/-- How close a number of the given sign comes to a value: up to a part of the value, the rest of an
earlier rounding, and the last rounding. -/
def Close (negative : Bool) (c : ℚ) (x : Binary64) (v : ℚ) : Prop := ∃ u onGrid,
  x = finite negative u onGrid ∧ |(u : ℚ) - v| ≤ c * v + 1 / 16 + max (1 / 2) (9 / 8 * v / 2 ^ 53)

theorem Close.weaken {s : Bool} {x : Binary64} {c' : ℚ} (h : Close s c x v) (hc : c ≤ c')
    (hv : 0 ≤ v) : Close s c' x v := by
  obtain ⟨u, onGrid, hx, hclose⟩ := h
  have := mul_le_mul_of_nonneg_right hc hv
  exact ⟨u, onGrid, hx, by linarith⟩

/-- Rounding keeps a quotient close that is close to begin with. -/
theorem close_ofQuotient {s : Bool} {d : Nat} (hd : 0 < d) (hc : c ≤ 1 / 16) (hv : 0 ≤ v)
    (h : Within c (1 / 16) ((n : ℚ) / d) v) (hfinite : (ofQuotient s n d).isFinite = true) :
    Close s c (ofQuotient s n d) v := by
  obtain ⟨onGrid, hx⟩ := Binary64.ofQuotient_of_isFinite hfinite
  refine ⟨_, onGrid, hx, ?_⟩
  have hround := Binary64.abs_nearestUnits_sub_le n hd
  have hlast : max (1 / 2) ((n : ℚ) / d / 2 ^ 53) ≤ max (1 / 2) (9 / 8 * v / 2 ^ 53) := by
    refine max_le (le_max_left _ _) ?_
    have hle := h.le
    have hcv := mul_le_mul_of_nonneg_right hc hv
    rcases le_total 1 v with hone | hone
    · refine le_max_of_le_right (div_le_div_of_nonneg_right ?_ (by norm_num))
      linarith
    · refine le_max_of_le_left ?_
      rw [div_le_iff₀ (by norm_num)]
      linarith
  calc |(nearestUnits n d : ℚ) - v| ≤ |(nearestUnits n d : ℚ) - n / d| + |(n : ℚ) / d - v| :=
        abs_sub_le _ _ _
    _ ≤ max (1 / 2) (9 / 8 * v / 2 ^ 53) + (c * v + 1 / 16) := add_le_add (le_trans hround hlast) h
    _ = c * v + 1 / 16 + max (1 / 2) (9 / 8 * v / 2 ^ 53) := add_comm _ _

theorem nearestUnits_of_ofNat {s : Bool} {u : Nat} {onGrid : OnGrid u}
    (h : Binary64.ofNat n = finite s u onGrid) : nearestUnits (n * one) 1 = u := by
  unfold Binary64.ofNat ofQuotient at h
  split at h
  · injection h
  · cases h

theorem ofNat_within (h : n * one ≤ scalable) : ∃ u onGrid,
    Binary64.ofNat n = finite false u onGrid ∧ Within (1 / 2 ^ 53) 0 u (n * one) ∧
      (0 < n → one ≤ u) := by
  obtain ⟨u, onGrid, hu, -, hone⟩ := Binary64.ofNat_eq_finite h
  refine ⟨u, onGrid, hu, ?_, hone⟩
  have hnearest := nearestUnits_of_ofNat hu
  rcases Nat.eq_zero_or_pos n with rfl | hpos
  · rw [Nat.zero_mul, Binary64.nearestUnits_self (Nat.dvd_zero _)] at hnearest
    simp [Within, ← hnearest]
  · have hlarge : (2 ^ 52 : ℚ) ≤ (n * one : Nat) / (1 : Nat) := by
      rw [Nat.cast_one, div_one]
      have hle : 2 ^ 52 ≤ n * one := by
        refine Nat.le_trans ?_ (Nat.le_mul_of_pos_left _ hpos)
        rw [Binary64.one_eq_two_pow]
        exact Nat.pow_le_pow_right (Nat.succ_pos 1) (by decide)
      exact_mod_cast hle
    have hwithin := Binary64.within_nearestUnits Nat.one_pos hlarge
    rw [hnearest] at hwithin
    simpa using hwithin

theorem significand_within (hn : n < 2 ^ 64) : ∃ u onGrid,
    Binary64.ofNat n = finite false u onGrid ∧ Within (1 / 2 ^ 53) 0 u (n * one) := by
  obtain ⟨u, onGrid, hu, hwithin, -⟩ := ofNat_within
    (Nat.le_trans (Nat.mul_le_mul_right _ (Nat.le_of_lt hn)) Binary64.significand_le_scalable)
  exact ⟨u, onGrid, hu, hwithin⟩

/-- A power of ten that numbers are scaled by, and how far its number is off. -/
def PowerWithin (c : ℚ) (k : Nat) : Prop := ∃ p onGrid, powerOfTen k = finite false p onGrid ∧
  0 < p ∧ Within c 0 ((p : ℚ) / one) (10 ^ k)

theorem powerOfTen_eq (k : Nat) : powerOfTen k = .ofNat (10 ^ k) := rfl

theorem within_div_one {p : ℚ} (h : Within c 0 p (10 ^ k * one)) :
    Within c 0 (p / one) (10 ^ k) := by
  have hone := one_cast_pos
  rw [Within, add_zero] at h ⊢
  have hdiff : p / one - 10 ^ k = (p - 10 ^ k * one) / one := by field_simp
  rw [hdiff, abs_div, abs_of_pos hone, div_le_iff₀ hone]
  linarith

theorem powerWithin_of_le (hk : k ≤ 308) : PowerWithin (1 / 2 ^ 53) k := by
  have hle : 10 ^ k * one ≤ scalable := by
    refine Nat.le_trans (Nat.mul_le_mul_right _ ?_) Binary64.scalable_bounds.1
    exact Nat.pow_le_pow_right (by decide) hk
  obtain ⟨p, onGrid, hp, hwithin, hone⟩ := ofNat_within hle
  refine ⟨p, onGrid, hp, Nat.lt_of_lt_of_le Binary64.one_pos (hone (Nat.pow_pos (by decide))), ?_⟩
  exact within_div_one (by simpa using hwithin)

/-- Up to `10^22` the powers of ten are numbers of the format. -/
theorem powerOfTen_eq_finite (hk : k ≤ 22) : ∃ onGrid,
    powerOfTen k = finite false (10 ^ k * one) onGrid := by
  have hsplit : 10 ^ k * one = 5 ^ k * 2 ^ (k + 1074) := by
    rw [Binary64.one_eq_two_pow, Nat.pow_add, ← Nat.mul_assoc, ← Nat.mul_pow]
  have hfive : 5 ^ k ≤ 2 ^ 53 :=
    Nat.le_trans (Nat.pow_le_pow_right (by decide) hk) (by decide)
  have onGrid : OnGrid (10 ^ k * one) := by
    constructor
    · have hle := Nat.mul_le_mul_right one (Nat.pow_le_pow_right (show 0 < 10 by decide) hk)
      exact Nat.lt_of_le_of_lt hle (by decide +kernel)
    · rw [hsplit]
      exact Binary64.spacing_dvd_mul_two_pow _ hfive
  exact ⟨onGrid, (powerOfTen_eq k).trans (Binary64.ofNat_of_onGrid (n := 10 ^ k) onGrid)⟩

theorem pow_mul_one_pos (k : Nat) : 0 < 10 ^ k * one :=
  Nat.mul_pos (Nat.pow_pos (Nat.succ_pos 9)) Binary64.one_pos

theorem powerWithin_zero (hk : k ≤ 22) : PowerWithin 0 k := by
  obtain ⟨onGrid, hpower⟩ := powerOfTen_eq_finite hk
  refine ⟨10 ^ k * one, onGrid, hpower, pow_mul_one_pos k, within_div_one ?_⟩
  push_cast
  have hnonneg : (0 : ℚ) ≤ 10 ^ k * one := mul_nonneg (by positivity) one_cast_pos.le
  exact Binary64.within_self (le_refl _) (le_refl _) hnonneg

/-- The largest power of ten is closer to its number than others are. -/
theorem powerWithin_last : PowerWithin (1 / 2 ^ 56) 308 := by
  obtain ⟨p, onGrid, hp, hpos, -⟩ := powerWithin_of_le (Nat.le_refl 308)
  refine ⟨p, onGrid, hp, hpos, within_div_one ?_⟩
  have hnearest := nearestUnits_of_ofNat (powerOfTen_eq 308 ▸ hp)
  have hbounds : 2 ^ 56 * nearestUnits (10 ^ 308 * one) 1 ≤ (2 ^ 56 + 1) * (10 ^ 308 * one) ∧
      2 ^ 56 * (10 ^ 308 * one) ≤ 2 ^ 56 * nearestUnits (10 ^ 308 * one) 1 + 10 ^ 308 * one := by
    decide +kernel
  rw [hnearest] at hbounds
  have hle : (2 ^ 56 * p : ℚ) ≤ (2 ^ 56 + 1) * (10 ^ 308 * one) := by exact_mod_cast hbounds.1
  have hge : (2 ^ 56 * (10 ^ 308 * one) : ℚ) ≤ 2 ^ 56 * p + 10 ^ 308 * one := by
    exact_mod_cast hbounds.2
  rw [Within, abs_le]
  generalize (10 ^ 308 * one : ℚ) = q at *
  constructor <;> linarith

/-! ### Products and quotients -/

theorem significand_nonneg (n : Nat) : (0 : ℚ) ≤ n * one :=
  mul_nonneg (Nat.cast_nonneg n) one_cast_pos.le

theorem mul_close (hn : n < 2 ^ 64) (hk : k ≤ 308)
    (hfinite : (Binary64.ofNat n * powerOfTen k).isFinite = true) :
    Close false (9 / 4 / 2 ^ 53) (Binary64.ofNat n * powerOfTen k) (n * one * 10 ^ k) := by
  obtain ⟨u, hu, hnu, hwithin⟩ := significand_within hn
  obtain ⟨p, hp, hpower, -, hpwithin⟩ := powerWithin_of_le hk
  have hp0 : (0 : ℚ) ≤ p / one := div_nonneg (Nat.cast_nonneg p) one_cast_pos.le
  have hn0 := significand_nonneg n
  rw [hnu, hpower, Binary64.mul_finite] at hfinite ⊢
  generalize (n * one : ℚ) = w at *
  refine close_ofQuotient Binary64.one_pos (by norm_num) (by positivity) ?_ hfinite
  have hproduct := hwithin.mul hpwithin (by norm_num) hp0 hn0
  rw [Nat.cast_mul, mul_div_assoc]
  exact hproduct.weaken (by norm_num) (by norm_num) (by positivity)

theorem div_power (u p : Nat) : ((u * one : Nat) : ℚ) / p = u / ((p : ℚ) / one) := by
  rw [Nat.cast_mul, div_div_eq_mul_div]

theorem div_close (hn : n < 2 ^ 64) (hk : k ≤ 308) :
    Close false (9 / 4 / 2 ^ 53) (Binary64.ofNat n / powerOfTen k) (n * one / 10 ^ k) := by
  obtain ⟨u, hu, hnu, hwithin⟩ := significand_within hn
  obtain ⟨p, hp, hpower, hpos, hpwithin⟩ := powerWithin_of_le hk
  have hfinite := isFinite_div_powerOfTen (x := Binary64.ofNat n) (by rw [hnu]; rfl) hk
  have hn0 := significand_nonneg n
  rw [hnu, hpower, Binary64.div_finite _ _ (Nat.ne_of_gt hpos)] at hfinite ⊢
  generalize (n * one : ℚ) = w at *
  refine close_ofQuotient hpos (by norm_num) (by positivity) ?_ hfinite
  have hquotient := hwithin.div hpwithin (le_refl _) (by norm_num) (by norm_num) (by norm_num)
    hn0 (by positivity)
  rw [div_power]
  exact hquotient.weaken (by norm_num) (by norm_num) (by positivity)

/-- Of two divisions the first is by the largest power of ten, which has a smaller error. -/
theorem exists_first_quotient (hn : n < 2 ^ 64) : ∃ u onGrid,
    Binary64.ofNat n / powerOfTen 308 = finite false u onGrid ∧
      Within (35 / 16 / 2 ^ 53) (1 / 2) u (n * one / 10 ^ 308) := by
  obtain ⟨u, hu, hnu, hwithin⟩ := significand_within hn
  obtain ⟨p, hp, hpower, hpos, hpwithin⟩ := powerWithin_last
  have hfinite := isFinite_div_powerOfTen (x := Binary64.ofNat n) (by rw [hnu]; rfl)
    (Nat.le_refl 308)
  have hn0 := significand_nonneg n
  rw [hnu, hpower, Binary64.div_finite _ _ (Nat.ne_of_gt hpos)] at hfinite ⊢
  obtain ⟨onGrid, hx⟩ := Binary64.ofQuotient_of_isFinite hfinite
  refine ⟨_, onGrid, hx, ?_⟩
  generalize (n * one : ℚ) = w at *
  have hquotient := hwithin.div hpwithin (le_refl _) (by norm_num) (by norm_num) (by norm_num)
    hn0 (by positivity)
  rw [← div_power] at hquotient
  have hround := Binary64.within_nearestUnits_half (u * one) hpos
  exact (hround.trans hquotient (by norm_num)).weaken (by norm_num) (by norm_num) (by positivity)

theorem div_div_close (hn : n < 2 ^ 64) (hk : 1 ≤ k) (hk' : k ≤ 308) (hc : 0 ≤ c)
    (hle : c ≤ 1 / 2 ^ 53) (hpower : PowerWithin c k) :
    Close false (9 / 4 / 2 ^ 53 + 2 * c) (Binary64.ofNat n / powerOfTen 308 / powerOfTen k)
      (n * one / 10 ^ 308 / 10 ^ k) := by
  obtain ⟨u, hu, hfirst, hwithin⟩ := exists_first_quotient hn
  obtain ⟨p, hp, hpower, hpos, hpwithin⟩ := hpower
  have hfinite := isFinite_div_powerOfTen (x := finite false u hu) rfl hk'
  have hn0 : (0 : ℚ) ≤ n * one / 10 ^ 308 := div_nonneg (significand_nonneg n) (by positivity)
  rw [hfirst, hpower, Binary64.div_finite _ _ (Nat.ne_of_gt hpos)] at *
  generalize (n * one / 10 ^ 308 : ℚ) = w at *
  have hlt : c < 1 := lt_of_le_of_lt hle (by norm_num)
  norm_num at hle
  refine close_ofQuotient hpos (by norm_num; linarith) (by positivity) ?_ hfinite
  have hquotient := hwithin.div hpwithin (by norm_num) (by norm_num) hc hlt hn0 (by positivity)
  rw [div_power]
  refine hquotient.weaken ?_ ?_ (by positivity)
  · rw [div_le_iff₀ (sub_pos.mpr hlt)]
    norm_num
    nlinarith
  · have hten : (10 : ℚ) ≤ 10 ^ k := le_self_pow₀ (by norm_num) (Nat.ne_of_gt hk)
    rw [div_le_div_iff₀ (mul_pos (sub_pos.mpr hlt) (by positivity)) (by norm_num)]
    nlinarith

/-! ### Scaling -/

variable {e : Int} {y : Binary64}

theorem scaled_nonneg (n : Nat) (e : Int) : (0 : ℚ) ≤ n * 10 ^ e * one :=
  mul_nonneg (by positivity) one_cast_pos.le

theorem scaled_neg (n k : Nat) : (n : ℚ) * 10 ^ (-k : Int) * one = n * one / 10 ^ k := by
  rw [zpow_neg, zpow_natCast, mul_right_comm, div_eq_mul_inv]

/-- A significand that is rounded to zero is zero. -/
theorem close_of_isZero (hn : n < 2 ^ 64) (h : (Binary64.ofNat n).isZero = true)
    (e : Int) : Close false c (Binary64.ofNat n) (n * 10 ^ e * one) := by
  obtain ⟨u, onGrid, hu, -, hone⟩ := ofNat_within
    (Nat.le_trans (Nat.mul_le_mul_right _ (Nat.le_of_lt hn)) Binary64.significand_le_scalable)
  rw [hu] at h
  obtain rfl : u = 0 := beq_iff_eq.mp h
  obtain rfl : n = 0 := Nat.eq_zero_of_not_pos fun hn =>
    Nat.not_lt.mpr (hone hn) Binary64.one_pos
  refine ⟨0, onGrid, hu, ?_⟩
  norm_num

/-- Scaling is close where at most two divisions are needed, and as close as the second power of ten
is. -/
theorem scale?_close_of (hn : n < 2 ^ 64) (hc : 0 ≤ c) (hle : c ≤ 1 / 2 ^ 53) (he : -616 ≤ e)
    (hpower : ∀ k : Nat, 1 ≤ k → e = -(308 + k : Nat) → PowerWithin c k)
    (h : scale? (.ofNat n) e = some y) :
    Close false (9 / 4 / 2 ^ 53 + 2 * c) y (n * 10 ^ e * one) := by
  have hweaken : (9 / 4 / 2 ^ 53 : ℚ) ≤ 9 / 4 / 2 ^ 53 + 2 * c := by linarith
  have hzero (hx : (Binary64.ofNat n).isZero = true) (hy : Binary64.ofNat n = y) :
      Close false (9 / 4 / 2 ^ 53 + 2 * c) y (n * 10 ^ e * one) :=
    hy ▸ close_of_isZero hn hx e
  rw [scale?] at h
  split at h
  · next hnonneg =>
    obtain ⟨k, rfl⟩ := Int.eq_ofNat_of_zero_le hnonneg
    split at h
    · next hk =>
      rw [Int.toNat_natCast] at h
      simp only at h
      split at h
      · next hfinite =>
        obtain rfl := Option.some.inj h
        have hclose := mul_close hn (by omega) hfinite
        rw [mul_right_comm, ← zpow_natCast] at hclose
        exact hclose.weaken hweaken (scaled_nonneg n k)
      · cases h
    · split at h
      · next hx => exact hzero hx (Option.some.inj h)
      · cases h
  · split at h
    · obtain ⟨k, rfl⟩ : ∃ k : Nat, e = -k := ⟨(-e).toNat, by omega⟩
      obtain rfl := Option.some.inj h
      have hclose := div_close hn (k := k) (by omega)
      rw [← scaled_neg] at hclose
      rw [neg_neg, Int.toNat_natCast]
      exact hclose.weaken hweaken (scaled_nonneg n _)
    · split at h
      · next hx => exact hzero hx (Option.some.inj h)
      · obtain ⟨k, rfl⟩ : ∃ k : Nat, e = -(308 + k : Nat) := ⟨(-e - 308).toNat, by omega⟩
        have hk : (-(-((308 + k : Nat) : Int) + 308)).toNat = k := by omega
        rw [scale?, if_neg (by omega), if_pos (by omega), hk] at h
        obtain rfl := Option.some.inj h
        have hclose := div_div_close hn (k := k) (by omega) (by omega) hc hle
          (hpower k (by omega) rfl)
        rwa [div_div (n * one : ℚ), ← pow_add, ← scaled_neg] at hclose

/-- Beyond two divisions nothing is left of a significand. -/
theorem scaled_le (hn : n < 2 ^ 64) (he : e ≤ -616) : (n : ℚ) * 10 ^ e * one ≤ 1 / 100 := by
  have hsmall : (n : ℚ) * one ≤ 10 ^ 600 := by
    have hle : n * one ≤ 10 ^ 600 := Nat.le_trans (Nat.mul_le_mul_right _ (Nat.le_of_lt hn))
      (by decide +kernel)
    exact_mod_cast hle
  have hpower : (10 : ℚ) ^ e ≤ 10 ^ (-616 : Int) := zpow_le_zpow_right₀ (by norm_num) he
  calc (n : ℚ) * 10 ^ e * one = n * one * 10 ^ e := by rw [mul_right_comm]
    _ ≤ 10 ^ 600 * 10 ^ (-616 : Int) := mul_le_mul hsmall hpower (by positivity) (by positivity)
    _ = 10 ^ (-16 : Int) := by
      rw [← zpow_natCast, ← zpow_add₀ (by norm_num)]
      norm_num
    _ ≤ 1 / 100 := by norm_num

theorem scale?_zero {onGrid : OnGrid 0} (he : e < 0)
    (h : scale? (finite false 0 onGrid) e = some y) : y = finite false 0 onGrid := by
  rw [scale?, if_neg (by omega)] at h
  split at h
  · obtain ⟨p, hp, hpower, hpos, -⟩ := powerWithin_of_le (k := (-e).toNat) (by omega)
    obtain ⟨_, hzero⟩ := Binary64.ofQuotient_eq_finite (n := 0) (d := p) (false != false) onGrid
      (Nat.zero_le _)
    have hnearest : nearestUnits 0 p = 0 := Nat.le_zero.mp
      (Binary64.nearestUnits_le (Nat.dvd_zero _) (Nat.zero_le _))
    rw [hpower, Binary64.div_finite _ _ (Nat.ne_of_gt hpos), Nat.zero_mul, hzero] at h
    obtain rfl := Option.some.inj h
    simp only [hnearest]
    rfl
  · exact (Option.some.inj h).symm

/-- Two divisions by the largest power of ten leave nothing. -/
theorem div_div_eq_zero (hn : n < 2 ^ 64) :
    Binary64.ofNat n / powerOfTen 308 / powerOfTen 308 = finite false 0 Binary64.onGrid_zero := by
  obtain ⟨u, hu, hsecond, hclose⟩ := div_div_close hn (k := 308) (by norm_num) (by norm_num)
    (by norm_num) (by norm_num) powerWithin_last
  have hle := scaled_le hn (e := -(308 + 308 : Nat)) (by norm_num)
  have hnonneg := scaled_nonneg n (-(308 + 308 : Nat))
  rw [scaled_neg, pow_add, ← div_div] at hle hnonneg
  generalize (n * one / 10 ^ 308 / 10 ^ 308 : ℚ) = w at *
  have hlast : max (1 / 2) (9 / 8 * w / 2 ^ 53) = 1 / 2 := max_eq_left (by norm_num; linarith)
  have hlt : (u : ℚ) < 1 := by
    have := (abs_le.mp hclose).2
    norm_num at this
    linarith
  obtain rfl : u = 0 := Nat.lt_one_iff.mp (by exact_mod_cast hlt)
  exact hsecond

/-- A number too small for two divisions is scaled to zero. -/
theorem scale?_close_of_lt (hn : n < 2 ^ 64) (hc : 0 ≤ c) (he : e < -616)
    (h : scale? (.ofNat n) e = some y) : Close false c y (n * 10 ^ e * one) := by
  have hclose : Close false c (finite false 0 Binary64.onGrid_zero) (n * 10 ^ e * one) := by
    have hle := scaled_le hn (Int.le_of_lt he)
    have hnonneg := scaled_nonneg n e
    refine ⟨0, _, rfl, ?_⟩
    rw [Nat.cast_zero, zero_sub, abs_neg, abs_of_nonneg hnonneg]
    have := mul_nonneg hc hnonneg
    have := le_max_left (1 / 2 : ℚ) (9 / 8 * (n * 10 ^ e * one) / 2 ^ 53)
    linarith
  obtain ⟨u, hu, hfirst, -⟩ := exists_first_quotient hn
  rw [scale?, if_neg (by omega), if_neg (by omega)] at h
  split at h
  · next hx => exact Option.some.inj h ▸ close_of_isZero hn hx e
  · rw [scale?, if_neg (by omega), if_neg (by omega)] at h
    split at h
    · next hx =>
      obtain rfl := Option.some.inj h
      rw [hfirst] at hx ⊢
      obtain rfl : u = 0 := beq_iff_eq.mp hx
      exact hclose
    · rw [div_div_eq_zero hn] at h
      rwa [scale?_zero (by omega) h]

/-- Scaling is close, and closer where a second division is by a power of ten that is exact. -/
theorem scale?_close (hn : n < 2 ^ 64) (h : scale? (.ofNat n) e = some y) :
    Close false (17 / 4 / 2 ^ 53) y (n * 10 ^ e * one) ∧
      (-330 ≤ e → Close false (9 / 4 / 2 ^ 53) y (n * 10 ^ e * one)) := by
  constructor
  · rcases Int.lt_or_le e (-616) with he | he
    · exact scale?_close_of_lt hn (by norm_num) he h
    · have hclose := scale?_close_of hn (c := 1 / 2 ^ 53) (by norm_num) (le_refl _) he
        (fun k _ hk => powerWithin_of_le (by omega)) h
      exact hclose.weaken (by norm_num) (scaled_nonneg n e)
  · intro he
    have hclose := scale?_close_of hn (c := 0) (le_refl _) (by norm_num) (by omega)
      (fun k _ hk => powerWithin_zero (by omega)) h
    exact hclose.weaken (by norm_num) (scaled_nonneg n e)

/-- A significand of 53 bits and a power of ten up to `10^22` are numbers of the format, so that
nothing is rounded but their product or quotient. -/
theorem scale?_exact {u : Nat} (hn : n ≤ 2 ^ 53) (he : e.natAbs ≤ 22) (hu : OnGrid u)
    (h : RoundsTo (n * 10 ^ e * one) u) : scale? (.ofNat n) e = some (finite false u hu) := by
  have hround {m d : Nat} (hd : 0 < d) (hvalue : (m : ℚ) / d = n * 10 ^ e * one) :
      ofQuotient (false != false) m d = finite false u hu := by
    have hnearest := h.nearestUnits_eq hd hvalue
    subst hnearest
    exact dif_pos hu.1
  rw [Binary64.ofNat_of_le hn, scale?]
  rcases Int.lt_or_le e 0 with hneg | hnonneg
  · obtain ⟨k, rfl⟩ : ∃ k : Nat, e = -k := ⟨e.natAbs, by omega⟩
    obtain ⟨onGrid, hpower⟩ := powerOfTen_eq_finite (k := k) (by omega)
    rw [if_neg (Int.not_le.mpr hneg), if_pos (by omega), neg_neg, Int.toNat_natCast, hpower,
      Binary64.div_finite _ _ (Nat.ne_of_gt (pow_mul_one_pos k)), hround (pow_mul_one_pos k)]
    have hone := ne_of_gt one_cast_pos
    rw [scaled_neg]
    push_cast
    field_simp
  · obtain ⟨k, rfl⟩ := Int.eq_ofNat_of_zero_le hnonneg
    obtain ⟨onGrid, hpower⟩ := powerOfTen_eq_finite (k := k) (by omega)
    have hproduct : finite false (n * one) (Binary64.onGrid_mul_one hn) * powerOfTen k =
        finite false u hu := by
      rw [hpower, Binary64.mul_finite, hround Binary64.one_pos]
      have hone := ne_of_gt one_cast_pos
      rw [zpow_natCast]
      push_cast
      field_simp
    rw [if_pos hnonneg, if_pos (by omega), Int.toNat_natCast]
    simp only [hproduct]
    rfl

end Uplink.Json

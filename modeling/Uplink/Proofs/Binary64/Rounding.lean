import Mathlib.Tactic.Linarith
import Mathlib.Tactic.Ring
import Uplink.Binary64

/-! How far rounding moves a quotient: by half the distance of its neighbours at most, and over no
number of the format. From this, rounding keeps the order of quotients, and which of them stay below
overflow. -/

namespace Uplink.Binary64

variable {n d u v : Nat}

theorem spacing_eq_two_pow (u : Nat) : spacing u = 2 ^ (u.log2 - 52) := Nat.one_shiftLeft _

theorem overflow_eq_two_pow : overflow = 2 ^ 2098 := by rw [overflow, Nat.one_shiftLeft]

theorem one_eq_two_pow : one = 2 ^ 1074 := by rw [one, Nat.one_shiftLeft]

theorem one_pos : 0 < one := one_eq_two_pow ▸ Nat.two_pow_pos _

theorem spacing_two_pow (j : Nat) : spacing (2 ^ j) = 2 ^ (j - 52) := by
  rw [spacing_eq_two_pow, Nat.log2_two_pow]

/-- From `2^52` on, numbers of the format have 53 digits. -/
theorem spacing_mul_le (hu : 2 ^ 52 ≤ u) : spacing u * 2 ^ 52 ≤ u := by
  have hne : u ≠ 0 := by omega
  have hlog : 52 ≤ u.log2 := (Nat.le_log2 hne).mpr hu
  rw [spacing_eq_two_pow, ← Nat.pow_add, Nat.sub_add_cancel hlog]
  exact Nat.log2_self_le hne

theorem spacing_le_spacing (h : u ≤ v) : spacing u ∣ spacing v := by
  have hlog : u.log2 ≤ v.log2 := by
    rcases Nat.eq_zero_or_pos u with rfl | hu
    · exact Nat.zero_le _
    · exact (Nat.le_log2 (by omega)).mpr (Nat.le_trans (Nat.log2_self_le (by omega)) h)
  rw [spacing_eq_two_pow, spacing_eq_two_pow]
  exact Nat.pow_dvd_pow 2 (by omega)

theorem spacing_dvd_two_pow_log2 (u : Nat) : spacing u ∣ 2 ^ u.log2 := by
  rw [spacing_eq_two_pow]
  exact Nat.pow_dvd_pow 2 (by omega)

theorem spacing_dvd_two_pow (j : Nat) : spacing (2 ^ j) ∣ 2 ^ j := by
  have hdvd := spacing_dvd_two_pow_log2 (2 ^ j)
  rwa [Nat.log2_two_pow] at hdvd

theorem spacing_le (hu : u < overflow) : spacing u ≤ 2 ^ 2045 := by
  have hlog : u.log2 - 52 ≤ 2045 := by
    rcases Nat.eq_zero_or_pos u with rfl | hpos
    · decide
    · rw [overflow_eq_two_pow] at hu
      have := (Nat.log2_lt (by omega)).mpr hu
      omega
  rw [spacing_eq_two_pow]
  exact Nat.pow_le_pow_right (by decide) hlog

theorem spacing_dvd_mul_two_pow {k : Nat} (s : Nat) (hk : k ≤ 2 ^ 53) :
    spacing (k * 2 ^ s) ∣ k * 2 ^ s := by
  have hdvd := spacing_dvd_of_le (s := s) (show k ≤ 1 <<< 53 by rwa [Nat.one_shiftLeft])
  rwa [Nat.shiftLeft_eq] at hdvd

theorem spacing_dvd_nearestUnits (n d : Nat) : spacing (nearestUnits n d) ∣ nearestUnits n d := by
  have hdvd := spacing_dvd_of_le (s := (n / d).log2 - 52) (roundQuotient_spacing_le n d)
  rwa [Nat.shiftLeft_eq, ← Nat.one_shiftLeft] at hdvd

/-- Up to its neighbour, a number of the format keeps its spacing. -/
theorem spacing_add {rest : Nat} (hu : spacing u ∣ u) (h : rest < spacing u) :
    spacing (u + rest) = spacing u := by
  rcases Nat.eq_zero_or_pos u with rfl | hpos
  · obtain rfl : rest = 0 := Nat.lt_one_iff.mp h
    rfl
  have hne : u ≠ 0 := Nat.ne_of_gt hpos
  have hlow := Nat.log2_self_le hne
  have hnext : u + spacing u ≤ 2 ^ (u.log2 + 1) := by
    have hdvd : spacing u ∣ 2 ^ (u.log2 + 1) - u :=
      Nat.dvd_sub (Nat.dvd_trans (spacing_dvd_two_pow_log2 u) (Nat.pow_dvd_pow 2 (by omega))) hu
    have hlt := Nat.lt_log2_self (n := u)
    have hle := Nat.le_of_dvd (by omega) hdvd
    omega
  have hlog : (u + rest).log2 = u.log2 := (Nat.log2_eq_iff (by omega)).mpr ⟨by omega, by omega⟩
  rw [spacing, spacing, hlog]

theorem roundQuotient_le_of_le {k : Nat} (h : n ≤ k * d) : roundQuotient n d ≤ k := by
  rcases Nat.eq_zero_or_pos d with rfl | hd
  · simp at h
    simp [h, roundQuotient]
  have hmod := Nat.mod_lt n hd
  have hdiv := Nat.div_add_mod n d
  rcases Nat.lt_or_eq_of_le (Nat.div_le_of_le_mul (Nat.mul_comm k d ▸ h)) with hlt | heq
  · exact Nat.le_trans (roundQuotient_le n d) hlt
  · have hzero : n % d = 0 := by
      rw [heq, Nat.mul_comm] at hdiv
      omega
    simp [roundQuotient, hzero, hd, heq]

theorem roundQuotient_mono {m : Nat} (h : m ≤ n) : roundQuotient m d ≤ roundQuotient n d := by
  rcases Nat.eq_zero_or_pos d with rfl | hd
  · simp only [roundQuotient, Nat.div_zero, Nat.mod_zero, Nat.not_lt_zero, if_false, Nat.zero_mod]
    split <;> split <;> omega
  rcases Nat.lt_or_eq_of_le (Nat.div_le_div_right (c := d) h) with hlt | heq
  · exact Nat.le_trans (roundQuotient_le m d) (Nat.le_trans hlt (le_roundQuotient n d))
  · have hm := Nat.div_add_mod m d
    have hn := Nat.div_add_mod n d
    rw [heq] at hm
    have hmod : m % d ≤ n % d := by omega
    unfold roundQuotient
    simp only [heq]
    grind

/-- The rounded quotient is off by half at most. -/
theorem two_mul_roundQuotient (hd : 0 < d) :
    2 * (d * roundQuotient n d) ≤ 2 * n + d ∧ 2 * n ≤ 2 * (d * roundQuotient n d) + d := by
  have hdiv := Nat.div_add_mod n d
  have hmod := Nat.mod_lt n hd
  unfold roundQuotient
  simp only
  split
  · omega
  · split
    · rw [Nat.mul_add]
      omega
    · rcases Nat.mod_two_eq_zero_or_one (n / d) with h | h <;> rw [h, Nat.mul_add] <;> omega

/-- The nearest number of the format is off by half the distance of its neighbours at most. -/
theorem two_mul_nearestUnits (hd : 0 < d) :
    2 * (d * nearestUnits n d) ≤ 2 * n + d * spacing (n / d) ∧
      2 * n ≤ 2 * (d * nearestUnits n d) + d * spacing (n / d) := by
  have h := two_mul_roundQuotient (n := n) (Nat.mul_pos hd (spacing_pos (n / d)))
  have hassoc : d * nearestUnits n d =
      d * spacing (n / d) * roundQuotient n (d * spacing (n / d)) := by
    rw [nearestUnits]
    ring
  rwa [hassoc]

/-- No number of the format lies between a quotient and the nearest one. -/
theorem nearestUnits_le (hu : spacing u ∣ u) (h : n ≤ u * d) : nearestUnits n d ≤ u := by
  have hq : n / d ≤ u := Nat.div_le_of_le_mul (Nat.mul_comm u d ▸ h)
  obtain ⟨k, hk⟩ := Nat.dvd_trans (spacing_le_spacing hq) hu
  have hround : roundQuotient n (d * spacing (n / d)) ≤ k := by
    refine roundQuotient_le_of_le (Nat.le_trans h (Nat.le_of_eq ?_))
    calc u * d = spacing (n / d) * k * d := by rw [← hk]
      _ = k * (d * spacing (n / d)) := by ring
  calc nearestUnits n d ≤ k * spacing (n / d) := Nat.mul_le_mul_right _ hround
    _ = u := by rw [Nat.mul_comm, ← hk]

theorem two_pow_le_nearestUnits {j : Nat} (hd : 0 < d) (h : 2 ^ j * d ≤ n) :
    2 ^ j ≤ nearestUnits n d := by
  have hq : 2 ^ j ≤ n / d := (Nat.le_div_iff_mul_le hd).mpr h
  have hne : n / d ≠ 0 := by
    have := Nat.two_pow_pos j
    omega
  obtain ⟨k, hk⟩ := spacing_dvd_two_pow_log2 (n / d)
  have hround : k ≤ roundQuotient n (d * spacing (n / d)) := by
    refine Nat.le_trans ?_ (le_roundQuotient _ _)
    rw [← Nat.div_div_eq_div_mul, Nat.le_div_iff_mul_le (spacing_pos _), Nat.mul_comm, ← hk]
    exact Nat.log2_self_le hne
  calc 2 ^ j ≤ 2 ^ (n / d).log2 :=
        Nat.pow_le_pow_right (by decide) ((Nat.le_log2 hne).mpr hq)
    _ = k * spacing (n / d) := by rw [hk, Nat.mul_comm]
    _ ≤ nearestUnits n d := Nat.mul_le_mul_right _ hround

/-- Rounding keeps the order of quotients. -/
theorem nearestUnits_mono {m : Nat} (h : m ≤ n) : nearestUnits m d ≤ nearestUnits n d := by
  have hq : m / d ≤ n / d := Nat.div_le_div_right h
  by_cases hspacing : spacing (m / d) = spacing (n / d)
  · rw [nearestUnits, nearestUnits, hspacing]
    exact Nat.mul_le_mul_right _ (roundQuotient_mono h)
  have hd : 0 < d := Nat.pos_of_ne_zero fun h0 => hspacing (by rw [h0, Nat.div_zero, Nat.div_zero])
  have hne : n / d ≠ 0 := fun h0 =>
    hspacing (by rw [h0, Nat.le_zero.mp (Nat.le_trans hq (Nat.le_of_eq h0))])
  -- The power of two that starts the binade of the larger quotient lies between the two.
  have hlt : m / d < 2 ^ (n / d).log2 := by
    by_contra hle
    have hpos : m / d ≠ 0 := by
      have := Nat.two_pow_pos (n / d).log2
      omega
    have hlog : (m / d).log2 = (n / d).log2 :=
      (Nat.log2_eq_iff hpos).mpr ⟨Nat.not_lt.mp hle, Nat.lt_of_le_of_lt hq Nat.lt_log2_self⟩
    exact hspacing (by rw [spacing, spacing, hlog])
  calc nearestUnits m d ≤ 2 ^ (n / d).log2 :=
        nearestUnits_le (spacing_dvd_two_pow _) (Nat.le_of_lt ((Nat.div_lt_iff_lt_mul hd).mp hlt))
    _ ≤ nearestUnits n d :=
        two_pow_le_nearestUnits hd ((Nat.le_div_iff_mul_le hd).mp (Nat.log2_self_le hne))

/-- A number of the format is the nearest to itself, and to all less than half a spacing above. -/
theorem nearestUnits_add {rest : Nat} (hu : spacing u ∣ u) (h : 2 * rest < spacing u) :
    nearestUnits (u + rest) 1 = u := by
  have hspacing := spacing_add hu (show rest < spacing u by omega)
  have hpos := spacing_pos u
  have hdiv : (u + rest) / spacing u = u / spacing u := by
    obtain ⟨k, hk⟩ := hu
    generalize spacing u = s at *
    subst hk
    rw [Nat.mul_add_div hpos, Nat.div_eq_of_lt (by omega), Nat.add_zero,
      Nat.mul_div_cancel_left k hpos]
  have hmod : (u + rest) % spacing u = rest := by
    rw [Nat.add_mod, Nat.mod_eq_zero_of_dvd hu, Nat.zero_add, Nat.mod_mod,
      Nat.mod_eq_of_lt (by omega)]
  rw [nearestUnits, Nat.div_one, hspacing, Nat.one_mul]
  simp only [roundQuotient, hdiv, hmod, if_pos h, Nat.div_mul_cancel hu]

theorem nearestUnits_self (hu : spacing u ∣ u) : nearestUnits u 1 = u := by
  have h : 2 * 0 < spacing u := spacing_pos u
  exact nearestUnits_add hu h

/-- Below the middle of the largest number and `2^1024`, nothing overflows. -/
theorem nearestUnits_lt_overflow (h : n < d * ((2 ^ 54 - 1) * 2 ^ 2044)) :
    nearestUnits n d < overflow := by
  have hd : 0 < d := Nat.pos_of_ne_zero fun h0 => by simp [h0] at h
  have hpow : overflow = 2 ^ 54 * 2 ^ 2044 := by rw [overflow_eq_two_pow, ← Nat.pow_add]
  have hq : n / d < overflow := by
    rw [hpow, Nat.div_lt_iff_lt_mul hd, Nat.mul_comm]
    refine Nat.lt_of_lt_of_le h (Nat.mul_le_mul_left d ?_)
    exact Nat.mul_le_mul_right _ (by decide)
  have hround := (two_mul_nearestUnits (n := n) hd).1
  have hspacing := Nat.mul_le_mul_left d (spacing_le hq)
  have hdouble : (2 : Nat) ^ 2045 = 2 * 2 ^ 2044 := by rw [Nat.pow_succ, Nat.mul_comm]
  rw [hdouble] at hspacing
  rw [hpow]
  generalize (2 : Nat) ^ 2044 = x at *
  refine Nat.lt_of_mul_lt_mul_left (a := d) ?_
  rw [show d * ((2 ^ 54 - 1) * x) = (2 ^ 54 - 1) * (d * x) by ring] at h
  rw [show d * (2 * x) = 2 * (d * x) by ring] at hspacing
  rw [show d * (2 ^ 54 * x) = 2 ^ 54 * (d * x) by ring]
  omega

/-- A quotient of 53 digits or more is off by one part in `2^53` at most. -/
theorem nearestUnits_relative (hd : 0 < d) (h : 2 ^ 52 * d ≤ n) :
    2 ^ 53 * (d * nearestUnits n d) ≤ (2 ^ 53 + 1) * n := by
  have hround := (two_mul_nearestUnits (n := n) hd).1
  have hspacing := spacing_mul_le ((Nat.le_div_iff_mul_le hd).mpr h)
  have hdiv := Nat.mul_div_le n d
  have hmul : d * spacing (n / d) * 2 ^ 52 ≤ n := by
    rw [Nat.mul_assoc]
    exact Nat.le_trans (Nat.mul_le_mul_left d hspacing) hdiv
  omega

end Uplink.Binary64

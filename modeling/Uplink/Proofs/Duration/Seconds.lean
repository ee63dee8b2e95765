import Uplink.Duration
import Uplink.Proofs.Binary64.Finite

/-! The seconds of a span are rounded three times, and still no number of the format lies between a
span and its seconds. What is less than the seconds of a span is therefore no more than the span,
also when it is rounded to nanoseconds. -/

namespace Uplink

namespace Duration

open Binary64 (one spacing nearestUnits OnGrid)

variable {secs nanos rest u v : Nat}

/-- The nanoseconds beyond the whole seconds, in seconds. -/
theorem fraction_eq_finite (h : nanos < 1000000000) : ∃ q onGrid,
    Binary64.ofNat nanos / .ofNat 1000000000 = .finite false q onGrid ∧
      ∀ v, spacing v ∣ v → nanos * one ≤ v * 1000000000 → q ≤ v := by
  have hle : nanos * one * one ≤ 1 * one * (1000000000 * one) := by
    rw [Nat.one_mul, Nat.mul_comm one, Nat.mul_right_comm]
    exact Nat.mul_le_mul_right one (Nat.mul_le_mul_right one (Nat.le_of_lt h))
  have hne : 1000000000 * one ≠ 0 := Nat.mul_ne_zero (by decide) (Nat.ne_of_gt Binary64.one_pos)
  obtain ⟨onGrid, heq⟩ := Binary64.ofQuotient_eq_finite false
    (Binary64.onGrid_mul_one (show 1 ≤ 2 ^ 53 by decide)) hle
  refine ⟨_, onGrid, ?_, fun v hv hnanos => ?_⟩
  · rw [Binary64.ofNat_of_le (show nanos ≤ 2 ^ 53 by omega),
      Binary64.ofNat_of_le (show 1000000000 ≤ 2 ^ 53 by decide),
      Binary64.div_finite _ _ hne, ← heq]
    rfl
  · refine Binary64.nearestUnits_le hv ?_
    rw [← Nat.mul_assoc]
    exact Nat.mul_le_mul_right one hnanos

/-- The sum of rounded whole seconds and a rounded fraction does not pass a number of the format
that the span does not pass. -/
theorem nearestUnits_sum_le (hnanos : nanos < 1000000000)
    (hrest : ∀ v, spacing v ∣ v → nanos * one ≤ v * 1000000000 → rest ≤ v)
    (hv : spacing v ∣ v) (h : (secs * 1000000000 + nanos) * one ≤ v * 1000000000) :
    nearestUnits (nearestUnits (secs * one) 1 + rest) 1 ≤ v := by
  have hsplit : secs * one * 1000000000 + nanos * one ≤ v * 1000000000 := by
    rwa [Nat.mul_right_comm, ← Nat.add_mul]
  have hfraction : nanos * one < one * 1000000000 := by
    rw [Nat.mul_comm one]
    exact Nat.mul_lt_mul_of_pos_right hnanos Binary64.one_pos
  have hwhole : secs * one ≤ v := by omega
  rcases Nat.le_total secs (2 ^ 53) with hsmall | hlarge
  · rw [Binary64.nearestUnits_self (Binary64.spacing_dvd_mul_one hsmall)]
    refine Binary64.nearestUnits_le hv ?_
    rw [Nat.mul_one]
    rcases Nat.lt_or_ge v (secs * one + one) with hnear | hfar
    · -- What `v` has beyond the whole seconds is a number of the format itself.
      have hgrid : spacing (v - secs * one) ∣ v - secs * one := by
        refine Nat.dvd_sub ?_ ?_
        · exact Nat.dvd_trans (Binary64.spacing_le_spacing (Nat.sub_le _ _)) hv
        · refine Nat.dvd_mul_left_of_dvd ?_ secs
          refine Nat.dvd_trans (Binary64.spacing_le_spacing (v := 1 * one) (by omega)) ?_
          have := Binary64.spacing_dvd_mul_one (show 1 ≤ 2 ^ 53 by decide)
          rwa [Nat.one_mul] at this ⊢
      have := hrest _ hgrid (by omega)
      omega
    · have := hrest (1 * one) (Binary64.spacing_dvd_mul_one (by decide)) (by omega)
      omega
  · -- Here whole seconds are rounded to even ones, and the fraction is too small to matter.
    have hle : nearestUnits (secs * one) 1 ≤ v := Binary64.nearestUnits_le hv (by omega)
    have hstart : 2 ^ 53 * one ≤ nearestUnits (secs * one) 1 := by
      rw [← Binary64.nearestUnits_self (Binary64.spacing_dvd_mul_one (Nat.le_refl _))]
      exact Binary64.nearestUnits_mono (Nat.mul_le_mul_right one hlarge)
    have hspacing := Binary64.two_mul_one_dvd_spacing hstart
    have hgrid := Binary64.spacing_dvd_nearestUnits (secs * one) 1
    generalize nearestUnits (secs * one) 1 = a at *
    have hlt : rest < one := by
      have hone : one = 2 ^ 34 * 2 ^ 1040 := by rw [Binary64.one_eq_two_pow, ← Nat.pow_add]
      have hpos := Nat.two_pow_pos 1040
      have hle := hrest ((2 ^ 34 - 1) * 2 ^ 1040)
        (Binary64.spacing_dvd_mul_two_pow 1040 (by decide))
      generalize (2 : Nat) ^ 1040 = x at *
      have := hle (by
        have := Nat.mul_le_mul_right one (Nat.le_sub_one_of_lt hnanos)
        omega)
      omega
    have hpos := Binary64.spacing_pos a
    have htwo := Nat.le_of_dvd hpos hspacing
    rw [Binary64.nearestUnits_add hgrid (by omega)]
    exact hle

theorem onGrid_limit : OnGrid (2 ^ 64 * one) := by
  rw [Binary64.two_pow_mul_one]
  exact Binary64.onGrid_two_pow (by decide)

/-- The seconds of a span are a finite number, and they pass no number of the format that the span
does not pass. -/
theorem toSeconds_eq_finite (d : Duration) : ∃ u onGrid, d.toSeconds = .finite false u onGrid ∧
    ∀ v, spacing v ∣ v → d.nanos * one ≤ v * 1000000000 → u ≤ v := by
  obtain ⟨q, _, hfraction, hq⟩ :=
    fraction_eq_finite (Nat.mod_lt d.nanos (show 0 < 1000000000 by decide))
  have hsecs : d.nanos / 1000000000 ≤ 2 ^ 64 := by
    have := d.inRange
    omega
  have hlimit := onGrid_limit
  obtain ⟨_, hwhole⟩ := Binary64.ofQuotient_eq_finite (d := 1) false hlimit
    (Nat.mul_one (2 ^ 64 * one) ▸ Nat.mul_le_mul_right one hsecs)
  have hsum : ∀ v, spacing v ∣ v → d.nanos * one ≤ v * 1000000000 →
      nearestUnits (nearestUnits (d.nanos / 1000000000 * one) 1 + q) 1 ≤ v := fun v hv h =>
    nearestUnits_sum_le (Nat.mod_lt _ (by decide)) hq hv (by rwa [Nat.div_add_mod'])
  have hlt :
      nearestUnits (nearestUnits (d.nanos / 1000000000 * one) 1 + q) 1 < Binary64.overflow := by
    refine Nat.lt_of_le_of_lt (hsum _ hlimit.2 ?_) hlimit.1
    rw [Nat.mul_right_comm]
    exact Nat.mul_le_mul_right one (Nat.le_of_lt d.inRange)
  refine ⟨_, Binary64.onGrid_nearestUnits hlt, ?_, hsum⟩
  rw [toSeconds, hfraction, Binary64.ofNat, hwhole, Binary64.add_finite, Binary64.ofQuotient,
    dif_pos hlt]

theorem le_antisymm {d e : Duration} (h : d ≤ e) (h' : e ≤ d) : d = e := by
  obtain ⟨n, hn⟩ := d
  obtain ⟨m, hm⟩ := e
  obtain rfl : n = m := Nat.le_antisymm h h'
  rfl

/-- Seconds below those of a span are converted to a span that is no longer. -/
theorem ofSeconds?_of_lt (d : Duration) (hu : OnGrid u)
    (h : d.toSeconds.le (.finite false u hu) = false) :
    ∃ e, ofSeconds? (.finite false u hu) = some e ∧ e ≤ d ∧
      e.nanos = (Binary64.finite false u hu).toNanos := by
  obtain ⟨v, hv, hseconds, hfar⟩ := d.toSeconds_eq_finite
  rw [hseconds, ← Bool.not_eq_true, Binary64.le_finite_false] at h
  have hnanos : (Binary64.finite false u hu).toNanos ≤ d.nanos := by
    refine Binary64.roundQuotient_le_of_le ?_
    by_contra hlt
    exact h (hfar u hu.2 (Nat.le_of_not_le hlt))
  refine ⟨⟨_, Nat.lt_of_le_of_lt hnanos d.inRange⟩, ?_, hnanos, rfl⟩
  have hzero : Binary64.zero.le (.finite false u hu) = true :=
    (Binary64.le_finite_false _ _).mpr (Nat.zero_le u)
  rw [ofSeconds?, if_pos ⟨rfl, hzero⟩, dif_pos (Nat.lt_of_le_of_lt hnanos d.inRange)]

/-- The seconds of a span are at most `2^64`. -/
theorem lt_limit_of_lt (d : Duration) (hu : OnGrid u)
    (h : d.toSeconds.le (.finite false u hu) = false) :
    (Binary64.finite false u hu).lt (.ofNat (2 ^ 64)) = true := by
  obtain ⟨v, hv, hseconds, hfar⟩ := d.toSeconds_eq_finite
  rw [hseconds, ← Bool.not_eq_true, Binary64.le_finite_false] at h
  have hle : v ≤ 2 ^ 64 * Binary64.one := by
    refine hfar _ onGrid_limit.2 ?_
    rw [Nat.mul_right_comm]
    exact Nat.mul_le_mul_right _ (Nat.le_of_lt d.inRange)
  rw [Binary64.ofNat_of_onGrid onGrid_limit, Binary64.lt_finite_false]
  omega

end Duration

end Uplink

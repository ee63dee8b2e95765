import Uplink.Proofs.Duration.Seconds
import Uplink.Proofs.Settings.Checks

/-! The wait before an attempt. It never exceeds the limit of its policy, whatever the policy, and
it never shrinks from one attempt to a later one, as long as the seconds of the later one do not
overflow: past that there is no wait at all. -/

namespace Uplink

namespace RetryPolicy

variable {p : RetryPolicy} {attempt a b : UInt32} {s : Binary64}

/-- The seconds before an attempt where they are converted to a span: where they neither stand for
no wait nor reach the limit. -/
def converted? (p : RetryPolicy) (attempt : UInt32) : Option Binary64 :=
  let s := p.seconds attempt
  if !s.isFinite || s.le .zero || p.maxDelay.toSeconds.le s then .none else some s

theorem converted?_eq_some : p.converted? attempt = some s ↔ p.seconds attempt = s ∧
    s.isFinite = true ∧ s.le .zero = false ∧ p.maxDelay.toSeconds.le s = false := by
  simp only [converted?]
  split
  · next h =>
    simp only [reduceCtorEq, false_iff]
    rintro ⟨rfl, hfinite, hpos, hlt⟩
    simp [hfinite, hpos, hlt] at h
  · next h =>
    simp only [Bool.or_eq_true, Bool.not_eq_true', not_or, Bool.not_eq_true, Bool.not_eq_false] at h
    constructor
    · rintro heq
      obtain rfl := Option.some.inj heq
      exact ⟨rfl, h.1.1, h.1.2, h.2⟩
    · rintro ⟨rfl, -⟩
      rfl

theorem delay?_of_converted (h : p.converted? attempt = some s) :
    p.delay? attempt = Duration.ofSeconds? s := by
  obtain ⟨rfl, hfinite, hpos, hlt⟩ := converted?_eq_some.mp h
  simp [delay?, hfinite, hpos, hlt]

theorem delay_of_converted (h : p.converted? attempt = some s) :
    Duration.ofSeconds? s = some (p.delay attempt) ∧ p.delay attempt ≤ p.maxDelay ∧
      (p.delay attempt).nanos = s.toNanos := by
  obtain ⟨-, hfinite, hpos, hlt⟩ := converted?_eq_some.mp h
  obtain ⟨u, hu, rfl, -⟩ := Binary64.eq_finite_of_positive hfinite hpos
  obtain ⟨e, he, hle, hnanos⟩ := p.maxDelay.ofSeconds?_of_lt hu hlt
  have hdelay : p.delay attempt = e := by rw [delay, delay?_of_converted h, he, Option.getD_some]
  rw [hdelay]
  exact ⟨he, hle, hnanos⟩

/-- Without a conversion there is no wait at all, or the longest. -/
theorem delay?_of_not_converted (h : p.converted? attempt = .none) :
    p.delay? attempt = some .zero ∨ p.delay? attempt = some p.maxDelay := by
  simp only [converted?] at h
  split at h
  · next hcases =>
    simp only [Bool.or_eq_true] at hcases
    simp only [delay?, Bool.or_eq_true]
    rcases hcases with hzero | hlimit
    · exact .inl (if_pos hzero)
    · by_cases hzero : (!(p.seconds attempt).isFinite) = true ∨ (p.seconds attempt).le .zero = true
      · exact .inl (if_pos hzero)
      · exact .inr (by rw [if_neg hzero, if_pos hlimit])
  · cases h

theorem delay_eq_zero (h : (p.seconds attempt).isFinite = false ∨
    (p.seconds attempt).le .zero = true) : p.delay attempt = .zero := by
  have hcases : (!(p.seconds attempt).isFinite || (p.seconds attempt).le .zero) = true := by
    rcases h with h | h <;> simp [h]
  rw [delay, delay?]
  simp only [hcases, if_true, Option.getD_some]

theorem delay_eq_maxDelay (hfinite : (p.seconds attempt).isFinite = true)
    (hpos : (p.seconds attempt).le .zero = false)
    (hlimit : p.maxDelay.toSeconds.le (p.seconds attempt) = true) :
    p.delay attempt = p.maxDelay := by
  simp [delay, delay?, hfinite, hpos, hlimit]

theorem delay?_eq_some_delay (p : RetryPolicy) (attempt : UInt32) :
    p.delay? attempt = some (p.delay attempt) := by
  cases hconverted : p.converted? attempt with
  | none =>
    rcases delay?_of_not_converted hconverted with h | h <;> rw [delay, h, Option.getD_some]
  | some s => exact (delay?_of_converted hconverted).trans (delay_of_converted hconverted).1

theorem delay_le_maxDelay (p : RetryPolicy) (attempt : UInt32) :
    p.delay attempt ≤ p.maxDelay := by
  cases hconverted : p.converted? attempt with
  | none =>
    rcases delay?_of_not_converted hconverted with h | h <;> rw [delay, h, Option.getD_some]
    · exact Nat.zero_le _
    · exact Nat.le_refl _
  | some s => exact (delay_of_converted hconverted).2.1

/-- There is a wait before every attempt, and none exceeds the limit; seconds that are converted to
a span are finite, positive and below `2^64`. -/
theorem delay_within_limit (p : RetryPolicy) (attempt : UInt32) :
    p.delay? attempt = some (p.delay attempt) ∧ p.delay attempt ≤ p.maxDelay ∧
      ∀ s ∈ p.converted? attempt, s.isFinite = true ∧ Binary64.zero.lt s = true ∧
        s.lt (.ofNat (2 ^ 64)) = true ∧ Duration.ofSeconds? s = some (p.delay attempt) := by
  refine ⟨delay?_eq_some_delay p attempt, delay_le_maxDelay p attempt, fun s hs => ?_⟩
  obtain ⟨-, hfinite, hpos, hlt⟩ := converted?_eq_some.mp hs
  obtain ⟨u, hu, rfl, hu0⟩ := Binary64.eq_finite_of_positive hfinite hpos
  exact ⟨rfl, (Binary64.lt_finite_false _ hu).mpr hu0, p.maxDelay.lt_limit_of_lt hu hlt,
    (delay_of_converted hs).1⟩

/-- A tenth of a second, half as much again, for the second time. -/
theorem delay_within_limit_fraction :
    let p : RetryPolicy := ⟨5, .ofMillis 100, .ofMillis 1000, .ofDecimal false 15 (-1)⟩
    ∃ s, p.converted? 2 = some s ∧ (s.isFinite = true ∧ Binary64.zero.lt s = true ∧
      s.lt (.ofNat (2 ^ 64)) = true ∧ Duration.ofSeconds? s = some (p.delay 2)) ∧
      p.delay 2 = .ofMillis 300 := by
  intro p
  have hconverted : p.converted? 2 = some (p.seconds 2) := by decide +kernel
  exact ⟨_, hconverted, (delay_within_limit p 2).2.2 _ hconverted, by decide +kernel⟩

/-- Seconds that are no less make the wait no shorter. -/
theorem delay_le_delay (ha : (p.seconds a).isFinite = true) (hb : (p.seconds b).isFinite = true)
    (hle : (p.seconds a).le (p.seconds b) = true) : p.delay a ≤ p.delay b := by
  cases hpos : (p.seconds a).le .zero with
  | true =>
    rw [delay_eq_zero (.inr hpos)]
    exact Nat.zero_le _
  | false =>
    obtain ⟨u, hu, hsa, hu0⟩ := Binary64.eq_finite_of_positive ha hpos
    have hposb := Binary64.le_zero_of_le ha hb hle hpos
    obtain ⟨v, hv, hsb, -⟩ := Binary64.eq_finite_of_positive hb hposb
    rw [hsa, hsb, Binary64.le_finite_false] at hle
    cases hlimit : p.maxDelay.toSeconds.le (p.seconds b) with
    | true =>
      rw [delay_eq_maxDelay hb hposb hlimit]
      exact delay_le_maxDelay p a
    | false =>
      have hlimita : p.maxDelay.toSeconds.le (p.seconds a) = false := by
        obtain ⟨w, hw, hseconds, -⟩ := p.maxDelay.toSeconds_eq_finite
        rw [hseconds, hsb, ← Bool.not_eq_true, Binary64.le_finite_false] at hlimit
        rw [hseconds, hsa, ← Bool.not_eq_true, Binary64.le_finite_false]
        omega
      have hwaita := delay_of_converted
        (converted?_eq_some.mpr ⟨hsa, hsa ▸ ha, hsa ▸ hpos, hsa ▸ hlimita⟩)
      have hwaitb := delay_of_converted
        (converted?_eq_some.mpr ⟨hsb, hsb ▸ hb, hsb ▸ hposb, hsb ▸ hlimit⟩)
      have hnanos := Binary64.toNanos_le_toNanos hu hv hle
      rw [← hwaita.2.2, ← hwaitb.2.2] at hnanos
      exact hnanos

/-- The seconds before all attempts under a factor that is finite and not negative: rounded
multiples of one magnitude, or else none of them is finite. -/
theorem seconds_eq (hfinite : p.backoffFactor.isFinite = true)
    (hfactor : Binary64.zero.le p.backoffFactor = true) :
    (∃ sign u, (sign = true → u = 0) ∧ ∀ attempt, p.seconds attempt =
      Binary64.ofQuotient sign (u * (attempt.toNat * Binary64.one)) Binary64.one) ∨
    ∀ attempt, (p.seconds attempt).isFinite = false := by
  obtain ⟨base, hbase, hseconds, -⟩ := p.baseDelay.toSeconds_eq_finite
  have hattempt (attempt : UInt32) : ∃ onGrid, Binary64.ofNat attempt.toNat =
      .finite false (attempt.toNat * Binary64.one) onGrid :=
    ⟨_, Binary64.ofNat_of_le (by have := attempt.toNat_lt; omega)⟩
  cases hf : p.backoffFactor with
  | nan => simp [hf, Binary64.isFinite] at hfinite
  | infinite => simp [hf, Binary64.isFinite] at hfinite
  | finite sign factor hgrid =>
    have hsign : sign = true → factor = 0 := by
      rintro rfl
      rw [hf, Binary64.zero, Binary64.le_finite] at hfactor
      have : (0 : Int) ≤ -factor := hfactor
      omega
    have hproduct : p.baseDelay.toSeconds * p.backoffFactor =
        Binary64.ofQuotient sign (base * factor) Binary64.one := by
      rw [hseconds, hf, Binary64.mul_finite, Bool.false_bne]
    by_cases hlt : Binary64.nearestUnits (base * factor) Binary64.one < Binary64.overflow
    · refine .inl ⟨sign, Binary64.nearestUnits (base * factor) Binary64.one, fun h => ?_,
        fun n => ?_⟩
      · rw [hsign h, Nat.mul_zero]
        exact Nat.le_zero.mp (Binary64.nearestUnits_le (Nat.dvd_zero _) (Nat.zero_le _))
      · obtain ⟨_, hn⟩ := hattempt n
        rw [seconds, hproduct, Binary64.ofQuotient, dif_pos hlt, hn, Binary64.mul_finite,
          Bool.bne_false]
    · refine .inr fun n => ?_
      obtain ⟨_, hn⟩ := hattempt n
      rw [seconds, hproduct, Binary64.ofQuotient, dif_neg hlt, hn]
      exact Binary64.isFinite_infinite_mul _

/-- The wait before an attempt is no shorter than that before an earlier one, and stays the longest
once it is, for settings that pass their check, as long as its seconds do not overflow; where they
do, there is no wait. -/
theorem delay_mono (settings : Settings) (hvalid : settings.validate = .ok ()) (hab : a ≤ b) :
    ((settings.retry.policy.seconds b).isFinite = true →
      settings.retry.policy.delay a ≤ settings.retry.policy.delay b ∧
        (settings.retry.policy.delay a = settings.retry.policy.maxDelay →
          settings.retry.policy.delay b = settings.retry.policy.maxDelay)) ∧
    ((settings.retry.policy.seconds b).isFinite = false →
      settings.retry.policy.delay b = .zero) := by
  obtain ⟨hfinite, hfactor⟩ := (Settings.validate_eq_ok_iff.mp hvalid).factor
  refine ⟨fun hb => ?_, fun hb => delay_eq_zero (.inl hb)⟩
  have hle : settings.retry.policy.delay a ≤ settings.retry.policy.delay b := by
    rcases seconds_eq (p := settings.retry.policy) hfinite hfactor with
      ⟨sign, u, hsign, hseconds⟩ | hnone
    · have hunits : u * (a.toNat * Binary64.one) ≤ u * (b.toNat * Binary64.one) :=
        Nat.mul_le_mul_left u (Nat.mul_le_mul_right _ (UInt32.le_iff_toNat_le.mp hab))
      have hsa : (settings.retry.policy.seconds a).isFinite = true ∧
          (settings.retry.policy.seconds a).le (settings.retry.policy.seconds b) = true := by
        rw [hseconds] at hb
        rw [hseconds, hseconds]
        exact Binary64.ofQuotient_mono hunits (fun h => by rw [hsign h, Nat.zero_mul]) hb
      exact delay_le_delay hsa.1 hb hsa.2
    · rw [hnone b] at hb
      cases hb
  refine ⟨hle, fun hmax => ?_⟩
  have hge := delay_le_maxDelay settings.retry.policy b
  rw [hmax] at hle
  exact Duration.le_antisymm hge hle

/-- The second attempt under the factor two waits longer than the first. -/
theorem delay_mono_default : Settings.validate {} = .ok () ∧ (1 : UInt32) ≤ 2 ∧
    ((RetrySettings.policy {}).delay 1 ≤ (RetrySettings.policy {}).delay 2 ∧
      (RetrySettings.policy {}).delay 1 = .ofMillis 2000 ∧
      (RetrySettings.policy {}).delay 2 = .ofMillis 4000) := by
  have hvalid : Settings.validate {} = .ok () := by decide +kernel
  have hlater : (1 : UInt32) ≤ 2 := by decide
  have hmono := (delay_mono {} hvalid hlater).1 (by decide +kernel)
  exact ⟨hvalid, hlater, hmono.1, by decide +kernel, by decide +kernel⟩

/-- Under a factor of `10^308`, the first attempt waits as long as it may, and the second not at
all: its seconds overflow. -/
theorem delay_shrinks_on_overflow :
    let settings : Settings := { retry := { backoffFactor := .ofDecimal false 1 308 } }
    settings.validate = .ok () ∧ settings.retry.policy.delay 1 = settings.retry.policy.maxDelay ∧
      settings.retry.policy.delay 2 = .zero ∧
      ¬ settings.retry.policy.delay 1 ≤ settings.retry.policy.delay 2 := by
  decide +kernel

end RetryPolicy

end Uplink

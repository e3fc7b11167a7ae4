import DnsMonitor.Monitor.Config
import DnsMonitor.Monitor.Round

namespace DnsMonitor.Monitor.Delay

open DnsMonitor.Model DnsMonitor.Store.Schema DnsMonitor.Store.Rounds
open DnsMonitor.Monitor.Config DnsMonitor.Monitor.Round
open DnsMonitor.Go.Errors DnsMonitor.Go.Float DnsMonitor.Go.Time
open DnsMonitor.Go.Unicode

section

variable {F : Type} [GoFloat F]

def backoff64 (ceiling : Int) : Nat → Int → Int
  | 0, delay => delay
  | n + 1, delay =>
    if delay < ceiling then
      let delay := int64 (delay * 2)
      backoff64 ceiling n (if ceiling < delay then ceiling else delay)
    else delay

def nextDelay64 (c : Config F) (failures previousFailures : Int) (jitter : F) : Int :=
  let base := int64 (c.intervalSeconds * second)
  let ceiling := GoFloat.trunc (c.maxBackoffHours * ofInt hour)
  let ceiling := if ceiling < base then base else ceiling
  let delay :=
    if c.smartBackoff ∧ ofInt 0 < c.maxBackoffHours ∧ 3 ≤ failures then
      backoff64 ceiling (failures - 2).toNat base
    else base
  let delay :=
    if failures = 0 ∧ 3 ≤ previousFailures ∧ 30 * second < delay then 30 * second else delay
  let delay := GoFloat.trunc (ofInt delay * jitter)
  if delay < 5 * second then 5 * second else delay

def baseDelay (c : Config F) : Int := c.intervalSeconds * second

def ceilingDelay (c : Config F) : Int :=
  max (baseDelay c) (GoFloat.trunc (c.maxBackoffHours * ofInt hour))

def failureDelay (c : Config F) (failures : Int) : Int :=
  if c.smartBackoff ∧ ofInt 0 < c.maxBackoffHours ∧ 3 ≤ failures then
    min (ceilingDelay c) (baseDelay c * 2 ^ (failures - 2).toNat)
  else baseDelay c

/-- A server that has recovered is probed again soon. -/
def plannedDelay (c : Config F) (failures previousFailures : Int) : Int :=
  if failures = 0 ∧ 3 ≤ previousFailures then min (30 * second) (failureDelay c failures)
  else failureDelay c failures

/-- Doubling up to the ceiling is one power of two. -/
theorem backoff_eq {ceiling delay : Int} (h : 0 ≤ delay) (hc : delay ≤ ceiling) (n : Nat) :
    backoff ceiling n delay = min ceiling (delay * 2 ^ n) := by
  induction n generalizing delay with
  | zero => simp [backoff, hc]
  | succ n ih =>
    rw [backoff, pow_succ']
    by_cases hlt : delay < ceiling
    · rw [if_pos hlt, ih (by omega) (min_le_right _ _)]
      cases le_total (delay * 2) ceiling with
      | inl hle => rw [min_eq_left hle, mul_assoc]
      | inr hle =>
        have hpow : (1 : Int) ≤ 2 ^ n := one_le_pow₀ (by norm_num)
        have hn : ceiling ≤ ceiling * 2 ^ n := le_mul_of_one_le_right (by omega) hpow
        have hm : ceiling * 2 ^ n ≤ delay * 2 * 2 ^ n := by gcongr
        rw [min_eq_right hle, min_eq_left hn, ← mul_assoc, min_eq_left (hn.trans hm)]
    · obtain rfl : delay = ceiling := by omega
      have hpow : (1 : Int) ≤ 2 * 2 ^ n := by
        have := one_le_pow₀ (n := n) (show (1 : Int) ≤ 2 by norm_num)
        omega
      rw [if_neg hlt, min_eq_left (le_mul_of_one_le_right h hpow)]

theorem backoff64_eq {ceiling delay : Int} (h : 0 ≤ delay) (hc : ceiling < 2 ^ 62) (n : Nat) :
    backoff64 ceiling n delay = backoff ceiling n delay := by
  induction n generalizing delay with
  | zero => rfl
  | succ n ih =>
    rw [backoff64, backoff]
    by_cases hlt : delay < ceiling
    · have hfits : int64 (delay * 2) = delay * 2 := int64_of_fits (by omega) (by omega)
      have hmin : (if ceiling < delay * 2 then ceiling else delay * 2) =
          min (delay * 2) ceiling := by
        split_ifs <;> omega
      simp only [if_pos hlt, hfits, hmin]
      exact ih (by omega)
    · rw [if_neg hlt, if_neg hlt]

structure Limited (c : Config F) : Prop where
  interval : 5 ≤ c.intervalSeconds ∧ c.intervalSeconds ≤ 86400
  backoff : ofInt 0 ≤ c.maxBackoffHours ∧ c.maxBackoffHours ≤ ofInt 24

section

variable [LinearFloat F]

theorem isNaN_ofInt {n : Int} (h : |n| < 2 ^ 53) : GoFloat.isNaN (ofInt n : F) = false :=
  OrderedFloat.isNaN_of_lt (ofInt (n - 1)) _ ((ofInt_lt h).mpr (by omega))

theorem limited_of_validateConfig [CaseTables] {c c' : Config F}
    (h : validateConfig c = .ok c') : Limited c' := by
  obtain ⟨listen, domains, _, hlimits, _, rfl⟩ := validateConfig_eq_ok.mp h
  simp only [validateLimits, bind_eq_ok, require_eq_ok] at hlimits
  obtain ⟨_, hinterval, _, _, _, _, _, hbackoff, _⟩ := hlimits
  simp only [not_or, Bool.not_eq_true] at hbackoff
  obtain ⟨hnan, -, hlow, hhigh⟩ := hbackoff
  refine ⟨by dsimp only; omega, ?_, ?_⟩
  · exact LinearFloat.le_of_not_lt _ _ hnan (isNaN_ofInt (by norm_num)) hlow
  · exact LinearFloat.le_of_not_lt _ _ (isNaN_ofInt (by norm_num)) hnan hhigh

/-- The longest backoff, a day, is a number of nanoseconds that the conversions keep. -/
theorem Limited.trunc_backoff {c : Config F} (h : Limited c) :
    0 ≤ GoFloat.trunc (c.maxBackoffHours * ofInt hour) ∧
      GoFloat.trunc (c.maxBackoffHours * ofInt hour) ≤ 24 * hour := by
  have hlow := OrderedFloat.mul_le_mul _ _ hour (by decide) (by decide) h.backoff.1
  have hhigh := OrderedFloat.mul_le_mul _ _ hour (by decide) (by decide) h.backoff.2
  rw [mul_ofInt (by decide) (by decide) (by decide) (by decide)] at hlow hhigh
  have hday : (24 * hour : Int) ≤ 2 ^ 53 := by decide
  have hzero : (ofInt 0 : F) ≤ ofInt 0 := OrderedFloat.ofInt_le 0 0 (by norm_num) le_rfl
  constructor
  · have h0 := OrderedFloat.trunc_le _ _ (24 * hour) hday hzero hlow hhigh
    rwa [OrderedFloat.trunc_ofInt 0 (by norm_num)] at h0
  · have h24 := OrderedFloat.trunc_le _ _ (24 * hour) hday hlow hhigh
      (OrderedFloat.ofInt_le _ _ (by decide) le_rfl)
    rwa [OrderedFloat.trunc_ofInt _ (by decide)] at h24

omit [LinearFloat F] in
theorem Limited.base {c : Config F} (h : Limited c) :
    5 * second ≤ baseDelay c ∧ baseDelay c ≤ 24 * hour := by
  have hi := h.interval
  simp only [baseDelay, second, hour, minute]
  omega

theorem Limited.ceiling {c : Config F} (h : Limited c) : ceilingDelay c ≤ 24 * hour :=
  max_le h.base.2 h.trunc_backoff.2

end

theorem base_le_failureDelay {c : Config F} (h : 0 ≤ baseDelay c) (failures : Int) :
    baseDelay c ≤ failureDelay c failures := by
  rw [failureDelay]
  split_ifs
  · exact le_min (le_max_left _ _) (le_mul_of_one_le_right h (one_le_pow₀ (by norm_num)))
  · exact le_rfl

theorem failureDelay_le_ceiling (c : Config F) (failures : Int) :
    failureDelay c failures ≤ ceilingDelay c := by
  rw [failureDelay]
  split_ifs
  · exact min_le_left _ _
  · exact le_max_left _ _

theorem failureDelay_mono {c : Config F} (h : 0 ≤ baseDelay c) {failures failures' : Int}
    (hle : failures ≤ failures') : failureDelay c failures ≤ failureDelay c failures' := by
  by_cases hf : c.smartBackoff ∧ ofInt 0 < c.maxBackoffHours ∧ 3 ≤ failures
  · obtain ⟨hs, hm, h3⟩ := hf
    have hpow : (2 : Int) ^ (failures - 2).toNat ≤ 2 ^ (failures' - 2).toNat :=
      pow_le_pow_right₀ (by norm_num) (by omega)
    rw [failureDelay, failureDelay, if_pos ⟨hs, hm, h3⟩, if_pos ⟨hs, hm, h3.trans hle⟩]
    exact min_le_min le_rfl (mul_le_mul_of_nonneg_left hpow h)
  · rw [failureDelay, if_neg hf]
    exact base_le_failureDelay h failures'

theorem plannedDelay_le_failureDelay (c : Config F) (failures previousFailures : Int) :
    plannedDelay c failures previousFailures ≤ failureDelay c failures := by
  rw [plannedDelay]
  split_ifs
  · exact min_le_right _ _
  · exact le_rfl

/-- Only the first delay after a recovery is capped, so the cap keeps the order. -/
theorem plannedDelay_mono {c : Config F} (h : 0 ≤ baseDelay c)
    {failures failures' previous previous' : Int} (h0 : 0 ≤ failures) (hle : failures ≤ failures')
    (hp : 3 ≤ previous ↔ 3 ≤ previous') :
    plannedDelay c failures previous ≤ plannedDelay c failures' previous' := by
  by_cases hf : failures' = 0 ∧ 3 ≤ previous'
  · obtain rfl : failures = failures' := by omega
    rw [plannedDelay, plannedDelay, if_pos hf, if_pos ⟨hf.1, hp.mpr hf.2⟩]
  · rw [plannedDelay.eq_1 c failures', if_neg hf]
    exact (plannedDelay_le_failureDelay c failures previous).trans (failureDelay_mono h hle)

theorem plannedDelay_pos {c : Config F} (h : 0 < baseDelay c) (failures previous : Int) :
    0 < plannedDelay c failures previous := by
  have hf : 0 < failureDelay c failures := h.trans_le (base_le_failureDelay h.le failures)
  rw [plannedDelay]
  split_ifs
  · exact lt_min (by decide) hf
  · exact hf

theorem backoff_base {c : Config F} (h : 0 ≤ baseDelay c) (failures : Int) :
    (if c.smartBackoff ∧ ofInt 0 < c.maxBackoffHours ∧ 3 ≤ failures then
      backoff (ceilingDelay c) (failures - 2).toNat (baseDelay c)
    else baseDelay c) = failureDelay c failures := by
  have hle : baseDelay c ≤ ceilingDelay c := le_max_left _ _
  rw [backoff_eq h hle]
  rfl

theorem capped_eq (c : Config F) (failures previous : Int) :
    (if failures = 0 ∧ 3 ≤ previous ∧ 30 * second < failureDelay c failures then 30 * second
    else failureDelay c failures) = plannedDelay c failures previous := by
  rw [plannedDelay]
  split_ifs <;> omega

theorem nextDelay_eq {c : Config F} (h : 0 ≤ baseDelay c) (failures previous : Int) (jitter : F) :
    nextDelay c failures previous jitter =
      max (5 * second) (GoFloat.trunc (ofInt (plannedDelay c failures previous) * jitter)) := by
  rw [← capped_eq, ← backoff_base h]
  rfl

theorem five_seconds_le (c : Config F) (failures previous : Int) (jitter : F) :
    5 * second ≤ nextDelay c failures previous jitter := le_max_left _ _

section

variable [LinearFloat F]

theorem nextDelay64_eq {c : Config F} (h : Limited c) (failures previous : Int) (jitter : F) :
    nextDelay64 c failures previous jitter = nextDelay c failures previous jitter := by
  have hbase := h.base
  have hceiling := h.ceiling
  have hfits : int64 (c.intervalSeconds * second) = baseDelay c := by
    apply int64_of_fits
    · exact le_trans (by decide) hbase.1
    · exact hbase.2.trans_lt (by decide)
  have hmax : ∀ a b : Int, (if a < b then b else a) = max b a := by
    intro a b
    split_ifs <;> omega
  have hloop : backoff64 (ceilingDelay c) (failures - 2).toNat (baseDelay c) =
      backoff (ceilingDelay c) (failures - 2).toNat (baseDelay c) :=
    backoff64_eq (le_trans (by decide) hbase.1) (hceiling.trans_lt (by decide)) _
  simp only [nextDelay64, hfits, hmax]
  rw [← ceilingDelay, hloop]
  rfl

theorem jittered_le {delay : Int} {jitter : F} (h : 0 < delay) (hd : delay ≤ 24 * hour)
    (hlow : GoFloat.ofRat (9 / 10) ≤ jitter) (hhigh : jitter < ofInt 1) :
    GoFloat.trunc (ofInt delay * jitter) ≤ delay := by
  have hbound : delay ≤ 2 ^ 53 := hd.trans (by decide)
  have habs : |delay| ≤ 2 ^ 53 := by rwa [abs_of_pos h]
  have h0 : (ofInt 0 : F) ≤ jitter :=
    OrderedFloat.le_trans _ _ _ (LinearFloat.ofRat_le _ _ (by norm_num)) hlow
  have hl := OrderedFloat.mul_le_mul _ _ delay h hbound h0
  have hr := OrderedFloat.mul_le_mul _ _ delay h hbound (OrderedFloat.le_of_lt _ _ hhigh)
  rw [mul_ofInt le_rfl h hbound (by simp), zero_mul] at hl
  rw [mul_ofInt (by decide) h hbound (by rwa [one_mul]), one_mul] at hr
  have ht := OrderedFloat.trunc_le _ _ delay hbound hl hr
    (OrderedFloat.ofInt_le _ _ habs le_rfl)
  rw [OrderedFloat.trunc_ofInt _ habs] at ht
  rwa [LinearFloat.mul_comm]

/-- For an accepted configuration a delay is the jittered plan, from five seconds to the ceiling,
computed without an overflow; the plan grows with the failures, and a round built by `runRound`
is always due after it has finished. -/
theorem nextDelay_accepted [CaseTables] {c c' : Config F} (h : validateConfig c = .ok c') :
    (∀ (failures previous : Int) (jitter : F), 0 ≤ failures → 0 ≤ previous →
      GoFloat.ofRat (9 / 10) ≤ jitter → jitter < ofInt 1 →
      nextDelay64 c' failures previous jitter =
          max (5 * second) (GoFloat.trunc (ofInt (plannedDelay c' failures previous) * jitter)) ∧
        nextDelay64 c' failures previous jitter = nextDelay c' failures previous jitter ∧
        5 * second ≤ nextDelay c' failures previous jitter ∧
        nextDelay c' failures previous jitter ≤ ceilingDelay c') ∧
      (∀ failures failures' previous previous' : Int, 0 ≤ failures → failures ≤ failures' →
        (3 ≤ previous ↔ 3 ≤ previous') →
        plannedDelay c' failures previous ≤ plannedDelay c' failures' previous') ∧
      ∀ (server : Server) (previous : Int) (w : World F),
        let round := finishedRound server c' previous w
        round.finishedAt < round.nextDue ∧ (checkRound round = .ok () ↔
          0 < round.serverID ∧ 0 < round.startedAt ∧ round.startedAt ≤ round.finishedAt) := by
  have hl := limited_of_validateConfig h
  have hbase : 0 < baseDelay c' := lt_of_lt_of_le (by decide) hl.base.1
  have hdue : ∀ (server : Server) (previous : Int) (w : World F),
      (finishedRound server c' previous w).finishedAt <
        (finishedRound server c' previous w).nextDue := by
    intro server previous w
    have hfive := five_seconds_le c' (countFailures (roundResults server c' w) w.cancelled previous)
      previous w.jitter
    simp only [finishedRound, completed, second, millisecond] at hfive ⊢
    omega
  refine ⟨?_, fun f f' p p' h0 hle hp => plannedDelay_mono hbase.le h0 hle hp, ?_⟩
  · intro failures previous jitter _ _ hlow hhigh
    have hplan : plannedDelay c' failures previous ≤ ceilingDelay c' :=
      (plannedDelay_le_failureDelay c' failures previous).trans (failureDelay_le_ceiling c' failures)
    have hjitter := jittered_le (plannedDelay_pos hbase failures previous)
      (hplan.trans hl.ceiling) hlow hhigh
    refine ⟨?_, nextDelay64_eq hl failures previous jitter, five_seconds_le c' _ _ jitter, ?_⟩
    · rw [nextDelay64_eq hl, nextDelay_eq hbase.le]
    · rw [nextDelay_eq hbase.le]
      exact max_le (hl.base.1.trans (le_max_left _ _)) (hjitter.trans hplan)
  · intro server previous w
    have hlt := hdue server previous w
    refine ⟨hlt, ?_⟩
    rw [checkRound, require_eq_ok]
    constructor
    · intro hc
      omega
    · intro hc
      omega

end

end

section

local instance : CaseTables := asciiTables

theorem nextDelay_accepted_default : ∃ c : Config ℚ, validateConfig defaultConfig = .ok c ∧
    nextDelay64 c 20 19 (95 / 100) = 57 * minute ∧
      nextDelay64 c 0 20 (95 / 100) = 28500 * millisecond := by
  have h : validateConfig (defaultConfig : Config ℚ) = .ok defaultConfig := by decide +kernel
  obtain ⟨hdelay, -⟩ := nextDelay_accepted h
  have hlow : (GoFloat.ofRat (9 / 10) : ℚ) ≤ 95 / 100 := by decide +kernel
  have hhigh : (95 / 100 : ℚ) < ofInt 1 := by decide +kernel
  refine ⟨defaultConfig, h, ?_, ?_⟩
  · rw [(hdelay 20 19 _ (by decide) (by decide) hlow hhigh).1]
    decide +kernel
  · rw [(hdelay 0 20 _ (by decide) (by decide) hlow hhigh).1]
    decide +kernel

end

end DnsMonitor.Monitor.Delay

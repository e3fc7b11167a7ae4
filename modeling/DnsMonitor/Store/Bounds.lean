import DnsMonitor.Store.Agreement
import DnsMonitor.Store.Grading
import Mathlib.Tactic.Linarith

namespace DnsMonitor.Store.Bounds

open DnsMonitor.Model DnsMonitor.Lib DnsMonitor.Lib.Tables DnsMonitor.Store.Schema
open DnsMonitor.Store.Current DnsMonitor.Store.Rounds DnsMonitor.Store.Migration
open DnsMonitor.Store.Run DnsMonitor.Store.WellFormed DnsMonitor.Store.Aggregates
open DnsMonitor.Store.Summary DnsMonitor.Store.Spacing DnsMonitor.Store.History
open DnsMonitor.Store.Agreement DnsMonitor.Store.Grading DnsMonitor.Monitor.Config
open DnsMonitor.Go.Strings DnsMonitor.Go.Unicode DnsMonitor.Go.Errors DnsMonitor.Go.Float

section

def Percent (limit x : ℚ) : Prop := 0 ≤ x ∧ x ≤ limit

structure Bounded (limit : ℚ) (m : Metrics ℚ) : Prop where
  availability : Percent 100 m.availability
  successRate : Percent 100 m.successRate
  coverage : Percent 100 m.coverage
  score : Percent limit m.score

structure Sound (a : Accumulator ℚ) : Prop where
  successes_nonneg : 0 ≤ a.successes
  successes_le : a.successes ≤ a.samples
  available_nonneg : 0 ≤ a.available
  available_le : a.available ≤ a.covered
  fallback : Percent 100 a.availability

structure Weighted (w : RatingWeights ℚ) : Prop where
  availability : 0 ≤ w.availability
  successRate : 0 ≤ w.successRate
  latency : 0 ≤ w.latency

def total (w : RatingWeights ℚ) : ℚ := w.availability + w.successRate + w.latency

variable {a : Accumulator ℚ} {w : RatingWeights ℚ}

theorem percent_of_le {part whole : ℚ} (hpart : 0 ≤ part) (hle : part ≤ whole) (hpos : 0 < whole) :
    Percent 100 (100 * part / whole) := by
  constructor
  · positivity
  · rw [div_le_iff₀ hpos]
    linarith

theorem availabilityRate_percent (h : Sound a) : Percent 100 a.availabilityRate := by
  rw [Accumulator.availabilityRate]
  split_ifs with hpos
  · exact percent_of_le h.available_nonneg h.available_le hpos
  · exact h.fallback

theorem successRate_percent (h : Sound a) : Percent 100 a.successRate := by
  rw [Accumulator.successRate]
  split_ifs with hpos
  · exact percent_of_le (Int.cast_nonneg h.successes_nonneg) (Int.cast_le.mpr h.successes_le)
      (Int.cast_pos.mpr hpos)
  · exact ⟨le_rfl, by decide⟩

theorem latencyScore_percent (a : Accumulator ℚ) : Percent 100 a.latencyScore := by
  rw [Accumulator.latencyScore]
  by_cases hnone : a.latencyCount = 0
  · rw [if_pos hnone]
    exact ⟨le_rfl, by decide⟩
  · rw [if_neg hnone]
    exact ⟨le_max_left _ _, max_le (by decide) (min_le_left _ _)⟩

theorem score_percent (h : Sound a) (hw : Weighted w) : Percent (100 * total w) (a.score w) := by
  obtain ⟨ha, ha'⟩ := availabilityRate_percent h
  obtain ⟨hs, hs'⟩ := successRate_percent h
  obtain ⟨hl, hl'⟩ := latencyScore_percent a
  rw [Accumulator.score]
  constructor
  · exact add_nonneg (add_nonneg (mul_nonneg hw.availability ha) (mul_nonneg hw.successRate hs))
      (mul_nonneg hw.latency hl)
  · calc w.availability * a.availabilityRate + w.successRate * a.successRate +
          w.latency * a.latencyScore
        ≤ w.availability * 100 + w.successRate * 100 + w.latency * 100 :=
          add_le_add (add_le_add (mul_le_mul_of_nonneg_left ha' hw.availability)
            (mul_le_mul_of_nonneg_left hs' hw.successRate))
            (mul_le_mul_of_nonneg_left hl' hw.latency)
      _ = 100 * total w := by rw [total]; ring

theorem total_nonneg (hw : Weighted w) : 0 ≤ total w :=
  add_nonneg (add_nonneg hw.availability hw.successRate) hw.latency

theorem finish_bounded (h : Sound a) (hw : Weighted w) (window minSamples minCoverageMS : Int) :
    Bounded (100 * total w) (finishWithThresholds a window minSamples minCoverageMS w) where
  availability := availabilityRate_percent h
  successRate := successRate_percent h
  coverage := by
    have hcovered : 0 ≤ a.covered := h.available_nonneg.trans h.available_le
    rw [finishWithThresholds]
    dsimp only
    split_ifs with hpos
    · have hwindow : (0 : ℚ) < window := Int.cast_pos.mpr hpos
      refine ⟨le_min (by decide) ?_, min_le_left _ _⟩
      exact div_nonneg (mul_nonneg (by decide) hcovered) hwindow.le
    · exact ⟨le_rfl, by decide⟩
  score := by
    rw [finishWithThresholds]
    dsimp only
    split_ifs
    · exact ⟨le_rfl, mul_nonneg (by decide) (total_nonneg hw)⟩
    · exact score_percent h hw

theorem finishForServer_bounded (h : Sound a) (hw : Weighted w) (window : Int) (trusted : Bool) :
    Bounded (100 * total w) (finishForServer a window trusted w) := by
  rw [finishForServer]
  split_ifs
  · refine finish_bounded ⟨?_, ?_, ?_, ?_, ?_⟩ hw window 10 _
    · exact h.successes_nonneg
    · exact h.successes_le
    · exact h.available_nonneg
    · exact h.available_le
    · exact h.fallback
  · exact finish_bounded h hw window 10 _

theorem adjust_bounded {limit : ℚ} (hlimit : 0 ≤ limit) (unreachable : Bool) (server : Server)
    (config : Config ℚ) (a : Accumulator ℚ) {value : CurrentEvaluation ℚ}
    (h : Bounded limit value.metrics) :
    Bounded limit (adjust unreachable server config a value).metrics := by
  obtain ⟨havailability, hsuccess, hcoverage, hscore⟩ := h
  unfold adjust
  split_ifs
  · exact ⟨havailability, hsuccess, hcoverage, le_rfl, hlimit⟩
  all_goals exact ⟨havailability, hsuccess, hcoverage, hscore⟩

end

section

variable {db : DB ℚ} {serverID since now : Int}

/-- Of the results of a round at most all were received, and at most all were a success. -/
def Plausible (r : RoundRow ℚ) : Prop := r.received ≤ r.samples ∧ r.successes ≤ r.samples

theorem countIn_nonneg (count : RoundRow ℚ → Nat) (rows : List (RoundRow ℚ)) :
    0 ≤ countIn since count rows := by
  apply List.sum_nonneg
  intro x hx
  obtain ⟨r, _, rfl⟩ := List.mem_map.mp hx
  split_ifs
  · exact Int.natCast_nonneg _
  · exact le_rfl

theorem countIn_le {count bound : RoundRow ℚ → Nat} {rows : List (RoundRow ℚ)}
    (h : ∀ r ∈ rows, count r ≤ bound r) : countIn since count rows ≤ countIn since bound rows := by
  apply List.sum_le_sum
  intro r hr
  split_ifs
  · exact Int.ofNat_le.mpr (h r hr)
  · exact le_rfl

theorem sound_summary (h : ∀ r ∈ db.rounds, Plausible r) :
    Sound (summaryAccumulator db serverID since now) := by
  have hrows : ∀ r ∈ scan db serverID since now, Plausible r := by
    intro r hr
    exact h r (mem_formal.mp (List.mem_filter.mp hr).1).1
  obtain ⟨hlow, hhigh⟩ := available_sum_le since now fun r hr => (hrows r hr).1
  exact ⟨countIn_nonneg _ _, countIn_le fun r hr => (hrows r hr).2, hlow, hhigh, le_rfl,
    show (0 : ℚ) ≤ 100 by decide⟩

theorem mem_eligible {r : RoundRow ℚ} (hr : r ∈ eligible db serverID since now) : r ∈ db.rounds := by
  cases List.mem_append.mp hr with
  | inl hr => exact (mem_formal.mp (mem_windowRounds.mp hr).1).1
  | inr hr =>
    unfold crossingRound at hr
    split at hr
    · next q hq =>
      have hmem := (List.mem_filter.mp (latest_eq_some hq).1).1
      split_ifs at hr
      · rw [List.mem_singleton.mp hr]
        exact (mem_formal.mp hmem).1
      · cases hr
    · cases hr

theorem sound_accumulate (h : ∀ r ∈ db.rounds, Plausible r) (server : Server) :
    Sound (accumulate db server since now) := by
  have hrows : ∀ r ∈ eligible db server.id since now, Plausible r :=
    fun r hr => h r (mem_eligible hr)
  obtain ⟨hlow, hhigh⟩ := available_sum_le since now fun r hr => (hrows r hr).1
  refine ⟨countIn_nonneg _ _, countIn_le fun r hr => (hrows r hr).2, hlow, hhigh, ?_⟩
  rw [accumulate]
  dsimp only
  split_ifs with hnone
  · exact percent_of_le (Int.cast_nonneg (countIn_nonneg _ _))
      (Int.cast_le.mpr (countIn_le fun r hr => (hrows r hr).1)) (Int.cast_pos.mpr hnone.2)
  · exact ⟨le_rfl, by decide⟩

end

section

variable {db : DB ℚ} {serverID since now width count : Int}

theorem sound_empty : Sound (emptyAccumulator : Accumulator ℚ) :=
  ⟨le_rfl, le_rfl, le_rfl, le_rfl, le_rfl, by decide⟩

theorem sound_addCounts {a : Accumulator ℚ} (h : Sound a) {r : RoundRow ℚ} (hr : Plausible r) :
    Sound (addCounts r a) where
  successes_nonneg := add_nonneg h.successes_nonneg (Int.natCast_nonneg _)
  successes_le := add_le_add h.successes_le (Int.ofNat_le.mpr hr.2)
  available_nonneg := h.available_nonneg
  available_le := h.available_le
  fallback := h.fallback

theorem ratio_bounds {r : RoundRow ℚ} (hr : Plausible r) : 0 ≤ ratio r ∧ ratio r ≤ 1 := by
  have hsamples : (0 : ℚ) < (max (r.samples : Int) 1 : Int) :=
    Int.cast_pos.mpr (lt_of_lt_of_le one_pos (le_max_right _ _))
  constructor
  · exact div_nonneg (Int.cast_nonneg (Int.natCast_nonneg _)) hsamples.le
  · exact (div_le_one hsamples).mpr
      (Int.cast_le.mpr ((Int.ofNat_le.mpr hr.1).trans (le_max_left _ _)))

theorem sound_addTime {a : Accumulator ℚ} (h : Sound a) {d : Int} (hd : 0 ≤ d) {share : ℚ}
    (hshare : 0 ≤ share ∧ share ≤ 1) : Sound (addTime d share a) where
  successes_nonneg := h.successes_nonneg
  successes_le := h.successes_le
  available_nonneg := add_nonneg h.available_nonneg (mul_nonneg (Int.cast_nonneg hd) hshare.1)
  available_le := add_le_add h.available_le (mul_le_of_le_one_right (Int.cast_nonneg hd) hshare.2)
  fallback := h.fallback

theorem sound_modify {f : Accumulator ℚ → Accumulator ℚ} (hf : ∀ a, Sound a → Sound (f a))
    {points : List (Accumulator ℚ)} (h : ∀ a ∈ points, Sound a) (i : Nat) :
    ∀ a ∈ points.modify i f, Sound a := by
  induction points generalizing i with
  | nil => simp
  | cons p points ih =>
    obtain ⟨hp, hpoints⟩ := List.forall_mem_cons.mp h
    cases i with
    | zero => exact List.forall_mem_cons.mpr ⟨hf p hp, hpoints⟩
    | succ i => exact List.forall_mem_cons.mpr ⟨hp, ih hpoints i⟩

theorem sound_spread {share : ℚ} (hshare : 0 ≤ share ∧ share ≤ 1) (start stop : Int) (n : Nat)
    (i : Int) {points : List (Accumulator ℚ)} (h : ∀ a ∈ points, Sound a) :
    ∀ a ∈ spread since width start stop share n i points, Sound a := by
  induction n generalizing i points with
  | zero => exact h
  | succ n ih =>
    rw [spread]
    split_ifs
    · exact h
    · apply ih
      rw [giveTime]
      split_ifs with hd
      · exact sound_modify (fun a ha => sound_addTime ha hd.le hshare) h _
      · exact h

def AllSound (s : Sums ℚ) : Prop := Sound s.total ∧ ∀ a ∈ s.points, Sound a

theorem sound_addRow {s s' : Sums ℚ} (h : AllSound s) {r : RoundRow ℚ} (hr : Plausible r)
    (hs : addRow since now width count s r = .ok s') : AllSound s' := by
  rw [addRow, bind_eq_ok] at hs
  obtain ⟨s₁, h₁, hs⟩ := hs
  rw [pure_eq_ok] at hs
  have hcounted : AllSound s₁ := by
    simp only [countRow] at h₁
    split_ifs at h₁
    · rw [← Except.ok.inj h₁]
      exact ⟨sound_addCounts h.1 hr, sound_modify (fun a ha => sound_addCounts ha hr) h.2 _⟩
    · rw [← Except.ok.inj h₁]
      exact h
  rw [← hs, spreadRow]
  dsimp only
  split_ifs with hempty
  · exact hcounted
  · exact ⟨sound_addTime hcounted.1 (by omega) (ratio_bounds hr),
      sound_spread (ratio_bounds hr) _ _ _ _ hcounted.2⟩

theorem sound_rows {rows : List (RoundRow ℚ)} (hrows : ∀ r ∈ rows, Plausible r) {s s' : Sums ℚ}
    (h : AllSound s) (hs : rows.foldlM (addRow since now width count) s = .ok s') :
    AllSound s' := by
  induction rows generalizing s with
  | nil =>
    rw [List.foldlM_nil, pure_eq_ok] at hs
    exact hs ▸ h
  | cons r rows ih =>
    obtain ⟨hr, hrows⟩ := List.forall_mem_cons.mp hrows
    rw [List.foldlM_cons, bind_eq_ok] at hs
    obtain ⟨s₁, h₁, hs⟩ := hs
    exact ih hrows (sound_addRow h hr h₁) hs

theorem sound_buckets {a : Accumulator ℚ} (h : Sound a) (bs : List BucketRow) :
    Sound { a with buckets := bs } :=
  ⟨h.successes_nonneg, h.successes_le, h.available_nonneg, h.available_le, h.fallback⟩

theorem sound_historySums (h : ∀ r ∈ db.rounds, Plausible r) {s : Sums ℚ}
    (hs : historySums db serverID since now width = .ok s) : AllSound s := by
  rw [historySums] at hs
  split_ifs at hs
  rw [bind_eq_ok] at hs
  obtain ⟨s₁, h₁, hs⟩ := hs
  rw [pure_eq_ok] at hs
  have hrows : ∀ r ∈ historyRows db serverID since now, Plausible r := by
    intro r hr
    have hscan := (historyRows_perm db serverID since now).mem_iff.mp hr
    exact h r (mem_formal.mp (List.mem_filter.mp hscan).1).1
  have hstart : AllSound ⟨List.replicate (pointCount since now width).toNat emptyAccumulator,
      (emptyAccumulator : Accumulator ℚ)⟩ := by
    refine ⟨sound_empty, fun a ha => ?_⟩
    rw [List.eq_of_mem_replicate ha]
    exact sound_empty
  obtain ⟨htotal, hpoints⟩ := sound_rows hrows hstart h₁
  rw [← hs, addBuckets]
  refine ⟨sound_buckets htotal _, ?_⟩
  intro a ha
  obtain ⟨i, hi, rfl⟩ := List.mem_mapIdx.mp ha
  exact sound_buckets (hpoints _ (List.getElem_mem hi)) _

end

section

variable [CaseTables] {c config : Config ℚ}

def weightSum (config : Config ℚ) : ℚ :=
  config.ratingWAvail + config.ratingWSuccess + config.ratingWLatency

theorem accepted_weights (h : validateConfig c = .ok config) :
    Weighted (configRatingWeights config) ∧ weightSum config ≤ 1001 / 1000 := by
  obtain ⟨listen, domains, _, hlimits, _, rfl⟩ := validateConfig_eq_ok.mp h
  simp only [validateLimits, bind_eq_ok, require_eq_ok] at hlimits
  obtain ⟨_, _, _, _, _, _, _, _, _, _, _, _, _, _, _, _, _, _, _, _, _, hweights, _, hsum, _⟩ :=
    hlimits
  obtain ⟨⟨ha, -⟩, ⟨hs, -⟩, hl, -⟩ := hweights
  refine ⟨⟨ha, hs, hl⟩, ?_⟩
  have habs : |c.ratingWAvail + c.ratingWSuccess + c.ratingWLatency - 1| ≤ 1 / 1000 :=
    not_lt.mp hsum
  have hle := (abs_le.mp habs).2
  rw [weightSum]
  linarith

theorem plausible_run (legacy : Legacy ℚ) (hl : Aggregated legacy.db) (es : List (Event ℚ)) :
    ∀ r ∈ (Runs.run step (openStore legacy) es).rounds, Plausible r := by
  intro r hr
  obtain ⟨_, _, _, _, _, _, _, _, hreceived, hsuccesses, _⟩ :=
    counts_of_results legacy hl es rfl r hr
  exact ⟨hreceived, hsuccesses⟩

omit [CaseTables] in
theorem evaluateCurrent_bounded {db : DB ℚ} (h : ∀ r ∈ db.rounds, Plausible r)
    (hw : Weighted (configRatingWeights config)) {server : Server} {now : Int}
    {value : CurrentEvaluation ℚ} (hv : evaluateCurrent db server config now = .ok value) :
    Bounded (100 * weightSum config) value.metrics := by
  simp only [evaluateCurrent, bind_eq_ok, pure_eq_ok] at hv
  obtain ⟨_, _, rfl⟩ := hv
  apply adjust_bounded (mul_nonneg (by decide) (total_nonneg hw))
  exact finish_bounded (sound_accumulate h server) hw _ _ _

/-- The percentages that a summary, a history and an evaluation return do not exceed 100, and a
score does not exceed what the weights add up to. -/
theorem metrics_bounded (legacy : Legacy ℚ) (hl : Aggregated legacy.db) (es : List (Event ℚ))
    {db : DB ℚ} (hdb : db = Runs.run step (openStore legacy) es)
    (hc : validateConfig c = .ok config) :
    weightSum config ≤ 1001 / 1000 ∧
      (db.config = config → ∀ since now entries, summary db since now = .ok entries →
        ∀ e ∈ entries, Bounded (100 * weightSum config) e.metrics ∧
          Bounded (100 * weightSum config) e.current.metrics) ∧
      (db.config = config → ∀ serverID since now stepMS points total,
        history db serverID since now stepMS = .ok (points, total) →
          Bounded (100 * weightSum config) total ∧
          ∀ p ∈ points, Bounded (100 * weightSum config) p.metrics) ∧
      ∀ server now value, evaluateCurrent db server config now = .ok value →
        Bounded (100 * weightSum config) value.metrics := by
  obtain ⟨hw, hsum⟩ := accepted_weights hc
  have hplausible : ∀ r ∈ db.rounds, Plausible r := hdb ▸ plausible_run legacy hl es
  refine ⟨hsum, ?_, ?_, fun server now value hv => evaluateCurrent_bounded hplausible hw hv⟩
  · rintro rfl since now entries hentries e he
    obtain ⟨hmetrics, hcurrent⟩ := entry_of_summary hentries he
    refine ⟨?_, evaluateCurrent_bounded hplausible hw hcurrent⟩
    rw [hmetrics]
    exact finishForServer_bounded (sound_summary hplausible) hw _ _
  · rintro rfl serverID since now stepMS points total h
    rw [history] at h
    split_ifs at h
    cases hs : findServer db serverID with
    | none => simp [hs] at h
    | some server =>
      simp only [hs, bind_eq_ok, pure_eq_ok, finishSums, Prod.mk.injEq] at h
      obtain ⟨s, hsums, rfl, rfl⟩ := h
      obtain ⟨htotal, hpoints⟩ := sound_historySums hplausible hsums
      refine ⟨finishForServer_bounded htotal hw _ _, ?_⟩
      intro p hp
      obtain ⟨i, hi, rfl⟩ := List.mem_mapIdx.mp hp
      exact finishForServer_bounded (hpoints _ (List.getElem_mem hi)) hw _ _

end

section

local instance : CaseTables := asciiTables

def heavyConfig : Config ℚ := { defaultConfig with ratingWAvail := 351 / 1000 }

def heavyRun : List (Event ℚ) :=
  [.saveConfig heavyConfig, .saveServer 900 exampleServer,
    .saveRound (exampleRound 2000 [exampleResult true (str "clean")])]

/-- Nothing went wrong in the round, and every weight counts in full. -/
theorem score_over_hundred :
    validateConfig heavyConfig = .ok heavyConfig ∧
      (Runs.run step (openStore emptyLegacy) heavyRun).config = heavyConfig ∧
      ∃ value, evaluateCurrent (Runs.run step (openStore emptyLegacy) heavyRun)
          { exampleServer with id := 1 } heavyConfig 3000 = .ok value ∧
        value.metrics.score = 1001 / 10 ∧ ¬ Bounded 100 value.metrics := by
  have hvalue : ∃ value, evaluateCurrent (Runs.run step (openStore emptyLegacy) heavyRun)
      { exampleServer with id := 1 } heavyConfig 3000 = .ok value ∧
        value.metrics.score = 1001 / 10 :=
    ⟨_, rfl, by decide +kernel⟩
  obtain ⟨value, hv, hscore⟩ := hvalue
  refine ⟨by decide +kernel, by decide +kernel, value, hv, hscore, fun h => ?_⟩
  have hle := h.score.2
  rw [hscore] at hle
  norm_num at hle

theorem metrics_bounded_heavy : ∃ value,
    evaluateCurrent (Runs.run step (openStore emptyLegacy) heavyRun)
      { exampleServer with id := 1 } heavyConfig 3000 = .ok value ∧
    Bounded (100 * weightSum heavyConfig) value.metrics := by
  have hvalid : validateConfig heavyConfig = .ok heavyConfig := by decide +kernel
  obtain ⟨-, -, -, hvalues⟩ := metrics_bounded emptyLegacy aggregated_empty heavyRun rfl hvalid
  exact ⟨_, rfl, hvalues { exampleServer with id := 1 } 3000 _ rfl⟩

end

end DnsMonitor.Store.Bounds

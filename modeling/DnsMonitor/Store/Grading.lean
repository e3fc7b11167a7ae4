import DnsMonitor.Monitor.Config
import DnsMonitor.Store.Verdicts
import Mathlib.Algebra.BigOperators.Ring.Finset

namespace DnsMonitor.Store.Grading

open DnsMonitor.Model DnsMonitor.Lib DnsMonitor.Lib.Tables DnsMonitor.Store.Schema
open DnsMonitor.Store.Current DnsMonitor.Store.Migration DnsMonitor.Store.Run
open DnsMonitor.Store.WellFormed DnsMonitor.Store.Verdicts DnsMonitor.Monitor.Config
open DnsMonitor.Go.Strings DnsMonitor.Go.Unicode DnsMonitor.Go.Errors DnsMonitor.Go.Float

/-- What a result says about the honesty of a server, from good to bad. -/
inductive Verdict where
  | matched
  | clean
  | unknown
  | suspicious
  | polluted
deriving DecidableEq

def Verdict.rank : Verdict → Nat
  | .matched => 1
  | .clean => 2
  | .unknown => 3
  | .suspicious => 4
  | .polluted => 5

def verdict (code : Nat) : Verdict :=
  match code with
  | 1 => .matched
  | 2 => .clean
  | 3 => .suspicious
  | 4 => .polluted
  | _ => .unknown

def worst (vs : List Verdict) : Option Verdict := latest Verdict.rank vs

section

variable {F : Type} [GoFloat F]

/-- The verdicts on a round: those of its A results, and the known ones of the others. -/
def verdicts (db : DB F) (roundID : Int) : List Verdict :=
  ((db.results.filter fun r => r.roundID = roundID &&
    (r.type = str "A" || verdict r.effectivePollution ≠ .unknown)).map fun r =>
      verdict r.effectivePollution)

def quality (db : DB F) (serverID since now : Int) : Option Verdict :=
  (latest timeKey (windowRounds db serverID since now)).bind fun r => worst (verdicts db r.id)

def sampleCount (db : DB F) (serverID since now : Int) : Nat :=
  ((windowRounds db serverID since now).map (·.samples)).sum

def windowStart (config : Config F) (now : Int) : Int :=
  now - config.ratingWindowMinutes * 60 * 1000

def weightedScore (db : DB F) (server : Server) (config : Config F) (now : Int) : F :=
  (accumulate db server (windowStart config now) now).score (configRatingWeights config)

def isPending (db : DB F) (server : Server) (config : Config F) (now : Int) : Prop :=
  let since := windowStart config now
  sampleCount db server.id since now = 0 ∨
    server.trusted = false ∧ (quality db server.id since now = none ∨
      quality db server.id since now = some .unknown) ∨
    (sampleCount db server.id since now : Int) < config.ratingMinSamples ∨
    coveredMS db server.id since now < config.ratingMinCoverageMinutes * 60000

instance (db : DB F) (server : Server) (config : Config F) (now : Int) :
    Decidable (isPending db server config now) := inferInstanceAs (Decidable (_ ∨ _))

/-- The grade and the score, by priority. -/
def priority (db : DB F) (server : Server) (config : Config F) (now : Int) : Grade × F :=
  let score := weightedScore db server config now
  let quality := quality db server.id (windowStart config now) now
  if ∃ r ∈ latestRound db server.id now, 0 < r.samples ∧ r.successes = 0 then
    (.unavailable, ofInt 0)
  else if server.trusted = false ∧ quality = some .polluted then (.f, ofInt 0)
  else if server.trusted = false ∧ quality = some .suspicious then (.e, score)
  else if isPending db server config now then (.pending, score)
  else (scoreGrade score, score)

end

theorem severityCode_eq {code : Nat} (h : code ≤ 4) : severityCode code = (verdict code).rank := by
  revert h
  revert code
  decide

theorem verdict_unknown {code : Nat} (h : code ≤ 4) : verdict code ≠ .unknown ↔ 0 < code := by
  revert h
  revert code
  decide

def qualityCode : Option Verdict → Nat
  | some .polluted => 4
  | some .suspicious => 3
  | some .clean => 2
  | some .matched => 1
  | _ => 0

theorem severityPollution_worst (vs : List Verdict) :
    severityPollution (maxOf Verdict.rank vs) = qualityCode (worst vs) := by
  rw [maxOf_latest, worst]
  cases latest Verdict.rank vs with
  | none => rfl
  | some v => cases v <;> rfl

section

variable {F : Type} {db : DB F} {server : Server} {now : Int}

theorem codes_le (hw : WellFormed db) (hc : Consistent db) {r : ResultRow F}
    (hr : r ∈ db.results) : r.effectivePollution ≤ 4 := by
  rw [hc.result r hr]
  exact effectiveCode_le (hw.result_code _ (List.mem_map_of_mem hr)) _ _

theorem severity_eq (hw : WellFormed db) (hc : Consistent db) (serverID since now : Int) :
    severityPollution (severity db serverID since now) =
      qualityCode (quality db serverID since now) := by
  rw [severity, quality]
  cases latest timeKey (windowRounds db serverID since now) with
  | none => rfl
  | some q =>
    rw [Option.bind_some, ← severityPollution_worst, verdicts, maxOf_map]
    have hj : judged db q.id = db.results.filter fun r => r.roundID = q.id &&
        (r.type = str "A" || verdict r.effectivePollution ≠ .unknown) := by
      apply List.filter_congr
      intro r hr
      have hv := verdict_unknown (codes_le hw hc hr)
      simp only [hv]
    rw [← hj]
    congr 1
    apply maxOf_congr
    intro r hr
    exact severityCode_eq (codes_le hw hc (List.mem_filter.mp hr).1)

theorem mem_windowRounds {serverID since : Int} {r : RoundRow F} :
    r ∈ windowRounds db serverID since now ↔ r ∈ formal serverID db.rounds ∧
      since ≤ r.finishedAt ∧ r.finishedAt ≤ now := by
  simp [windowRounds]

theorem crossingRound_old {serverID since : Int} {r : RoundRow F}
    (h : r ∈ crossingRound db serverID since) : r.finishedAt < since := by
  unfold crossingRound at h
  split at h
  · next q hq =>
    have hold := (List.mem_filter.mp (latest_eq_some hq).1).2
    split_ifs at h
    · rw [List.mem_singleton.mp h]
      simpa using hold
    · simp at h
  · simp at h

/-- Only the rounds inside the window count, not the one that crosses its start. -/
theorem countIn_eligible (count : RoundRow F → Nat) (serverID since now : Int) :
    countIn since count (eligible db serverID since now) =
      ((windowRounds db serverID since now).map count).sum := by
  have hin : (windowRounds db serverID since now).map
      (fun r => if since ≤ r.finishedAt then (count r : Int) else 0) =
      (windowRounds db serverID since now).map fun r => (count r : Int) := by
    apply List.map_congr_left
    intro r hr
    rw [if_pos (mem_windowRounds.mp hr).2.1]
  have hout : (crossingRound db serverID since).map
      (fun r => if since ≤ r.finishedAt then (count r : Int) else 0) =
      (crossingRound db serverID since).map fun _ => 0 := by
    apply List.map_congr_left
    intro r hr
    rw [if_neg (not_le.mpr (crossingRound_old hr))]
  rw [countIn, eligible, List.map_append, List.sum_append, hin, hout]
  rw [Nat.cast_list_sum, List.map_map]
  simp [Function.comp_def]

theorem qualityTime_pos (hw : WellFormed db) (serverID since now : Int) :
    0 < qualityTime since (eligible db serverID since now) ↔
      windowRounds db serverID since now ≠ [] := by
  rw [qualityTime]
  constructor
  · intro h hw
    rw [eligible, hw, List.nil_append] at h
    have hzero : (crossingRound db serverID since).map
        (fun r => if since ≤ r.finishedAt then r.finishedAt else 0) =
        (crossingRound db serverID since).map fun _ => 0 := by
      apply List.map_congr_left
      intro r hr
      rw [if_neg (not_le.mpr (crossingRound_old hr))]
    rw [hzero] at h
    cases hm : ((crossingRound db serverID since).map fun _ => (0 : Int)).max? with
    | none =>
      rw [hm] at h
      cases h
    | some m =>
      obtain ⟨_, _, hmem⟩ := List.mem_map.mp (List.max?_mem hm)
      rw [hm, ← hmem] at h
      cases h
  · intro h
    obtain ⟨r, hr⟩ := List.exists_mem_of_ne_nil _ h
    obtain ⟨hf, hs, _⟩ := mem_windowRounds.mp hr
    have hpos := hw.round_time _ (List.mem_map_of_mem (mem_formal.mp hf).1)
    have hmem : r.finishedAt ∈ (eligible db serverID since now).map
        fun r => if since ≤ r.finishedAt then r.finishedAt else 0 :=
      List.mem_map.mpr ⟨r, List.mem_append_left _ hr, if_pos hs⟩
    cases hm : ((eligible db serverID since now).map
        fun r => if since ≤ r.finishedAt then r.finishedAt else 0).max? with
    | none => simp [List.max?_eq_none_iff.mp hm] at hmem
    | some m =>
      have hle := (List.max?_eq_some_iff.mp hm).2 _ hmem
      simp only [Option.getD_some]
      omega

variable [GoFloat F]

theorem pollution_eq (hw : WellFormed db) (hc : Consistent db) (since : Int) :
    (accumulate db server since now).pollution =
      if server.trusted then 1 else qualityCode (quality db server.id since now) := by
  simp only [accumulate]
  by_cases ht : server.trusted = true
  · rw [if_pos ht, if_pos ht]
  · rw [if_neg ht, if_neg ht]
    by_cases hn : windowRounds db server.id since now = []
    · rw [if_neg (by rw [qualityTime_pos hw]; exact not_not.mpr hn), quality, hn]
      rfl
    · rw [if_pos ((qualityTime_pos hw _ _ _).mpr hn), severity_eq hw hc]

theorem scoreGrade_ne (score : F) : scoreGrade score ≠ .pending ∧ scoreGrade score ≠ .e ∧
    scoreGrade score ≠ .f := by
  unfold scoreGrade
  split_ifs <;> decide

variable {config : Config F}

def lacks (server : Server) (config : Config F) (a : Accumulator F) : Prop :=
  a.samples = 0 ∨ server.trusted = false ∧ a.pollution = 0 ∨ a.samples < config.ratingMinSamples ∨
    a.covered < ofInt (config.ratingMinCoverageMinutes * 60000)

instance (server : Server) (config : Config F) (a : Accumulator F) :
    Decidable (lacks server config a) := inferInstanceAs (Decidable (_ ∨ _))

theorem coverage_ms (h0 : 0 ≤ config.ratingMinCoverageMinutes)
    (h1 : config.ratingMinCoverageMinutes ≤ 1440) :
    (ofInt config.ratingMinCoverageMinutes : F) * ofInt 60000 =
      ofInt (config.ratingMinCoverageMinutes * 60000) := by
  apply mul_ofInt h0 (by decide) (by decide)
  omega

theorem adjust_grade {unreachable : Bool} {a : Accumulator F} {value : CurrentEvaluation F}
    {window : Int} (h0 : 0 ≤ config.ratingMinCoverageMinutes)
    (h1 : config.ratingMinCoverageMinutes ≤ 1440) (hp : a.pollution ≤ 4)
    (hm : value.metrics = finishWithThresholds a window config.ratingMinSamples
      (config.ratingMinCoverageMinutes * 60000) (configRatingWeights config))
    (hr : value.pendingReason = none) :
    let score := a.score (configRatingWeights config)
    let result := adjust unreachable server config a value
    (result.metrics.grade, result.metrics.score) =
        (if unreachable then (.unavailable, ofInt 0)
        else if a.pollution = 4 then (.f, ofInt 0)
        else if a.pollution = 3 then (.e, score)
        else if lacks server config a then (.pending, score)
        else (scoreGrade score, score)) ∧
      (result.pendingReason ≠ none ↔ result.metrics.grade = .pending) := by
  intro score result
  have hs : value.metrics.samples = a.samples := by rw [hm, finishWithThresholds]
  have hne := (scoreGrade_ne score).1
  simp only [result, adjust, hs, coverage_ms h0 h1]
  by_cases hu : unreachable = true
  · simp [hu, hr]
  by_cases hf : a.pollution = 4
  · simp [hu, hf, hm, hr, finishWithThresholds]
  by_cases he : a.pollution = 3
  · simp [hu, he, hm, hr, finishWithThresholds, score]
  have hlow : ¬ 3 ≤ a.pollution := by omega
  have hgrade : value.metrics.grade =
      if a.samples < config.ratingMinSamples ∨
        a.covered < ofInt (config.ratingMinCoverageMinutes * 60000) then .pending
      else scoreGrade score := by
    rw [hm, finishWithThresholds, if_neg hf, if_neg he]
  have hscore : value.metrics.score = score := by
    rw [hm, finishWithThresholds]
    exact if_neg hf
  by_cases hn : a.samples = 0
  · simp [hu, hf, he, hlow, hn, lacks, hscore]
  by_cases hq : server.trusted = false ∧ a.pollution = 0
  · simp [hu, hn, hq, lacks, hscore]
  by_cases hc : a.samples < config.ratingMinSamples
  · simp [hu, hf, he, hlow, hn, hq, hc, lacks, hscore, hgrade]
  by_cases hcov : a.covered < ofInt (config.ratingMinCoverageMinutes * 60000)
  · simp [hu, hf, he, hlow, hn, hq, hc, hcov, lacks, hscore, hgrade]
  · simp [hu, hf, he, hlow, hn, hq, hc, hcov, lacks, hscore, hgrade, hr, hne]

omit [GoFloat F] in
theorem isUnreachable_iff (db : DB F) (serverID now : Int) : isUnreachable db serverID now = true ↔
    ∃ r ∈ latestRound db serverID now, 0 < r.samples ∧ r.successes = 0 := by
  unfold isUnreachable
  cases latestRound db serverID now <;> simp

theorem pollution_cases (hw : WellFormed db) (hc : Consistent db) (server : Server)
    (since now : Int) :
    let a := accumulate db server since now
    let q := quality db server.id since now
    a.pollution ≤ 4 ∧
      (a.pollution = 4 ↔ server.trusted = false ∧ q = some .polluted) ∧
      (a.pollution = 3 ↔ server.trusted = false ∧ q = some .suspicious) ∧
      (server.trusted = false ∧ a.pollution = 0 ↔
        server.trusted = false ∧ (q = none ∨ q = some .unknown)) := by
  intro a q
  have hp : a.pollution = if server.trusted then 1 else qualityCode q := pollution_eq hw hc since
  cases ht : server.trusted with
  | true => simp [hp, ht]
  | false =>
    simp only [hp, ht]
    cases q with
    | none => decide
    | some v => cases v <;> decide

theorem lacks_iff (hw : WellFormed db) (hc : Consistent db)
    (h0 : 0 ≤ config.ratingMinCoverageMinutes) (h1 : config.ratingMinCoverageMinutes ≤ 1440) :
    lacks server config (accumulate db server (windowStart config now) now) ↔
      isPending db server config now := by
  have hs : (accumulate db server (windowStart config now) now).samples =
      (sampleCount db server.id (windowStart config now) now : Int) := countIn_eligible _ _ _ _
  have hcov : (accumulate db server (windowStart config now) now).covered <
      ofInt (config.ratingMinCoverageMinutes * 60000) ↔
      coveredMS db server.id (windowStart config now) now <
        config.ratingMinCoverageMinutes * 60000 := by
    apply ofInt_lt
    rw [abs_of_nonneg (by omega)]
    omega
  rw [lacks, isPending, hs, hcov, (pollution_cases hw hc server _ now).2.2.2]
  simp

section

variable [CaseTables] {c : Config F}

theorem accepted_thresholds (h : validateConfig c = .ok config) :
    5 ≤ config.ratingWindowMinutes ∧ 1 ≤ config.ratingMinSamples ∧
      0 ≤ config.ratingMinCoverageMinutes ∧ config.ratingMinCoverageMinutes ≤ 1440 ∧
      config.ratingMinCoverageMinutes ≤ config.ratingWindowMinutes := by
  obtain ⟨listen, domains, _, hlim, _, rfl⟩ := validateConfig_eq_ok.mp h
  simp only [validateLimits, bind_eq_ok, require_eq_ok] at hlim
  obtain ⟨_, _, _, _, _, _, _, _, _, _, _, _, _, hw, _, hs, _, hm, _, hmw, _⟩ := hlim
  dsimp only
  omega

theorem checkThresholds_accepted (h : validateConfig c = .ok config) (hnow : 0 < now) :
    checkThresholds config now = .ok () := by
  obtain ⟨hwin, hsamples, h0, h1, hle⟩ := accepted_thresholds h
  rw [checkThresholds, require_eq_ok]
  omega

/-- The evaluation of a server in any reachable state gives the grade and the score of the list
of priorities; it names a reason exactly when the grade is pending, and it never convicts a
trusted server. -/
theorem grade_by_priority (hdb : Reachable db) (hc : validateConfig c = .ok config)
    (server : Server) (hnow : 0 < now) : ∃ value,
    evaluateCurrent db server config now = .ok value ∧
      (value.metrics.grade, value.metrics.score) = priority db server config now ∧
      (value.pendingReason ≠ none ↔ value.metrics.grade = .pending) ∧
      (server.trusted = true → value.metrics.grade ≠ .e ∧ value.metrics.grade ≠ .f) := by
  obtain ⟨hwin, hsamples, h0, h1, hle⟩ := accepted_thresholds hc
  have hw := wellFormed_reachable hdb
  have hcons : Consistent db := by
    obtain ⟨legacy, es, rfl⟩ := hdb
    exact consistent_run legacy es
  obtain ⟨hp, h4, h3, h00⟩ := pollution_cases hw hcons server (windowStart config now) now
  have hcheck : checkThresholds config now = .ok () := checkThresholds_accepted hc hnow
  obtain ⟨value, hv, hm, hr⟩ : ∃ value, evaluateCurrent db server config now =
        .ok (adjust (isUnreachable db server.id now) server config
          (accumulate db server (windowStart config now) now) value) ∧
      value.metrics = finishWithThresholds (accumulate db server (windowStart config now) now)
        (config.ratingWindowMinutes * 60 * 1000) config.ratingMinSamples
        (config.ratingMinCoverageMinutes * 60000) (configRatingWeights config) ∧
      value.pendingReason = none := by
    rw [evaluateCurrent, hcheck]
    exact ⟨_, rfl, rfl, rfl⟩
  obtain ⟨hgrade, hpending⟩ := adjust_grade h0 h1 hp hm hr
  refine ⟨_, hv, ?_, hpending, ?_⟩
  · rw [hgrade, priority]
    simp only [isUnreachable_iff, h4, h3, lacks_iff hw hcons h0 h1]
    rfl
  · intro ht
    have hne4 : (accumulate db server (windowStart config now) now).pollution ≠ 4 := by
      rw [ne_eq, h4, ht]
      simp
    have hne3 : (accumulate db server (windowStart config now) now).pollution ≠ 3 := by
      rw [ne_eq, h3, ht]
      simp
    have hg := congrArg Prod.fst hgrade
    simp only [if_neg hne4, if_neg hne3] at hg
    rw [hg]
    split_ifs
    · simp
    · simp
    · exact (scoreGrade_ne _).2

end

end

section

local instance : CaseTables := asciiTables

def pollutedRun : List (Event ℚ) :=
  [.saveServer 900 exampleServer,
    .saveRound (exampleRound 1000
      [exampleResult true (str "clean"), exampleResult true (str "polluted")])]

theorem grade_by_priority_polluted : ∃ value,
    evaluateCurrent (Runs.run step (openStore emptyLegacy) pollutedRun)
      { exampleServer with id := 1 } defaultConfig 1000 = .ok value ∧
    value.metrics.grade = .f ∧ value.metrics.score = 0 ∧ value.pendingReason = none := by
  have hvalid : validateConfig (defaultConfig : Config ℚ) = .ok defaultConfig := by decide +kernel
  have hp : priority (Runs.run step (openStore emptyLegacy) pollutedRun)
      { exampleServer with id := 1 } defaultConfig 1000 = (.f, 0) := by decide +kernel
  obtain ⟨value, hv, hgrade, hpending, _⟩ := grade_by_priority ⟨emptyLegacy, pollutedRun, rfl⟩ hvalid
    { exampleServer with id := 1 } (by decide : (0 : Int) < 1000)
  rw [hp] at hgrade
  have hg : value.metrics.grade = .f := congrArg Prod.fst hgrade
  refine ⟨value, hv, hg, congrArg Prod.snd hgrade, ?_⟩
  rw [hg] at hpending
  simpa using hpending

end

end DnsMonitor.Store.Grading

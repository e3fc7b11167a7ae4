import DnsMonitor.Store.Schema
import Mathlib.Algebra.BigOperators.Group.List.Defs
import Mathlib.Data.List.Sort

namespace DnsMonitor.Store.Current

open DnsMonitor.Model DnsMonitor.Lib.Tables DnsMonitor.Store.Schema
open DnsMonitor.Go.Strings DnsMonitor.Go.Errors DnsMonitor.Go.Float

variable {F : Type} [GoFloat F]

/-- The sums a rating is computed from; `samples` and `availability` stand in its metrics. -/
structure Accumulator (F : Type) where
  samples : Int
  availability : F
  covered : F
  available : F
  latencySum : F
  successes : Int
  latencyCount : Int
  pollution : Nat
  buckets : List BucketRow

structure RatingWeights (F : Type) where
  availability : F
  successRate : F
  latency : F

def configRatingWeights (c : Config F) : RatingWeights F :=
  ⟨c.ratingWAvail, c.ratingWSuccess, c.ratingWLatency⟩

def bucketCount (buckets : List BucketRow) (k : Int) : Nat :=
  ((buckets.filter (·.bucketMS = k)).map (·.count)).sum

/-- The first bucket, in ascending order, at which the running count reaches the threshold. -/
def percentile (threshold : Int) (buckets : List BucketRow) : Int → List Int → Option Int
  | _, [] => none
  | count, k :: keys =>
    let count := count + bucketCount buckets k
    if threshold ≤ count then some k else percentile threshold buckets count keys

def p95MS (a : Accumulator F) : F :=
  let keys := ((a.buckets.map (·.bucketMS)).dedup).insertionSort (· ≤ ·)
  let threshold := GoFloat.ceil ((ofInt a.latencyCount : F) * GoFloat.ofRat (95 / 100))
  match percentile threshold a.buckets 0 keys with
  | some k => ofInt k
  | none => ofInt 0

def Accumulator.availabilityRate (a : Accumulator F) : F :=
  if ofInt 0 < a.covered then ofInt 100 * a.available / a.covered else a.availability

def Accumulator.successRate (a : Accumulator F) : F :=
  if 0 < a.samples then ofInt 100 * ofInt a.successes / ofInt a.samples else ofInt 0

def Accumulator.latencyScore (a : Accumulator F) : F :=
  if a.latencyCount = 0 then ofInt 0
  else
    let p95 := if 0 < a.latencyCount then p95MS a else ofInt 0
    GoFloat.max (ofInt 0) (GoFloat.min (ofInt 100) (ofInt 100 * (ofInt 2000 - p95) / ofInt 1800))

def Accumulator.score (a : Accumulator F) (w : RatingWeights F) : F :=
  w.availability * a.availabilityRate + w.successRate * a.successRate + w.latency * a.latencyScore

def scoreGrade (score : F) : Grade :=
  if ofInt 95 ≤ score then .a
  else if ofInt 85 ≤ score then .b
  else if ofInt 70 ≤ score then .c
  else .d

def finishWithThresholds (a : Accumulator F) (window minSamples minCoverageMS : Int)
    (w : RatingWeights F) : Metrics F where
  samples := a.samples
  availability := a.availabilityRate
  successRate := a.successRate
  averageMS := if 0 < a.latencyCount then a.latencySum / ofInt a.latencyCount else ofInt 0
  p95MS := if 0 < a.latencyCount then p95MS a else ofInt 0
  coverage :=
    if 0 < window then GoFloat.min (ofInt 100) (ofInt 100 * a.covered / ofInt window) else ofInt 0
  pollution := pollutionName a.pollution
  grade :=
    if a.pollution = 4 then .f
    else if a.pollution = 3 then .e
    else if a.samples < minSamples ∨ a.covered < ofInt minCoverageMS then .pending
    else scoreGrade (a.score w)
  score := if a.pollution = 4 then ofInt 0 else a.score w

def windowRounds (db : DB F) (serverID since now : Int) : List (RoundRow F) :=
  (formal serverID db.rounds).filter fun r => since ≤ r.finishedAt && r.finishedAt ≤ now

/-- The last round before the window, when its interval reaches into the window. -/
def crossingRound (db : DB F) (serverID since : Int) : List (RoundRow F) :=
  match latest timeKey ((formal serverID db.rounds).filter (·.finishedAt < since)) with
  | some r => if since < r.coveredUntil then [r] else []
  | none => []

def eligible (db : DB F) (serverID since now : Int) : List (RoundRow F) :=
  windowRounds db serverID since now ++ crossingRound db serverID since

def overlap (since now : Int) (r : RoundRow F) : Int :=
  max 0 (min r.coveredUntil now - max r.finishedAt since)

def coveredMS (db : DB F) (serverID since now : Int) : Int :=
  ((eligible db serverID since now).map (overlap since now)).sum

def availableMS (db : DB F) (serverID since now : Int) : F :=
  GoFloat.sum ((eligible db serverID since now).map fun r =>
    ofInt (overlap since now r) * ofInt 1 * ofInt r.received / ofInt (max 1 r.samples))

def countIn (since : Int) (count : RoundRow F → Nat) (rows : List (RoundRow F)) : Int :=
  (rows.map fun r => if since ≤ r.finishedAt then (count r : Int) else 0).sum

def latencySumIn (since : Int) (rows : List (RoundRow F)) : F :=
  GoFloat.sum (rows.map fun r => if since ≤ r.finishedAt then r.latencySum else ofInt 0)

/-- The time of the last round of the window, zero when there is none. -/
def qualityTime (since : Int) (rows : List (RoundRow F)) : Int :=
  ((rows.map fun r => if since ≤ r.finishedAt then r.finishedAt else 0).max?).getD 0

def bucketsIn (db : DB F) (serverID since now : Int) : List BucketRow :=
  (windowRounds db serverID since now).flatMap fun r =>
    db.latencyBuckets.filter (·.roundID = r.id)

def latestRound (db : DB F) (serverID now : Int) : Option (RoundRow F) :=
  latest timeKey ((formal serverID db.rounds).filter (·.finishedAt ≤ now))

/-- The order of verdicts in the query: an unknown answer outranks a clean one. -/
def severityCode (effective : Nat) : Nat :=
  match effective with
  | 4 => 5
  | 3 => 4
  | 0 => 3
  | 2 => 2
  | 1 => 1
  | _ => 3

def judged (db : DB F) (roundID : Int) : List (ResultRow F) :=
  db.results.filter fun r => r.roundID = roundID && (r.type = str "A" || 0 < r.effectivePollution)

def severity (db : DB F) (serverID since now : Int) : Nat :=
  match latest timeKey (windowRounds db serverID since now) with
  | some r => maxOf (fun q => severityCode q.effectivePollution) (judged db r.id)
  | none => 0

def severityPollution (severity : Nat) : Nat :=
  match severity with
  | 5 => 4
  | 4 => 3
  | 2 => 2
  | 1 => 1
  | _ => 0

def accumulate (db : DB F) (server : Server) (since now : Int) : Accumulator F :=
  let rows := eligible db server.id since now
  let samples := countIn since (·.samples) rows
  { samples := samples
    availability :=
      if coveredMS db server.id since now = 0 ∧ 0 < samples then
        ofInt 100 * ofInt (countIn since (·.received) rows) / ofInt samples
      else ofInt 0
    covered := ofInt (coveredMS db server.id since now)
    available := availableMS db server.id since now
    latencySum := latencySumIn since rows
    successes := countIn since (·.successes) rows
    latencyCount := countIn since (·.latencyCount) rows
    pollution :=
      if server.trusted then 1
      else if 0 < qualityTime since rows then
        severityPollution (severity db server.id since now)
      else 0
    buckets := bucketsIn db server.id since now }

def checkThresholds (config : Config F) (now : Int) : Except StoreError Unit :=
  require (¬ (now ≤ 0 ∨ config.ratingWindowMinutes ≤ 0 ∨ config.ratingMinSamples ≤ 0 ∨
    config.ratingMinCoverageMinutes < 0 ∨
    config.ratingMinCoverageMinutes > config.ratingWindowMinutes))
    (.text "invalid current evaluation time or thresholds")

def isUnreachable (db : DB F) (serverID now : Int) : Bool :=
  match latestRound db serverID now with
  | some r => 0 < r.samples && r.successes = 0
  | none => false

/-- The second switch, over the grade that the thresholds gave. -/
def adjust (unreachable : Bool) (server : Server) (config : Config F) (a : Accumulator F)
    (value : CurrentEvaluation F) : CurrentEvaluation F :=
  if unreachable then
    { value with metrics := { value.metrics with grade := .unavailable, score := ofInt 0 } }
  else if 3 ≤ a.pollution then value
  else if value.metrics.samples = 0 then
    { value with
      metrics := { value.metrics with grade := .pending }, pendingReason := some .noSamples }
  else if !server.trusted ∧ a.pollution = 0 then
    { value with
      metrics := { value.metrics with grade := .pending }, pendingReason := some .qualityUnknown }
  else if value.metrics.samples < config.ratingMinSamples then
    { value with pendingReason := some .insufficientSamples }
  else if a.covered < ofInt config.ratingMinCoverageMinutes * ofInt 60000 then
    { value with pendingReason := some .insufficientCoverage }
  else value

def evaluateCurrent (db : DB F) (server : Server) (config : Config F) (now : Int) :
    Except StoreError (CurrentEvaluation F) := do
  checkThresholds config now
  let window := config.ratingWindowMinutes * 60 * 1000
  let since := now - window
  let a := accumulate db server since now
  return adjust (isUnreachable db server.id now) server config a
    { metrics := finishWithThresholds a window config.ratingMinSamples
        (config.ratingMinCoverageMinutes * 60000) (configRatingWeights config)
      windowMinutes := config.ratingWindowMinutes
      minSamples := config.ratingMinSamples
      minCoverageMinutes := config.ratingMinCoverageMinutes
      coveredMinutes := a.covered / ofInt 60000
      qualityAt := qualityTime since (eligible db server.id since now)
      pendingReason := none }

end DnsMonitor.Store.Current

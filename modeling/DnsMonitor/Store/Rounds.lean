import DnsMonitor.Store.Current

namespace DnsMonitor.Store.Rounds

open DnsMonitor.Model DnsMonitor.Lib.Tables DnsMonitor.Store.Schema DnsMonitor.Store.Current
open DnsMonitor.Go.Strings DnsMonitor.Go.Unicode DnsMonitor.Go.Errors DnsMonitor.Go.Float

variable {F : Type} [GoFloat F]

def isFinite (x : F) : Bool := !GoFloat.isNaN x && !GoFloat.isInf x

/-- The bucket of a latency, in whole milliseconds and at most an hour. -/
def bucketOf (latencyMS : F) : Int := GoFloat.ceil (GoFloat.min latencyMS (ofInt 3600000))

def received (rs : List (ProbeResult F)) : Nat := (rs.filter (·.received)).length

def successes (rs : List (ProbeResult F)) : Nat := (rs.filter (·.success)).length

def timed (rs : List (ProbeResult F)) : List (ProbeResult F) :=
  rs.filter fun r => r.success && ofInt 0 ≤ r.latencyMS && isFinite r.latencyMS

def latencySum (rs : List (ProbeResult F)) : F := rs.foldl (fun sum r => sum + r.latencyMS) (ofInt 0)

def buckets (roundID : Int) (rs : List (ProbeResult F)) : List BucketRow :=
  let keys := rs.map fun r => bucketOf r.latencyMS
  keys.dedup.map fun k => ⟨roundID, k, keys.count k⟩

/-- The smallest positive time of the records, and of the time found so far unless it is zero. -/
def oldestRecord (oldest : Int) (records : List AnswerRecord) : Int :=
  records.foldl (fun t r =>
    if 0 < r.observedAt ∧ (t = 0 ∨ r.observedAt < t) then r.observedAt else t) oldest

def oldestReference (refs : List Reference) : Int :=
  refs.foldl (fun t ref =>
    oldestRecord (if 0 < ref.timestamp ∧ (t = 0 ∨ ref.timestamp < t) then ref.timestamp else t)
      ref.records) 0

/-- The end of a new round's interval: the next one's finish time when that comes first. -/
def coveredUntil (rounds : List (RoundRow F)) (v : Round F) : Int :=
  if v.auxiliary then v.nextDue
  else
    match (((formal v.serverID rounds).map (·.finishedAt)).filter (v.finishedAt ≤ ·)).min? with
    | some next => if next < v.nextDue then next else v.nextDue
    | none => v.nextDue

def predecessor (roundID : Int) (v : Round F) (rounds : List (RoundRow F)) : Option (RoundRow F) :=
  latest timeKey ((formal v.serverID rounds).filter fun q =>
    q.id ≠ roundID && q.finishedAt ≤ v.finishedAt)

def truncatePredecessor (roundID : Int) (v : Round F) (rounds : List (RoundRow F)) :
    List (RoundRow F) :=
  match predecessor roundID v rounds with
  | some q =>
    update (fun r => r.id = q.id) (fun r => { r with coveredUntil := min r.nextDue v.finishedAt })
      rounds
  | none => rounds

section

variable [CaseTables]

/-- A probe result as the round it belongs to stores it. -/
def normalizeResult (v : Round F) (r : ProbeResult F) : ProbeResult F :=
  let subject := normalizeSubject r.domain r.type
  { r with
    serverID := v.serverID
    timestamp := if r.timestamp = 0 then v.finishedAt else r.timestamp
    domain := subject.1
    type := subject.2 }

def resultRow (overrides : List Override) (roundID id : Int) (v : Round F) (r : ProbeResult F) :
    ResultRow F :=
  let r := normalizeResult v r
  { id
    roundID
    serverID := v.serverID
    timestamp := r.timestamp
    domain := r.domain
    type := r.type
    detectedPollution := pollutionCode r.pollution
    effectivePollution := effectiveCode (pollutionCode r.pollution) r.policyVersion
      (verdictOf overrides v.serverID r.domain r.type)
    oldestReference := oldestReference r.references
    rawJSON := some r
    policyVersion := r.policyVersion }

def resultRows (overrides : List Override) (roundID : Int) (v : Round F) :
    Int → List (ProbeResult F) → List (ResultRow F)
  | _, [] => []
  | seq, r :: rs =>
    resultRow overrides roundID (seq + 1) v r :: resultRows overrides roundID v (seq + 1) rs

def roundRow (rounds : List (RoundRow F)) (roundID : Int) (v : Round F) (pollution : Nat) :
    RoundRow F where
  id := roundID
  serverID := v.serverID
  startedAt := v.startedAt
  finishedAt := v.finishedAt
  nextDue := v.nextDue
  coveredUntil := coveredUntil rounds v
  auxiliary := v.auxiliary
  samples := v.results.length
  received := received v.results
  successes := successes v.results
  latencyCount := (timed v.results).length
  latencySum := latencySum (timed v.results)
  pollution := pollution

def newRoundID (db : DB F) : Int := nextID (db.rounds.map (·.id))

def newResults (db : DB F) (v : Round F) : List (ResultRow F) :=
  resultRows db.overrides (newRoundID db) v db.resultSeq v.results

def newRound (db : DB F) (v : Round F) : RoundRow F :=
  roundRow db.rounds (newRoundID db) v (maxOf (·.effectivePollution) (newResults db v))

def insertRound (db : DB F) (v : Round F) : DB F :=
  let rounds := db.rounds ++ [newRound db v]
  { db with
    rounds := if v.auxiliary then rounds else truncatePredecessor (newRoundID db) v rounds
    results := db.results ++ newResults db v
    resultSeq := db.resultSeq + v.results.length
    latencyBuckets := db.latencyBuckets ++ buckets (newRoundID db) (timed v.results) }

end

/-- Not-a-number and the infinities have no JSON text. -/
def marshalResult (r : ProbeResult F) : Except StoreError Unit :=
  require (isFinite r.latencyMS) .json

def marshalEvaluation (e : CurrentEvaluation F) : Except StoreError Unit :=
  require (isFinite e.metrics.availability ∧ isFinite e.metrics.successRate ∧
    isFinite e.metrics.averageMS ∧ isFinite e.metrics.p95MS ∧ isFinite e.metrics.coverage ∧
    isFinite e.metrics.score ∧ isFinite e.coveredMinutes) .json

def saveEvaluationSnapshot (db : DB F) (serverID roundID at' : Int) : Except StoreError (DB F) :=
  match findServer db serverID with
  | none => .error .noRows
  | some server => do
    let evaluation ← evaluateCurrent db server db.config at'
    let pollution := if server.trusted then str "clean" else evaluation.metrics.pollution
    let evaluation := { evaluation with metrics := { evaluation.metrics with pollution } }
    marshalEvaluation evaluation
    let row : SnapshotRow F :=
      { roundID, serverID, timestamp := at', pollution, grade := evaluation.metrics.grade,
        trusted := server.trusted, evaluation }
    return { db with evaluationSnapshots := db.evaluationSnapshots ++ [row] }

def checkRound (v : Round F) : Except StoreError Unit :=
  require (¬ (v.serverID ≤ 0 ∨ v.startedAt ≤ 0 ∨ v.finishedAt < v.startedAt ∨
    v.nextDue ≤ v.finishedAt)) (.text "invalid probe round timestamps or server")

def saveRound [CaseTables] (db : DB F) (v : Round F) : Except StoreError (DB F) := do
  checkRound v
  require ((findServer db v.serverID).isSome) .constraint
  v.results.forM marshalResult
  if v.auxiliary then return insertRound db v
  else saveEvaluationSnapshot (insertRound db v) v.serverID (newRoundID db) v.finishedAt

end DnsMonitor.Store.Rounds

import DnsMonitor.Store.StatusHistory
import DnsMonitor.Store.Streak

namespace DnsMonitor.Store.Summary

open DnsMonitor.Model DnsMonitor.Lib.Tables DnsMonitor.Store.Schema DnsMonitor.Store.Current
open DnsMonitor.Store.StatusHistory DnsMonitor.Store.Streak
open DnsMonitor.Go.Strings DnsMonitor.Go.Errors DnsMonitor.Go.Float

variable {F : Type} [GoFloat F]

structure ServerSummary (F : Type) where
  statusHistory : List (StatusBucket F)
  server : Server
  current : CurrentEvaluation F
  metrics : Metrics F
  lastProbe : Int
  nextDue : Int
  lastSuccess : Bool
  failures : Int
deriving DecidableEq

def finish (a : Accumulator F) (window : Int) (w : RatingWeights F) : Metrics F :=
  finishWithThresholds a window 10 (30 * 60 * 1000) w

/-- Trust is applied before scoring. -/
def finishForServer (a : Accumulator F) (window : Int) (trusted : Bool) (w : RatingWeights F) :
    Metrics F :=
  if trusted then finish { a with pollution := 1 } window w else finish a window w

/-- The scheduled rounds that finished in the range or whose interval reaches into it. -/
def scan (db : DB F) (serverID since now : Int) : List (RoundRow F) :=
  (formal serverID db.rounds).filter fun r =>
    r.finishedAt ≤ now && (since ≤ r.finishedAt || since < r.coveredUntil)

/-- The time a round stands for, as far as it lies in the range, times its share of answers. -/
def availableIn (since now : Int) (r : RoundRow F) : F :=
  ofInt (overlap since now r) * ofInt 1 * ofInt r.received / ofInt (max 1 r.samples)

def pollutionIn (since : Int) (rows : List (RoundRow F)) : Nat :=
  maxOf (fun r => if since ≤ r.finishedAt then r.pollution else 0) rows

/-- The row of a server in the two grouped queries; a server without one has zeros. -/
def summaryAccumulator (db : DB F) (serverID since now : Int) : Accumulator F :=
  let rows := scan db serverID since now
  { samples := countIn since (·.samples) rows
    availability := ofInt 0
    covered := ofInt (rows.map (overlap since now)).sum
    available := GoFloat.sum (rows.map (availableIn since now))
    latencySum := latencySumIn since rows
    successes := countIn since (·.successes) rows
    latencyCount := countIn since (·.latencyCount) rows
    pollution := pollutionIn since rows
    buckets := bucketsIn db serverID since now }

def summaryMetrics (db : DB F) (server : Server) (since now : Int) : Metrics F :=
  finishForServer (summaryAccumulator db server.id since now) (now - since) server.trusted
    (configRatingWeights db.config)

def lastRound (db : DB F) (serverID : Int) : Option (RoundRow F) :=
  latest timeKey (formal serverID db.rounds)

def summaryOf (db : DB F) (since now : Int) (server : Server) :
    Except StoreError (ServerSummary F) := do
  let current ← evaluateCurrent db server db.config now
  let statusHistory ← statusHistory db server.id since now false
  return {
    statusHistory
    server
    current
    metrics := summaryMetrics db server since now
    lastProbe := ((lastRound db server.id).map (·.finishedAt)).getD 0
    nextDue := ((lastRound db server.id).map (·.nextDue)).getD 0
    lastSuccess := ((lastRound db server.id).map fun r => decide (0 < r.successes)).getD false
    failures := summaryFailures db server.id }

/-- `Summary` when it finds nothing in its cache. -/
def summary (db : DB F) (since now : Int) : Except StoreError (List (ServerSummary F)) := do
  require (since < now) (.text "invalid time range")
  db.servers.mapM (summaryOf db since now)

def currentEvaluation (db : DB F) (serverID now : Int) :
    Except StoreError (CurrentEvaluation F) :=
  match findServer db serverID with
  | none => .error .noRows
  | some server => evaluateCurrent db server db.config now

end DnsMonitor.Store.Summary

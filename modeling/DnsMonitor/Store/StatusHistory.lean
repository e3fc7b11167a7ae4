import DnsMonitor.Store.Rounds

namespace DnsMonitor.Store.StatusHistory

open DnsMonitor.Model DnsMonitor.Lib.Tables DnsMonitor.Store.Schema
open DnsMonitor.Go.Strings DnsMonitor.Go.Errors DnsMonitor.Go.Float

structure EvaluationSnapshot (F : Type) where
  timestamp : Int
  trusted : Bool
  current : CurrentEvaluation F
deriving DecidableEq

/-- A bucket without a grade shows `no_data`. -/
structure StatusBucket (F : Type) where
  timestamp : Int
  endsAt : Int
  snapshots : Nat
  pollution : GoString
  grade : Option Grade
  qualityCounts : List (GoString × Nat)
  gradeCounts : List (Grade × Nat)
  latest : Option (EvaluationSnapshot F)
deriving DecidableEq

/-- A quality that is not in the table has no severity. -/
def qualitySeverity (quality : GoString) : Nat :=
  if quality = str "matched" then 1
  else if quality = str "clean" then 2
  else if quality = str "unknown" then 3
  else if quality = str "suspicious" then 4
  else if quality = str "polluted" then 5
  else 0

def gradeSeverity : Option Grade → Nat
  | none => 0
  | some .a => 1
  | some .b => 2
  | some .c => 3
  | some .d => 4
  | some .pending => 5
  | some .e => 6
  | some .f => 7
  | some .unavailable => 8

/-- `counts[key] += n`. -/
def addCount {κ : Type} [DecidableEq κ] (key : κ) (n : Nat) : List (κ × Nat) → List (κ × Nat)
  | [] => [(key, n)]
  | (k, m) :: rest => if k = key then (k, m + n) :: rest else (k, m) :: addCount key n rest

variable {F : Type}

/-- One group of snapshots, with the number of rows in it. -/
def addGroup (point : StatusBucket F) (group : (GoString × Grade) × Nat) : StatusBucket F :=
  let ((quality, grade), n) := group
  { point with
    snapshots := point.snapshots + n
    qualityCounts := addCount quality n point.qualityCounts
    gradeCounts := addCount grade n point.gradeCounts
    pollution :=
      if qualitySeverity point.pollution < qualitySeverity quality then quality
      else point.pollution
    grade := if gradeSeverity point.grade < gradeSeverity (some grade) then some grade else point.grade }

/-- `GROUP BY`, for the groups of one bucket. -/
def groups (rows : List (SnapshotRow F)) : List ((GoString × Grade) × Nat) :=
  let keys := rows.map fun r => (r.pollution, r.grade)
  keys.dedup.map fun k => (k, keys.count k)

def bucketTotal (range : Int) : Int :=
  if 7 * 24 * 60 * 60 * 1000 < range then 60
  else if 24 * 60 * 60 * 1000 < range then 56
  else 48

/-- Buckets are half open; the last one holds the end of the range too. -/
def bucketIndex (count since step t : Int) : Int := min (count - 1) ((t - since) / step)

def emptyBucket (since now step i : Int) : StatusBucket F where
  timestamp := int64 (since + i * step)
  endsAt := min now (int64 (since + (i + 1) * step))
  snapshots := 0
  pollution := str "no_data"
  grade := none
  qualityCounts := []
  gradeCounts := []
  latest := none

def snapshotKey (r : SnapshotRow F) : Int ×ₗ Int := toLex (r.timestamp, r.roundID)

def attachLatest (rows : List (SnapshotRow F)) (last : Bool) (now : Int) (point : StatusBucket F) :
    Except StoreError (StatusBucket F) :=
  if point.snapshots = 0 then .ok point
  else
    let limit := if last then now else point.endsAt - 1
    match latest snapshotKey
        (rows.filter fun r => point.timestamp ≤ r.timestamp && r.timestamp ≤ limit) with
    | none => .error .noRows
    | some r => .ok { point with latest := some ⟨r.timestamp, r.trusted, r.evaluation⟩ }

def statusHistory (db : DB F) (serverID since now : Int) (includeLatest : Bool) :
    Except StoreError (List (StatusBucket F)) := do
  let range := int64 (now - since)
  require (¬ (now ≤ since ∨ range > retention)) (.text "invalid status history range")
  let count := bucketTotal range
  let step := (range + count - 1) / count
  let count := (range + step - 1) / step
  let rows := db.evaluationSnapshots.filter fun r => r.serverID = serverID
  let inRange := rows.filter fun r => since ≤ r.timestamp && r.timestamp ≤ now
  let points := (List.range count.toNat).map fun i : ℕ =>
    (groups (inRange.filter fun r => bucketIndex count since step r.timestamp = i)).foldl addGroup
      (emptyBucket since now step i)
  if includeLatest then
    (List.range count.toNat).zip points |>.mapM fun (i, point) =>
      attachLatest rows (i + 1 = count) now point
  else return points

end DnsMonitor.Store.StatusHistory

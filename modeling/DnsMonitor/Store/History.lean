import DnsMonitor.Store.Spacing

namespace DnsMonitor.Store.History

open DnsMonitor.Model DnsMonitor.Lib.Tables DnsMonitor.Lib.Intervals
open DnsMonitor.Store.Schema DnsMonitor.Store.Current DnsMonitor.Store.Rounds
open DnsMonitor.Store.Migration DnsMonitor.Store.Run DnsMonitor.Store.Summary
open DnsMonitor.Store.Spacing
open DnsMonitor.Go.Strings DnsMonitor.Go.Unicode DnsMonitor.Go.Errors DnsMonitor.Go.Float

/-- A call returns an error, or the program stops at an operation that has no result. -/
inductive Failure where
  | error (e : StoreError)
  | crash
deriving DecidableEq

structure HistoryPoint (F : Type) where
  timestamp : Int
  metrics : Metrics F
deriving DecidableEq

structure Sums (F : Type) where
  points : List (Accumulator F)
  total : Accumulator F

section

variable {F : Type} [GoFloat F]

def emptyAccumulator : Accumulator F where
  samples := 0
  availability := ofInt 0
  covered := ofInt 0
  available := ofInt 0
  latencySum := ofInt 0
  successes := 0
  latencyCount := 0
  pollution := 0
  buckets := []

def pointWidth (since now stepMS : Int) : Int :=
  let stepMS := if stepMS < 1 then 5 * 60 * 1000 else stepMS
  max stepMS ((now - since + 999) / 1000)

/-- The number of points; division of `int64` rounds towards zero. -/
def pointCount (since now width : Int) : Int := (int64 (now - since + width - 1)).tdiv width

def addCounts (r : RoundRow F) (a : Accumulator F) : Accumulator F :=
  { a with
    samples := a.samples + r.samples
    successes := a.successes + r.successes
    latencyCount := a.latencyCount + r.latencyCount
    latencySum := a.latencySum + r.latencySum
    pollution := max a.pollution r.pollution }

def addTime (duration : Int) (ratio : F) (a : Accumulator F) : Accumulator F :=
  { a with
    covered := a.covered + ofInt duration
    available := a.available + ofInt duration * ratio }

/-- The point of a time in the range; the last one holds the end of the range too. -/
def pointIndex (since width count finishedAt : Int) : Int :=
  min (count - 1) ((finishedAt - since) / width)

def countRow (since width count : Int) (s : Sums F) (r : RoundRow F) : Except Failure (Sums F) :=
  if since ≤ r.finishedAt then
    let i := pointIndex since width count r.finishedAt
    if 0 ≤ i then
      .ok { points := s.points.modify i.toNat (addCounts r), total := addCounts r s.total }
    else .error .crash
  else .ok s

def giveTime (duration : Int) (ratio : F) (i : Int) (points : List (Accumulator F)) :
    List (Accumulator F) :=
  if 0 < duration then points.modify i.toNat (addTime duration ratio) else points

/-- Spread the time from `start` to `stop` over the points from one of them on. -/
def spread (since width start stop : Int) (ratio : F) :
    Nat → Int → List (Accumulator F) → List (Accumulator F)
  | 0, _, points => points
  | n + 1, i, points =>
    let bucketStart := since + i * width
    if stop ≤ bucketStart then points
    else
      let d := int64 (min stop (int64 (bucketStart + width)) - max start bucketStart)
      spread since width start stop ratio n (i + 1) (giveTime d ratio i points)

def ratio (r : RoundRow F) : F := ofInt r.received / ofInt (max r.samples 1)

def spreadRow (since now width count : Int) (s : Sums F) (r : RoundRow F) : Sums F :=
  let start := max r.finishedAt since
  let stop := min r.coveredUntil now
  if stop ≤ start then s
  else
    let i := (start - since) / width
    { points := spread since width start stop (ratio r) (count - i).toNat i s.points
      total := addTime (stop - start) (ratio r) s.total }

def addRow (since now width count : Int) (s : Sums F) (r : RoundRow F) : Except Failure (Sums F) := do
  let s ← countRow since width count s r
  return spreadRow since now width count s r

/-- The rounds of the query, in the order of its index. -/
def historyRows (db : DB F) (serverID since now : Int) : List (RoundRow F) :=
  (scan db serverID since now).insertionSort fun q r => timeKey q ≤ timeKey r

def pointBuckets (db : DB F) (serverID since now width count i : Int) : List BucketRow :=
  ((windowRounds db serverID since now).filter fun r =>
      pointIndex since width count r.finishedAt = i).flatMap
    fun r => db.latencyBuckets.filter (·.roundID = r.id)

def addBuckets (db : DB F) (serverID since now width count : Int) (s : Sums F) : Sums F where
  points := s.points.mapIdx fun i a =>
    { a with buckets := pointBuckets db serverID since now width count i }
  total := { s.total with buckets := bucketsIn db serverID since now }

def historySums (db : DB F) (serverID since now width : Int) : Except Failure (Sums F) := do
  let count := pointCount since now width
  if count < 0 then .error .crash
  else
    let s ← (historyRows db serverID since now).foldlM (addRow since now width count)
      { points := List.replicate count.toNat emptyAccumulator, total := emptyAccumulator }
    return addBuckets db serverID since now width count s

def finishSums (config : Config F) (server : Server) (since now width : Int) (s : Sums F) :
    List (HistoryPoint F) × Metrics F :=
  let w := configRatingWeights config
  (s.points.mapIdx fun i a =>
    let timestamp := since + i * width
    { timestamp, metrics := finishForServer a (min width (now - timestamp)) server.trusted w },
    finishForServer s.total (now - since) server.trusted w)

def history (db : DB F) (serverID since now stepMS : Int) :
    Except Failure (List (HistoryPoint F) × Metrics F) := do
  if now ≤ since then .error (.error (.text "invalid time range"))
  else
    match findServer db serverID with
    | none => .error (.error .noRows)
    | some server =>
      let width := pointWidth since now stepMS
      let s ← historySums db serverID since now width
      return finishSums db.config server since now width s

end

section

variable {F : Type} [GoFloat F] {since now width count : Int}

def addTotal (since now : Int) (a : Accumulator F) (r : RoundRow F) : Accumulator F :=
  let a := if since ≤ r.finishedAt then addCounts r a else a
  let start := max r.finishedAt since
  let stop := min r.coveredUntil now
  if stop ≤ start then a else addTime (stop - start) (ratio r) a

theorem addRow_total {s s' : Sums F} {r : RoundRow F}
    (h : addRow since now width count s r = .ok s') : s'.total = addTotal since now s.total r := by
  rw [addRow, bind_eq_ok] at h
  obtain ⟨s₁, h₁, h⟩ := h
  rw [pure_eq_ok] at h
  have hcount : s₁.total = if since ≤ r.finishedAt then addCounts r s.total else s.total := by
    simp only [countRow] at h₁
    split_ifs at h₁ ⊢ with hin hi
    · rw [← Except.ok.inj h₁]
    · rw [← Except.ok.inj h₁]
  rw [← h, spreadRow, addTotal, ← hcount]
  dsimp only
  split_ifs <;> rfl

theorem foldlM_total {rows : List (RoundRow F)} {s s' : Sums F}
    (h : rows.foldlM (addRow since now width count) s = .ok s') :
    s'.total = rows.foldl (addTotal since now) s.total := by
  induction rows generalizing s with
  | nil =>
    rw [List.foldlM_nil, pure_eq_ok] at h
    rw [h]
    rfl
  | cons r rows ih =>
    rw [List.foldlM_cons, bind_eq_ok] at h
    obtain ⟨s₁, h₁, h⟩ := h
    rw [ih h, addRow_total h₁, List.foldl_cons]

end

section

variable {since now : Int}

theorem availableIn_eq (r : RoundRow ℚ) :
    availableIn since now r = (overlap since now r : ℚ) * ratio r := by
  simp only [availableIn, ratio, ofInt_rat, Int.cast_one, mul_one]
  rw [mul_div_assoc, max_comm]

theorem foldl_addTotal (rows : List (RoundRow ℚ)) (a : Accumulator ℚ) :
    rows.foldl (addTotal since now) a =
      { a with
        samples := a.samples + countIn since (·.samples) rows
        covered := a.covered + ((rows.map (overlap since now)).sum : Int)
        available := a.available + (rows.map (availableIn since now)).sum
        latencySum := a.latencySum + latencySumIn since rows
        successes := a.successes + countIn since (·.successes) rows
        latencyCount := a.latencyCount + countIn since (·.latencyCount) rows
        pollution := max a.pollution (pollutionIn since rows) } := by
  induction rows generalizing a with
  | nil => simp [countIn, latencySumIn, pollutionIn, GoFloat.sum]
  | cons r rows ih =>
    have htime : ∀ b : Accumulator ℚ,
        (if min r.coveredUntil now ≤ max r.finishedAt since then b
          else addTime (min r.coveredUntil now - max r.finishedAt since) (ratio r) b) =
        { b with
          covered := b.covered + (overlap since now r : Int)
          available := b.available + availableIn since now r } := by
      intro b
      rw [availableIn_eq]
      split_ifs with h
      · have hspan : overlap since now r = 0 := by
          rw [overlap]
          omega
        simp [hspan]
      · have hspan : overlap since now r = min r.coveredUntil now - max r.finishedAt since := by
          rw [overlap]
          omega
        rw [hspan]
        rfl
    rw [List.foldl_cons, ih, addTotal, htime]
    by_cases hr : since ≤ r.finishedAt
    · simp only [hr, if_true, addCounts, countIn, latencySumIn, pollutionIn, GoFloat.sum,
        List.map_cons, List.sum_cons, maxOf_cons, Int.cast_add, add_assoc, max_assoc]
    · simp only [hr, if_false, countIn, latencySumIn, pollutionIn, GoFloat.sum, List.map_cons,
        List.sum_cons, maxOf_cons, Int.cast_add, add_assoc, ofInt_rat, Int.cast_zero, zero_add,
        Nat.zero_max]

theorem historyRows_perm (db : DB ℚ) (serverID since now : Int) :
    (historyRows db serverID since now).Perm (scan db serverID since now) :=
  List.perm_insertionSort _ _

theorem historySums_total {db : DB ℚ} {serverID width : Int} {s : Sums ℚ}
    (h : historySums db serverID since now width = .ok s) :
    s.total = summaryAccumulator db serverID since now := by
  rw [historySums] at h
  split_ifs at h with hc
  rw [bind_eq_ok] at h
  obtain ⟨s₁, h₁, h⟩ := h
  rw [pure_eq_ok] at h
  have hperm := historyRows_perm db serverID since now
  rw [← h, addBuckets, foldlM_total h₁, foldl_addTotal, summaryAccumulator]
  simp only [emptyAccumulator, countIn, latencySumIn, pollutionIn, GoFloat.sum, zero_add,
    (hperm.map _).sum_eq, maxOf_perm _ hperm, ofInt_rat, Int.cast_zero, Nat.zero_max]

end

end DnsMonitor.Store.History

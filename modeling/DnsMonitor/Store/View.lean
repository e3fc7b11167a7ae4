import DnsMonitor.Store.Schedule

namespace DnsMonitor.Store.View

open DnsMonitor.Model DnsMonitor.Lib.Tables DnsMonitor.Store.Schema DnsMonitor.Store.Current
open DnsMonitor.Store.Rounds DnsMonitor.Store.Schedule
open DnsMonitor.Go.Strings DnsMonitor.Go.Errors DnsMonitor.Go.Float

section

variable {F : Type}

def past (serverID now : Int) (db : DB F) : List (RoundRow F) :=
  (formal serverID db.rounds).filter (·.finishedAt ≤ now)

def seen (f : Int → Int) (now : Int) (r : RoundRow F) : RoundRow F :=
  { r with id := f r.id, coveredUntil := min r.coveredUntil now }

def bucketKey (b : BucketRow) : Int × Nat := (b.bucketMS, b.count)

/-- Two databases in which the rounds of a server up to a time differ in their ids only. -/
structure SameView (f : Int → Int) (serverID now : Int) (a b : DB F) : Prop where
  rounds : (past serverID now b).map (seen id now) = (past serverID now a).map (seen f now)
  ids : ∀ q ∈ past serverID now a, ∀ r ∈ past serverID now a, f q.id < f r.id ↔ q.id < r.id
  buckets : ∀ q ∈ past serverID now a,
    (b.latencyBuckets.filter (·.roundID = f q.id)).map bucketKey =
      (a.latencyBuckets.filter (·.roundID = q.id)).map bucketKey
  judged : ∀ q ∈ past serverID now a,
    (judged b (f q.id)).map (·.effectivePollution) =
      (judged a q.id).map (·.effectivePollution)

variable {f : Int → Int} {serverID since now : Int} {a b : DB F} {rows rows' : List (RoundRow F)}

theorem map_of_seen {β : Type} {g : RoundRow F → β}
    (hg : ∀ r i, g { r with id := i, coveredUntil := min r.coveredUntil now } = g r)
    (h : rows'.map (seen id now) = rows.map (seen f now)) : rows'.map g = rows.map g := by
  have hkey : ∀ (f : Int → Int) (rows : List (RoundRow F)),
      rows.map g = (rows.map (seen f now)).map g := by
    intro f rows
    rw [List.map_map]
    apply List.map_congr_left
    intro r _
    exact (hg r (f r.id)).symm
  rw [hkey id rows', h, ← hkey f rows]

theorem filter_of_seen {p : RoundRow F → Bool}
    (hp : ∀ r i, p { r with id := i, coveredUntil := min r.coveredUntil now } = p r)
    (h : rows'.map (seen id now) = rows.map (seen f now)) :
    (rows'.filter p).map (seen id now) = (rows.filter p).map (seen f now) := by
  have hkey : ∀ (f : Int → Int) (rows : List (RoundRow F)),
      (rows.filter p).map (seen f now) = (rows.map (seen f now)).filter p := by
    intro f rows
    rw [List.filter_map]
    congr 2
    funext r
    exact (hp r (f r.id)).symm
  rw [hkey, h, ← hkey]

theorem latest_of_seen (hids : ∀ q ∈ rows, ∀ r ∈ rows, f q.id < f r.id ↔ q.id < r.id)
    (h : rows'.map (seen id now) = rows.map (seen f now)) :
    (latest timeKey rows').map (seen id now) = (latest timeKey rows).map (seen f now) := by
  rw [← latest_map_of (m := timeKey) (g := seen id now), h]
  · apply latest_map_of
    intro q hq r hr
    simp only [timeKey_lt, seen, hids q hq r hr]
  · intro q _ r _
    simp only [timeKey_lt, seen, id]

theorem windowRounds_eq (db : DB F) (serverID since now : Int) :
    windowRounds db serverID since now =
      (past serverID now db).filter (since ≤ ·.finishedAt) := by
  rw [windowRounds, past, List.filter_filter]

theorem before_eq (h : since ≤ now) (db : DB F) :
    (formal serverID db.rounds).filter (·.finishedAt < since) =
      (past serverID now db).filter (·.finishedAt < since) := by
  rw [past, List.filter_filter]
  apply List.filter_congr
  intro r _
  rw [Bool.eq_iff_iff]
  simp only [Bool.and_eq_true, decide_eq_true_eq]
  omega

theorem past_sublist (serverID now : Int) (db : DB F) :
    (past serverID now db).Sublist (formal serverID db.rounds) := List.filter_sublist

theorem SameView.window (h : SameView f serverID now a b) (since : Int) :
    (windowRounds b serverID since now).map (seen id now) =
      (windowRounds a serverID since now).map (seen f now) := by
  rw [windowRounds_eq, windowRounds_eq]
  exact filter_of_seen (fun _ _ => rfl) h.rounds

theorem SameView.ids_filter (h : SameView f serverID now a b) (p : RoundRow F → Bool) :
    ∀ q ∈ (past serverID now a).filter p, ∀ r ∈ (past serverID now a).filter p,
      f q.id < f r.id ↔ q.id < r.id :=
  fun q hq r hr => h.ids q (List.mem_filter.mp hq).1 r (List.mem_filter.mp hr).1

theorem SameView.crossing (h : SameView f serverID now a b) (hs : since < now) :
    (crossingRound b serverID since).map (seen id now) =
      (crossingRound a serverID since).map (seen f now) := by
  have hlatest := latest_of_seen (h.ids_filter (·.finishedAt < since))
    (filter_of_seen (p := (·.finishedAt < since)) (fun _ _ => rfl) h.rounds)
  rw [crossingRound, crossingRound, before_eq hs.le, before_eq hs.le]
  cases hb : latest timeKey ((past serverID now b).filter (·.finishedAt < since)) with
  | none =>
    rw [hb, Option.map_none, eq_comm, Option.map_eq_none_iff] at hlatest
    rw [hlatest]
    rfl
  | some q =>
    rw [hb, Option.map_some] at hlatest
    cases ha : latest timeKey ((past serverID now a).filter (·.finishedAt < since)) with
    | none =>
      rw [ha] at hlatest
      cases hlatest
    | some r =>
      rw [ha, Option.map_some] at hlatest
      have he : seen id now q = seen f now r := Option.some.inj hlatest
      have hcov : min q.coveredUntil now = min r.coveredUntil now :=
        congrArg RoundRow.coveredUntil he
      dsimp only
      split_ifs
      · rw [List.map_singleton, List.map_singleton, he]
      · omega
      · omega
      · rfl

theorem SameView.eligible_eq (h : SameView f serverID now a b) (hs : since < now) :
    (eligible b serverID since now).map (seen id now) =
      (eligible a serverID since now).map (seen f now) := by
  rw [eligible, eligible, List.map_append, List.map_append, h.window,
    h.crossing hs]

theorem overlap_seen (since now : Int) (r : RoundRow F) (i : Int) :
    overlap since now { r with id := i, coveredUntil := min r.coveredUntil now } =
      overlap since now r := by
  simp [overlap]

theorem SameView.coveredMS_eq (h : SameView f serverID now a b) (hs : since < now) :
    coveredMS b serverID since now = coveredMS a serverID since now := by
  rw [coveredMS, coveredMS, map_of_seen (overlap_seen since now) (h.eligible_eq hs)]

theorem SameView.countIn_eq (h : SameView f serverID now a b) (hs : since < now)
    (count : RoundRow F → Nat) (hc : ∀ r i n, count { r with id := i, coveredUntil := n } = count r) :
    countIn since count (eligible b serverID since now) =
      countIn since count (eligible a serverID since now) := by
  rw [countIn, countIn, map_of_seen _ (h.eligible_eq hs)]
  intro r i
  rw [hc]

theorem SameView.qualityTime_eq (h : SameView f serverID now a b) (hs : since < now) :
    qualityTime since (eligible b serverID since now) =
      qualityTime since (eligible a serverID since now) := by
  rw [qualityTime, qualityTime, map_of_seen (fun _ _ => rfl) (h.eligible_eq hs)]

/-- A lookup by the latest of some rounds finds the same one under its other id. -/
theorem latest_lookup {β : Type} {g g' : RoundRow F → β} {d : β}
    (h : (latest timeKey rows').map (seen id now) = (latest timeKey rows).map (seen f now))
    (hg : ∀ q ∈ rows, ∀ r, seen id now r = seen f now q → g' r = g q) :
    (match latest timeKey rows' with
      | some r => g' r
      | none => d) =
    match latest timeKey rows with
      | some r => g r
      | none => d := by
  cases hl' : latest timeKey rows' with
  | none =>
    rw [hl', Option.map_none, eq_comm, Option.map_eq_none_iff] at h
    rw [h]
  | some r =>
    cases hl : latest timeKey rows with
    | none =>
      rw [hl', hl] at h
      cases h
    | some q =>
      rw [hl', hl] at h
      exact hg q (latest_eq_some hl).1 r (Option.some.inj h)

theorem SameView.severity_eq (h : SameView f serverID now a b) (since : Int) :
    severity b serverID since now = severity a serverID since now := by
  have hwindow := h.window since
  rw [windowRounds_eq, windowRounds_eq] at hwindow
  rw [severity, severity, windowRounds_eq, windowRounds_eq]
  apply latest_lookup (latest_of_seen (h.ids_filter _) hwindow)
  intro q hq r he
  have hid : r.id = f q.id := congrArg RoundRow.id he
  have hjudged := h.judged q (List.mem_filter.mp hq).1
  rw [hid, ← maxOf_map severityCode, hjudged, maxOf_map]

theorem SameView.isUnreachable_eq (h : SameView f serverID now a b) :
    isUnreachable b serverID now = isUnreachable a serverID now := by
  apply latest_lookup (latest_of_seen h.ids h.rounds)
  intro q _ r he
  have hsamples := congrArg RoundRow.samples he
  have hsuccesses := congrArg RoundRow.successes he
  simp only [seen] at hsamples hsuccesses
  rw [hsamples, hsuccesses]

theorem SameView.bucketsIn_eq (h : SameView f serverID now a b) (since : Int) :
    (bucketsIn b serverID since now).map bucketKey =
      (bucketsIn a serverID since now).map bucketKey := by
  have hwindow := h.window since
  have hids : (windowRounds b serverID since now).map (·.id) =
      (windowRounds a serverID since now).map fun r => f r.id := by
    have hmap := congrArg (List.map RoundRow.id) hwindow
    rw [List.map_map, List.map_map] at hmap
    exact hmap
  have hflat : ∀ (db : DB F) (rows : List (RoundRow F)),
      rows.flatMap (fun r => (db.latencyBuckets.filter (·.roundID = r.id)).map bucketKey) =
        (rows.map (·.id)).flatMap fun i =>
          (db.latencyBuckets.filter (·.roundID = i)).map bucketKey := by
    intro db rows
    rw [List.flatMap_map]
  rw [bucketsIn, bucketsIn, List.map_flatMap, List.map_flatMap, hflat, hids,
    List.flatMap_map]
  apply List.flatMap_congr
  intro r hr
  rw [windowRounds_eq] at hr
  exact h.buckets r (List.mem_filter.mp hr).1

end

section

variable {F : Type} [GoFloat F] {f : Int → Int} {serverID since now : Int} {a b : DB F}

theorem bucketCount_congr {bs bs' : List BucketRow} (h : bs'.map bucketKey = bs.map bucketKey)
    (k : Int) : bucketCount bs' k = bucketCount bs k := by
  have hkey : ∀ bs : List BucketRow,
      bucketCount bs k = (((bs.map bucketKey).filter (·.1 = k)).map (·.2)).sum := by
    intro bs
    rw [List.filter_map, List.map_map]
    rfl
  rw [hkey, h, ← hkey]

theorem percentile_congr {bs bs' : List BucketRow} (h : bs'.map bucketKey = bs.map bucketKey)
    (threshold count : Int) (keys : List Int) :
    percentile threshold bs' count keys = percentile threshold bs count keys := by
  induction keys generalizing count with
  | nil => rfl
  | cons k keys ih => simp only [percentile, bucketCount_congr h, ih]

theorem finishWithThresholds_congr {x : Accumulator F} {bs : List BucketRow}
    (h : bs.map bucketKey = x.buckets.map bucketKey) (window minSamples minCoverageMS : Int)
    (w : RatingWeights F) :
    finishWithThresholds { x with buckets := bs } window minSamples minCoverageMS w =
      finishWithThresholds x window minSamples minCoverageMS w := by
  have hkeys : bs.map (·.bucketMS) = x.buckets.map (·.bucketMS) := by
    have hmap := congrArg (List.map Prod.fst) h
    rw [List.map_map, List.map_map] at hmap
    exact hmap
  have hp95 : p95MS { x with buckets := bs } = p95MS x := by
    simp only [p95MS, hkeys, percentile_congr h]
  simp only [finishWithThresholds, Accumulator.score, Accumulator.latencyScore, hp95]
  rfl

theorem SameView.accumulate_eq {server : Server} (h : SameView f server.id now a b)
    (hs : since < now) : accumulate b server since now =
      { accumulate a server since now with buckets := bucketsIn b server.id since now } := by
  have havailable : availableMS b server.id since now = availableMS a server.id since now := by
    rw [availableMS, availableMS, map_of_seen _ (h.eligible_eq hs)]
    intro r i
    rw [overlap_seen]
  have hsum : latencySumIn since (eligible b server.id since now) =
      latencySumIn since (eligible a server.id since now) := by
    rw [latencySumIn, latencySumIn, map_of_seen (fun _ _ => rfl) (h.eligible_eq hs)]
  simp only [accumulate, h.coveredMS_eq hs, havailable, hsum, h.qualityTime_eq hs,
    h.severity_eq, h.countIn_eq hs (·.samples) (fun _ _ _ => rfl),
    h.countIn_eq hs (·.received) (fun _ _ _ => rfl),
    h.countIn_eq hs (·.successes) (fun _ _ _ => rfl),
    h.countIn_eq hs (·.latencyCount) (fun _ _ _ => rfl)]

theorem adjust_congr (unreachable : Bool) (server : Server) (config : Config F)
    (x : Accumulator F) (bs : List BucketRow) (value : CurrentEvaluation F) :
    adjust unreachable server config { x with buckets := bs } value =
      adjust unreachable server config x value := rfl

/-- The evaluation of a server at a time depends on what it sees only. -/
theorem SameView.evaluateCurrent_eq {server : Server} (h : SameView f server.id now a b)
    (config : Config F) : evaluateCurrent b server config now =
      evaluateCurrent a server config now := by
  simp only [evaluateCurrent]
  cases hc : checkThresholds config now with
  | error e => rfl
  | ok u =>
    have hwindow : now - config.ratingWindowMinutes * 60 * 1000 < now := by
      rw [checkThresholds, require_eq_ok] at hc
      omega
    simp only [h.accumulate_eq hwindow, h.isUnreachable_eq, h.qualityTime_eq hwindow, adjust_congr]
    rw [finishWithThresholds_congr]
    exact h.bucketsIn_eq _

end

end DnsMonitor.Store.View

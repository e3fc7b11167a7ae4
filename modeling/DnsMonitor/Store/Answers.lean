import DnsMonitor.Store.Hidden
import DnsMonitor.Store.History

namespace DnsMonitor.Store.Answers

open DnsMonitor.Model DnsMonitor.Lib DnsMonitor.Lib.Tables DnsMonitor.Store.Schema
open DnsMonitor.Store.Current DnsMonitor.Store.Rounds DnsMonitor.Store.Migration
open DnsMonitor.Store.StatusHistory DnsMonitor.Store.Streak DnsMonitor.Store.Summary
open DnsMonitor.Store.History DnsMonitor.Store.View DnsMonitor.Store.Owners
open DnsMonitor.Store.Bundles DnsMonitor.Store.Hidden
open DnsMonitor.Go.Strings DnsMonitor.Go.Unicode DnsMonitor.Go.Errors DnsMonitor.Go.Float

section

variable {F : Type} {f : Int → Int} {a b : DB F}

theorem filter_renamed {p : SnapshotRow F → Bool} (hp : ∀ s, p (renamedSnapshot f s) = p s)
    (rows : List (SnapshotRow F)) :
    (rows.map (renamedSnapshot f)).filter p = (rows.filter p).map (renamedSnapshot f) := by
  rw [List.filter_map]
  congr 2
  funext s
  exact hp s

theorem groups_renamed (rows : List (SnapshotRow F)) :
    groups (rows.map (renamedSnapshot f)) = groups rows := by
  simp only [groups, List.map_map]
  rfl

theorem attachLatest_renamed {rows : List (SnapshotRow F)}
    (hids : ∀ r ∈ rows, ∀ s ∈ rows, f r.roundID < f s.roundID ↔ r.roundID < s.roundID)
    (last : Bool) (now : Int) (point : StatusBucket F) :
    attachLatest (rows.map (renamedSnapshot f)) last now point =
      attachLatest rows last now point := by
  have hlatest : ∀ p : SnapshotRow F → Bool, (∀ s, p (renamedSnapshot f s) = p s) →
      latest snapshotKey ((rows.map (renamedSnapshot f)).filter p) =
        (latest snapshotKey (rows.filter p)).map (renamedSnapshot f) := by
    intro p hp
    rw [filter_renamed hp]
    apply latest_map_of
    intro r hr s hs
    have hid := hids r (List.mem_filter.mp hr).1 s (List.mem_filter.mp hs).1
    simp only [snapshotKey, renamedSnapshot, Prod.Lex.toLex_lt_toLex, hid]
  rw [attachLatest, attachLatest]
  by_cases hnone : point.snapshots = 0
  · rw [if_pos hnone, if_pos hnone]
  · rw [if_neg hnone, if_neg hnone]
    generalize (if last then now else point.endsAt - 1) = limit
    dsimp only
    rw [hlatest _ fun _ => rfl]
    cases latest snapshotKey (rows.filter fun r => point.timestamp ≤ r.timestamp &&
      r.timestamp ≤ limit) <;> rfl

theorem statusHistory_eq (h : SameSchedule f a b) (ho : Origins a) (serverID since now : Int)
    (includeLatest : Bool) :
    statusHistory b serverID since now includeLatest =
      statusHistory a serverID since now includeLatest := by
  have hids : ∀ r ∈ a.evaluationSnapshots.filter (·.serverID = serverID),
      ∀ s ∈ a.evaluationSnapshots.filter (·.serverID = serverID),
        f r.roundID < f s.roundID ↔ r.roundID < s.roundID := by
    intro r hr s hs
    obtain ⟨q, hq, hqid⟩ := ho.snapshot r (List.mem_filter.mp hr).1
    obtain ⟨q', hq', hqid'⟩ := ho.snapshot s (List.mem_filter.mp hs).1
    rw [← hqid, ← hqid']
    exact h.ids q hq q' hq'
  have hserver : b.evaluationSnapshots.filter (·.serverID = serverID) =
      (a.evaluationSnapshots.filter (·.serverID = serverID)).map (renamedSnapshot f) := by
    rw [h.snapshots]
    exact filter_renamed (fun _ => rfl) _
  have hrange : ∀ rows : List (SnapshotRow F), (rows.map (renamedSnapshot f)).filter
      (fun r => since ≤ r.timestamp && r.timestamp ≤ now) =
        (rows.filter fun r => since ≤ r.timestamp && r.timestamp ≤ now).map (renamedSnapshot f) :=
    filter_renamed fun _ => rfl
  have hgroups : ∀ (count step i : Int) (rows : List (SnapshotRow F)),
      groups ((rows.map (renamedSnapshot f)).filter fun r =>
        bucketIndex count since step r.timestamp = i) =
      groups (rows.filter fun r => bucketIndex count since step r.timestamp = i) := by
    intro count step i rows
    rw [filter_renamed fun _ => rfl, groups_renamed]
  simp only [statusHistory, hserver, hrange, hgroups, attachLatest_renamed hids]

theorem formal_filter (h : SameSchedule f a b) (serverID : Int) {p : RoundRow F → Bool}
    (hp : ∀ q, p (renamed f q) = p q) :
    (formal serverID b.rounds).filter p = ((formal serverID a.rounds).filter p).map (renamed f) := by
  rw [h.formal_eq, List.filter_map]
  congr 2
  funext q
  exact hp q

theorem scan_eq (h : SameSchedule f a b) (serverID since now : Int) :
    scan b serverID since now = (scan a serverID since now).map (renamed f) :=
  formal_filter h serverID fun _ => rfl

theorem ids_of_formal (h : SameSchedule f a b) (serverID : Int) {rows : List (RoundRow F)}
    (hr : rows ⊆ formal serverID a.rounds) :
    ∀ q ∈ rows, ∀ r ∈ rows, f q.id < f r.id ↔ q.id < r.id :=
  fun q hq r hr' => h.ids_formal serverID q (hr hq) r (hr hr')

theorem latest_renamed {rows : List (RoundRow F)}
    (hids : ∀ q ∈ rows, ∀ r ∈ rows, f q.id < f r.id ↔ q.id < r.id) :
    latest timeKey (rows.map (renamed f)) = (latest timeKey rows).map (renamed f) := by
  apply latest_map_of
  intro q hq r hr
  simp only [timeKey_lt, renamed, hids q hq r hr]

theorem lastRound_eq (h : SameSchedule f a b) (serverID : Int) :
    lastRound b serverID = (lastRound a serverID).map (renamed f) := by
  rw [lastRound, lastRound, h.formal_eq, latest_renamed (h.ids_formal serverID)]

theorem summaryFailures_eq (h : SameSchedule f a b) (serverID : Int) :
    summaryFailures b serverID = summaryFailures a serverID := by
  have hprobe : lastProbe (formal serverID b.rounds) = lastProbe (formal serverID a.rounds) := by
    rw [lastProbe, lastProbe, h.formal_eq, latest_renamed (h.ids_formal serverID)]
    cases latest timeKey (formal serverID a.rounds) <;> rfl
  have hanswered : lastAnswered (formal serverID b.rounds) =
      lastAnswered (formal serverID a.rounds) := by
    rw [lastAnswered, lastAnswered, formal_filter h serverID fun _ => rfl, List.map_map]
    rfl
  have hcount : ∀ since, unanswered since (formal serverID b.rounds) =
      unanswered since (formal serverID a.rounds) := by
    intro since
    rw [unanswered, unanswered, formal_filter h serverID fun _ => rfl, List.length_map]
  simp only [summaryFailures, hprobe, hanswered, hcount]

theorem buckets_renamed (h : SameSchedule f a b) {rows : List (RoundRow F)}
    (hr : rows ⊆ scheduled a.rounds) :
    ((rows.map (renamed f)).flatMap fun r =>
        b.latencyBuckets.filter (·.roundID = r.id)).map bucketKey =
      (rows.flatMap fun r => a.latencyBuckets.filter (·.roundID = r.id)).map bucketKey := by
  rw [List.map_flatMap, List.map_flatMap, List.flatMap_map]
  apply List.flatMap_congr
  intro q hq
  exact (h.bundle_eq (hr hq)).2

theorem windowRounds_sub (db : DB F) (serverID since now : Int) :
    windowRounds db serverID since now ⊆ scheduled db.rounds := by
  intro q hq
  have hq := (List.mem_filter.mp hq).1
  rw [formal_scheduled] at hq
  exact (List.mem_filter.mp hq).1

theorem windowRounds_renamed (h : SameSchedule f a b) (serverID since now : Int) :
    windowRounds b serverID since now = (windowRounds a serverID since now).map (renamed f) :=
  formal_filter h serverID fun _ => rfl

theorem bucketsIn_renamed (h : SameSchedule f a b) (serverID since now : Int) :
    (bucketsIn b serverID since now).map bucketKey =
      (bucketsIn a serverID since now).map bucketKey := by
  rw [bucketsIn, windowRounds_renamed h, bucketsIn, buckets_renamed h (windowRounds_sub a _ _ _)]

theorem pointBuckets_renamed (h : SameSchedule f a b) (serverID since now width count i : Int) :
    (pointBuckets b serverID since now width count i).map bucketKey =
      (pointBuckets a serverID since now width count i).map bucketKey := by
  have hfilter : ((windowRounds a serverID since now).map (renamed f)).filter
      (fun r => pointIndex since width count r.finishedAt = i) =
      ((windowRounds a serverID since now).filter fun r =>
        pointIndex since width count r.finishedAt = i).map (renamed f) := by
    rw [List.filter_map]
    rfl
  rw [pointBuckets, windowRounds_renamed h, hfilter, pointBuckets, buckets_renamed h]
  exact fun q hq => windowRounds_sub a _ _ _ (List.mem_filter.mp hq).1

end

section

variable {F : Type} [GoFloat F] {f : Int → Int} {a b : DB F}

omit [GoFloat F] in
theorem config_eq (h : SameSchedule f a b) : b.config = a.config := congrArg (·.1) h.others

theorem finishForServer_congr {x : Accumulator F} {bs : List BucketRow}
    (h : bs.map bucketKey = x.buckets.map bucketKey) (window : Int) (trusted : Bool)
    (w : RatingWeights F) :
    finishForServer { x with buckets := bs } window trusted w = finishForServer x window trusted w := by
  rw [finishForServer, finishForServer]
  split_ifs
  · exact finishWithThresholds_congr (x := { x with pollution := 1 }) h _ _ _ _
  · exact finishWithThresholds_congr h _ _ _ _

theorem summaryMetrics_eq (h : SameSchedule f a b) (server : Server) (since now : Int) :
    summaryMetrics b server since now = summaryMetrics a server since now := by
  have hsums : summaryAccumulator b server.id since now =
      { summaryAccumulator a server.id since now with
        buckets := bucketsIn b server.id since now } := by
    simp only [summaryAccumulator, scan_eq h, countIn, latencySumIn, pollutionIn, List.map_map,
      maxOf_map]
    rfl
  rw [summaryMetrics, hsums, finishForServer_congr (bucketsIn_renamed h server.id since now),
    config_eq h, summaryMetrics]

theorem summaryOf_eq (h : SameSchedule f a b) (ho : Origins a) (since now : Int) (server : Server) :
    summaryOf b since now server = summaryOf a since now server := by
  rw [summaryOf, summaryOf, (h.sameView server.id now).evaluateCurrent_eq, config_eq h,
    statusHistory_eq h ho, summaryMetrics_eq h, lastRound_eq h, summaryFailures_eq h]
  simp only [Option.map_map]
  rfl

theorem summary_eq (h : SameSchedule f a b) (ho : Origins a) (since now : Int) :
    summary b since now = summary a since now := by
  have hservers : b.servers = a.servers := congrArg (·.2.1) h.others
  have hof : summaryOf b since now = summaryOf a since now :=
    funext fun server => summaryOf_eq h ho since now server
  rw [summary, summary, hservers, hof]

theorem currentEvaluation_eq (h : SameSchedule f a b) (serverID now : Int) :
    currentEvaluation b serverID now = currentEvaluation a serverID now := by
  rw [currentEvaluation, currentEvaluation, h.findServer_eq, config_eq h]
  cases findServer a serverID with
  | none => rfl
  | some server => exact (h.sameView server.id now).evaluateCurrent_eq a.config

omit [GoFloat F] in
theorem historyRows_eq (h : SameSchedule f a b) (serverID since now : Int) :
    historyRows b serverID since now = (historyRows a serverID since now).map (renamed f) := by
  have hids := ids_of_formal h serverID
    (show scan a serverID since now ⊆ formal serverID a.rounds from List.filter_sublist.subset)
  have hle : ∀ q ∈ scan a serverID since now, ∀ r ∈ scan a serverID since now,
      timeKey q ≤ timeKey r ↔ timeKey (renamed f q) ≤ timeKey (renamed f r) := by
    intro q hq r hr
    have hqr := hids q hq r hr
    have hrq := hids r hr q hq
    simp only [timeKey_le, renamed]
    omega
  rw [historyRows, scan_eq h, historyRows]
  exact (List.map_insertionSort (r := fun q r : RoundRow F => timeKey q ≤ timeKey r)
    (s := fun q r : RoundRow F => timeKey q ≤ timeKey r) (renamed f) _ hle).symm

theorem finishSums_renamed (h : SameSchedule f a b) (config : Config F) (server : Server)
    (serverID since now width count : Int) (s : Sums F) :
    finishSums config server since now width (addBuckets b serverID since now width count s) =
      finishSums config server since now width (addBuckets a serverID since now width count s) := by
  have hpoint : ∀ (i : Nat) (x : Accumulator F) window,
      finishForServer { x with buckets := pointBuckets b serverID since now width count i } window
          server.trusted (configRatingWeights config) =
        finishForServer { x with buckets := pointBuckets a serverID since now width count i } window
          server.trusted (configRatingWeights config) := by
    intro i x window
    exact finishForServer_congr (x := { x with
      buckets := pointBuckets a serverID since now width count i })
      (pointBuckets_renamed h serverID since now width count i) _ _ _
  have htotal := finishForServer_congr (x := { s.total with
    buckets := bucketsIn a serverID since now }) (bucketsIn_renamed h serverID since now)
    (now - since) server.trusted (configRatingWeights config)
  have hpoints : (addBuckets b serverID since now width count s).points.mapIdx (fun i x =>
        (⟨since + i * width, finishForServer x (min width (now - (since + i * width)))
          server.trusted (configRatingWeights config)⟩ : HistoryPoint F)) =
      (addBuckets a serverID since now width count s).points.mapIdx fun i x =>
        ⟨since + i * width, finishForServer x (min width (now - (since + i * width)))
          server.trusted (configRatingWeights config)⟩ := by
    simp only [addBuckets, List.mapIdx_mapIdx]
    congr 1
    funext i x
    exact congrArg _ (hpoint i x _)
  exact Prod.ext hpoints htotal

theorem history_eq (h : SameSchedule f a b) (serverID since now stepMS : Int) :
    history b serverID since now stepMS = history a serverID since now stepMS := by
  have hrows : ∀ width count s,
      (historyRows b serverID since now).foldlM (addRow since now width count) s =
        (historyRows a serverID since now).foldlM (addRow since now width count) s := by
    intro width count s
    rw [historyRows_eq h, List.foldlM_map]
    rfl
  rw [history, history, h.findServer_eq, config_eq h]
  split_ifs
  · rfl
  · cases findServer a serverID with
    | none => rfl
    | some server =>
      simp only [historySums, hrows]
      split_ifs
      · rfl
      · simp only [bind_assoc, pure_bind, finishSums_renamed h]

end

end DnsMonitor.Store.Answers

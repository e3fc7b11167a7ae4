import DnsMonitor.Store.History
import DnsMonitor.Store.Untouched

namespace DnsMonitor.Store.Statements

open DnsMonitor.Model DnsMonitor.Lib DnsMonitor.Lib.Runs DnsMonitor.Lib.Tables
open DnsMonitor.Store.Schema DnsMonitor.Store.Current DnsMonitor.Store.Rounds
open DnsMonitor.Store.Override DnsMonitor.Store.Cleanup DnsMonitor.Store.Migration
open DnsMonitor.Store.Run DnsMonitor.Store.Summary DnsMonitor.Store.History
open DnsMonitor.Store.WellFormed DnsMonitor.Store.Schedule DnsMonitor.Store.Owners
open DnsMonitor.Store.Bundles DnsMonitor.Store.StatusHistory DnsMonitor.Store.Streak
open DnsMonitor.Store.Untouched
open DnsMonitor.Go.Strings DnsMonitor.Go.Unicode DnsMonitor.Go.Errors DnsMonitor.Go.Float

section

variable {F : Type} [GoFloat F]

/-- The metrics of a server in `Summary`, of what the statements for the configuration, for the
counters and for the histogram have read. -/
def readMetrics (configured counted timed : DB F) (server : Server) (since now : Int) : Metrics F :=
  finishForServer { summaryAccumulator counted server.id since now with
      buckets := bucketsIn timed server.id since now }
    (now - since) server.trusted (configRatingWeights configured.config)

/-- The sums of `evaluateCurrent`, of what the statements for the counters, for the histogram and
for the quality have read. -/
def readAccumulator (counters timed quality : DB F) (server : Server) (since now : Int) :
    Accumulator F :=
  { accumulate counters server since now with
    buckets := bucketsIn timed server.id since now
    pollution :=
      if server.trusted then 1
      else if 0 < qualityTime since (eligible counters server.id since now) then
        severityPollution (severity quality server.id since now)
      else 0 }

/-- `evaluateCurrent`, of what its four statements have read. -/
def readCurrent (counters timed latest quality : DB F) (server : Server) (config : Config F)
    (now : Int) : Except StoreError (CurrentEvaluation F) := do
  checkThresholds config now
  let window := config.ratingWindowMinutes * 60 * 1000
  let since := now - window
  let a := readAccumulator counters timed quality server since now
  return adjust (isUnreachable latest server.id now) server config a
    { metrics := finishWithThresholds a window config.ratingMinSamples
        (config.ratingMinCoverageMinutes * 60000) (configRatingWeights config)
      windowMinutes := config.ratingWindowMinutes
      minSamples := config.ratingMinSamples
      minCoverageMinutes := config.ratingMinCoverageMinutes
      coveredMinutes := a.covered / ofInt 60000
      qualityAt := qualityTime since (eligible counters server.id since now)
      pendingReason := none }

def readFailures (probed failed : DB F) (serverID : Int) : Int :=
  let rows := formal serverID failed.rounds
  if 0 < lastProbe (formal serverID probed.rounds) then unanswered (lastAnswered rows) rows else 0

/-- What `Summary` reads for one server, by seven statements from the `n`-th of the call on. The
states are those in which the statements are executed. -/
def readServer (states : Nat → DB F) (since now : Int) (n : Nat) (server : Server) :
    Except StoreError (ServerSummary F) := do
  let current ← readCurrent (states n) (states (n + 1)) (states (n + 2)) (states (n + 3)) server
    (states 1).config now
  let last := lastRound (states (n + 4)) server.id
  let statusHistory ← statusHistory (states (n + 6)) server.id since now false
  return {
    statusHistory
    server
    current
    metrics := readMetrics (states 1) (states 2) (states 3) server since now
    lastProbe := (last.map (·.finishedAt)).getD 0
    nextDue := (last.map (·.nextDue)).getD 0
    lastSuccess := (last.map fun r => decide (0 < r.successes)).getD false
    failures := readFailures (states (n + 4)) (states (n + 5)) server.id }

def readServers (states : Nat → DB F) (since now : Int) :
    Nat → List Server → Except StoreError (List (ServerSummary F))
  | _, [] => .ok []
  | n, server :: servers => do
    let value ← readServer states since now n server
    let values ← readServers states since now (n + 7) servers
    return value :: values

/-- `Summary`, of what its statements have read: the servers, the configuration, the counters and
the histogram of all servers, and seven more for each of them. -/
def readSummary (states : Nat → DB F) (since now : Int) :
    Except StoreError (List (ServerSummary F)) := do
  require (since < now) (.text "invalid time range")
  readServers states since now 4 (states 0).servers

/-- `History`, of what its four statements have read. -/
def readHistory (found configured counted timed : DB F) (serverID since now stepMS : Int) :
    Except Failure (List (HistoryPoint F) × Metrics F) := do
  if now ≤ since then .error (.error (.text "invalid time range"))
  else
    match findServer found serverID with
    | none => .error (.error .noRows)
    | some server =>
      let width := pointWidth since now stepMS
      let count := pointCount since now width
      if count < 0 then .error .crash
      else
        let s ← (historyRows counted serverID since now).foldlM (addRow since now width count)
          { points := List.replicate count.toNat emptyAccumulator, total := emptyAccumulator }
        return finishSums configured.config server since now width
          (addBuckets timed serverID since now width count s)

/-- The transaction adds a timed round of the server to the window, or removes or recounts one. -/
def disturbs (serverID since now : Int) (db : DB F) : Event F → Prop
  | .saveRound v => v.serverID = serverID ∧ v.auxiliary = false ∧ since ≤ v.finishedAt ∧
      v.finishedAt ≤ now ∧ timed v.results ≠ []
  | .cleanup before (.dropRounds ids) => ∃ r ∈ windowRounds db serverID since now,
      r.id ∈ ids.take 1000 ∧ r.finishedAt < before ∧ ∃ b ∈ db.latencyBuckets, b.roundID = r.id
  | .cleanup before (.pruneResults ids) => ∃ r ∈ windowRounds db serverID since now,
      r.id ∈ partialRounds before ids db
  | _ => False

variable [CaseTables]

/-- The state in which a statement of a call is executed, when some transactions commit between
each two of them. -/
def stateAt (gaps : Nat → List (Event F)) (db : DB F) : Nat → DB F
  | 0 => db
  | n + 1 => run step (stateAt gaps db n) (gaps n)

omit [GoFloat F] [CaseTables] in
def between (gaps : Nat → List (Event F)) (m n : Nat) : List (Event F) :=
  (List.range' m (n - m)).flatMap gaps

/-- No transaction that commits after the `m`-th statement changes what the statements of an
evaluation read, of which the `n`-th of the call is the first. -/
structure Steady (gaps : Nat → List (Event F)) (db : DB F) (server : Server) (since now : Int)
    (m n : Nat) : Prop where
  counters : Spared (moves server.id since now) db (between gaps m n)
  histogram : Spared (disturbs server.id since now) db (between gaps m (n + 1))
  latest : Spared (supersedes server.id (· ≤ now)) db (between gaps m (n + 2))
  quality : server.trusted = false → Spared (judges server.id since now) db (between gaps m (n + 3))

end

section

variable {F : Type} {db db' : DB F} {serverID since now : Int}

def bucketRows (db : DB F) (id : Int) : List BucketRow := db.latencyBuckets.filter (·.roundID = id)

def Counts (serverID since now : Int) (r : RoundRow F) : Prop :=
  r.serverID = serverID ∧ r.auxiliary = false ∧ since ≤ r.finishedAt ∧ r.finishedAt ≤ now

instance (r : RoundRow F) : Decidable (Counts serverID since now r) :=
  inferInstanceAs (Decidable (_ ∧ _ ∧ _ ∧ _))

def part (serverID since now : Int) (db : DB F) (r : RoundRow F) : List (Int × BucketRow) :=
  if Counts serverID since now r then
    (bucketRows db r.id).map fun b => (r.finishedAt, b)
  else []

def histogram (serverID since now : Int) (db : DB F) : List (Int × BucketRow) :=
  db.rounds.flatMap (part serverID since now db)

theorem flatMap_filter_of {α β : Type} {f : α → List β} {p : α → Bool} {rows : List α}
    (h : ∀ r ∈ rows, p r = false → f r = []) : (rows.filter p).flatMap f = rows.flatMap f := by
  induction rows with
  | nil => rfl
  | cons r rows ih =>
    obtain ⟨hr, hrows⟩ := List.forall_mem_cons.mp h
    cases hp : p r with
    | false => rw [List.filter_cons_of_neg (by simp [hp]), ih hrows, List.flatMap_cons, hr hp,
        List.nil_append]
    | true => rw [List.filter_cons_of_pos hp, List.flatMap_cons, List.flatMap_cons, ih hrows]

theorem windowRounds_filter (db : DB F) (serverID since now : Int) :
    windowRounds db serverID since now =
      db.rounds.filter fun r => decide (Counts serverID since now r) := by
  rw [windowRounds, formal, List.filter_filter]
  apply List.filter_congr
  intro r _
  rw [Bool.eq_iff_iff, decide_eq_true_iff, Counts]
  simp only [Bool.and_eq_true, Bool.not_eq_true', decide_eq_true_eq]
  tauto

theorem mem_windowRounds {r : RoundRow F} :
    r ∈ windowRounds db serverID since now ↔ r ∈ db.rounds ∧ Counts serverID since now r := by
  rw [windowRounds_filter, List.mem_filter, decide_eq_true_iff]

theorem histogram_window (serverID since now : Int) (db : DB F) :
    histogram serverID since now db = (windowRounds db serverID since now).flatMap fun r =>
      (bucketRows db r.id).map fun b => (r.finishedAt, b) := by
  rw [windowRounds_filter]
  refine (flatMap_filter_of ?_).symm.trans (List.flatMap_congr ?_)
  · exact fun r _ hr => if_neg (of_decide_eq_false hr)
  · exact fun r hr => if_pos (of_decide_eq_true (List.mem_filter.mp hr).2)

theorem bucketsIn_histogram (db : DB F) (serverID since now : Int) :
    bucketsIn db serverID since now = (histogram serverID since now db).map (·.2) := by
  rw [histogram_window, List.map_flatMap, bucketsIn]
  apply List.flatMap_congr
  intro r _
  rw [List.map_map]
  exact (List.map_id _).symm

theorem pointBuckets_histogram (db : DB F) (serverID since now width count i : Int) :
    pointBuckets db serverID since now width count i =
      ((histogram serverID since now db).filter fun p =>
        pointIndex since width count p.1 = i).map (·.2) := by
  have hrow : ∀ r : RoundRow F, (((bucketRows db r.id).map fun b => (r.finishedAt, b)).filter
      fun p => decide (pointIndex since width count p.1 = i)).map (·.2) =
      if pointIndex since width count r.finishedAt = i then bucketRows db r.id else [] := by
    intro r
    rw [List.filter_map, List.map_map]
    split_ifs with hi <;> simp [Function.comp_def, hi]
  rw [histogram_window, pointBuckets]
  induction windowRounds db serverID since now with
  | nil => rfl
  | cons r rows ih =>
    rw [List.flatMap_cons, List.filter_append, List.map_append, ← ih, hrow, List.filter_cons]
    by_cases hi : pointIndex since width count r.finishedAt = i
    · rw [if_pos (decide_eq_true hi), if_pos hi, List.flatMap_cons]
      rfl
    · rw [if_neg (by simpa using hi), if_neg hi, List.nil_append]

theorem histogram_update {p : RoundRow F → Bool} {g : RoundRow F → RoundRow F}
    (hg : ∀ r, (g r).id = r.id ∧ (g r).serverID = r.serverID ∧ (g r).auxiliary = r.auxiliary ∧
      (g r).finishedAt = r.finishedAt)
    (hrounds : db'.rounds = update p g db.rounds)
    (hbuckets : ∀ r ∈ db.rounds, part serverID since now db' r = part serverID since now db r) :
    histogram serverID since now db' = histogram serverID since now db := by
  rw [histogram, hrounds, update, List.flatMap_map]
  apply List.flatMap_congr
  intro r hr
  rw [← hbuckets r hr]
  split_ifs
  · obtain ⟨hid, hserver, haux, hfinished⟩ := hg r
    have hcounts : Counts serverID since now (g r) ↔ Counts serverID since now r := by
      rw [Counts, hserver, haux, hfinished, Counts]
    rw [part, part, hid, hfinished]
    exact if_congr hcounts rfl rfl
  · rfl

theorem part_congr (h : bucketRows db' q.id = bucketRows db q.id) :
    part serverID since now db' q = part serverID since now db q := by
  rw [part, h, part]

theorem histogram_putOverride (db : DB F) (v : Override) :
    histogram serverID since now (putOverride db v) = histogram serverID since now db := by
  refine histogram_update ?_ rfl fun _ _ => rfl
  exact fun _ => ⟨rfl, rfl, rfl, rfl⟩

theorem histogram_deleteRounds (hw : WellFormed db) {p : RoundRow F → Bool}
    (h : ∀ r ∈ db.rounds, p r = true → part serverID since now db r = []) :
    histogram serverID since now (deleteRounds p db) = histogram serverID since now db := by
  have hkept : ∀ r ∈ delete p db.rounds,
      part serverID since now (deleteRounds p db) r = part serverID since now db r := by
    intro r hr
    obtain ⟨hr, hp⟩ := mem_delete.mp hr
    apply part_congr
    apply filter_delete
    intro b _ hb
    rw [of_decide_eq_true hb]
    exact (isGone_eq hw hr).trans hp
  rw [histogram, show (deleteRounds p db).rounds = delete p db.rounds from rfl,
    List.flatMap_congr hkept, histogram, delete]
  apply flatMap_filter_of
  intro r hr hp
  rw [Bool.not_eq_false'] at hp
  exact h r hr hp

end

section

variable {F : Type} [GoFloat F] {db db' : DB F} {serverID since now : Int}

theorem histogram_insertRound [CaseTables] (ho : Origins db) {v : Round F}
    (h : ¬ disturbs serverID since now db (.saveRound v)) :
    histogram serverID since now (insertRound db v) = histogram serverID since now db := by
  have hold : ∀ r ∈ db.rounds, bucketRows (insertRound db v) r.id = bucketRows db r.id := by
    intro r hr
    have hlt := newRoundID_fresh hr
    exact buckets_insertRound_other v (by omega)
  have hnew : part serverID since now (insertRound db v) (newRound db v) = [] := by
    rw [part]
    split_ifs with hw
    · have htimed : timed v.results = [] := by
        by_contra hne
        exact h ⟨hw.1, hw.2.1, hw.2.2.1, hw.2.2.2, hne⟩
      have hnone : bucketRows (insertRound db v) (newRoundID db) = [] := by
        change (db.latencyBuckets ++ buckets (newRoundID db) (timed v.results)).filter _ = _
        rw [htimed, List.filter_append, buckets, List.map_nil, List.dedup_nil, List.map_nil,
          List.filter_nil, List.append_nil]
        apply filter_none
        intro b hb
        obtain ⟨q, hq, hid⟩ := ho.bucket b hb
        have hlt := newRoundID_fresh hq
        apply decide_eq_false
        omega
      change (bucketRows (insertRound db v) (newRoundID db)).map _ = []
      rw [hnone, List.map_nil]
    · rfl
  have happend : (db.rounds ++ [newRound db v]).flatMap (part serverID since now (insertRound db v)) =
      histogram serverID since now db := by
    rw [List.flatMap_append, List.flatMap_singleton, hnew, List.append_nil, histogram]
    exact List.flatMap_congr fun r hr => part_congr (hold r hr)
  rw [← happend, histogram]
  simp only [insertRound]
  split_ifs
  · rfl
  · unfold truncatePredecessor
    split
    · rw [update, List.flatMap_map]
      apply List.flatMap_congr
      intro r _
      split_ifs <;> rfl
    · rfl

theorem histogram_rebuildRound (hw : WellFormed db) {id : Int}
    (h : ∀ r ∈ db.rounds, Counts serverID since now r → r.id ≠ id)
    (hs : rebuildRound id db = .ok db') :
    histogram serverID since now db' = histogram serverID since now db ∧
      ∀ r ∈ db'.rounds, Counts serverID since now r →
        ∃ q ∈ db.rounds, Counts serverID since now q ∧ q.id = r.id := by
  cases rebuilt hs with
  | dropped _ =>
    constructor
    · apply histogram_deleteRounds hw
      intro r hr hid
      exact if_neg fun hc => h r hr hc (of_decide_eq_true hid)
    · exact fun r hr hc => ⟨r, (mem_delete.mp hr).1, hc, rfl⟩
  | recounted _ _ _ =>
    constructor
    · refine histogram_update ?_ rfl ?_
      · exact fun _ => ⟨rfl, rfl, rfl, rfl⟩
      intro r hr
      by_cases hc : Counts serverID since now r
      · have hne := h r hr hc
        apply part_congr
        exact recounted_buckets_other hne _ _
      · rw [part, if_neg hc, part, if_neg hc]
    · intro r hr hc
      obtain ⟨q, hq, rfl⟩ := mem_update.mp hr
      refine ⟨q, hq, ?_, ?_⟩
      · split_ifs at hc <;> exact hc
      · split_ifs <;> rfl

theorem histogram_rebuildPartial (hw : WellFormed db) {before : Int} {ids : List Int}
    (h : ∀ r ∈ db.rounds, Counts serverID since now r → r.id ∉ ids)
    (hs : rebuildPartial before ids db = .ok db') :
    histogram serverID since now db' = histogram serverID since now db := by
  -- no rebuilt round is counted, and rebuilding keeps it so
  refine (rebuildPartial_keeps (P := fun d => WellFormed d ∧
    (∀ r ∈ d.rounds, Counts serverID since now r → r.id ∉ ids) ∧
      histogram serverID since now d = histogram serverID since now db) ?_ ⟨hw, h, rfl⟩ hs).2.2
  rintro id hid d d' ⟨hw, h, hsame⟩ hround
  have hw₁ := wellFormed_deleteResults hw fun r => r.roundID = id && r.timestamp < before
  have hnot : ∀ r ∈ d.rounds, Counts serverID since now r → r.id ≠ id :=
    fun r hr hc he => h r hr hc (he ▸ hid)
  obtain ⟨hnext, hrounds⟩ := histogram_rebuildRound hw₁ hnot hround
  refine ⟨wellFormed_rebuildRound hw₁ hround, ?_, hnext.trans hsame⟩
  intro r hr hc hmem
  obtain ⟨q, hq, hcq, hqid⟩ := hrounds r hr hc
  exact h q hq hcq (hqid ▸ hmem)

variable [CaseTables]

theorem histogram_apply (hw : WellFormed db) (ho : Origins db) {e : Event F}
    (he : isWriter e = true) (h : ¬ disturbs serverID since now db e)
    (hs : apply db e = .ok db') :
    histogram serverID since now db' = histogram serverID since now db := by
  cases e with
  | saveRound v =>
    obtain ⟨_, _, _, snapshots, rfl⟩ := saveRound_ok hs
    exact histogram_insertRound ho h
  | saveOverride now v =>
    rw [(saveOverride_ok hs).2]
    exact histogram_putOverride db _
  | cleanup before t =>
    cases t with
    | dropRounds ids =>
      injection hs with hs
      rw [← hs]
      apply histogram_deleteRounds hw
      intro r hr hp
      simp only [Bool.and_eq_true, List.contains_iff_mem, decide_eq_true_eq] at hp
      rw [part]
      split_ifs with hc
      · have hnone : bucketRows db r.id = [] := by
          apply filter_none
          intro b hb
          apply decide_eq_false
          intro hid
          exact h ⟨r, mem_windowRounds.mpr ⟨hr, hc⟩, hp.1, hp.2, b, hb, hid⟩
        rw [hnone, List.map_nil]
      · rfl
    | pruneResults ids =>
      apply histogram_rebuildPartial hw _ hs
      exact fun r hr hc hmem => h ⟨r, mem_windowRounds.mpr ⟨hr, hc⟩, hmem⟩
    | pruneReferences ids =>
      obtain rfl := pruneReferences_ok hs
      rfl
    | _ =>
      injection hs with hs
      rw [← hs]
      rfl
  | _ => cases he

omit [CaseTables] in
theorem settings_rebuildPartial {before : Int} {ids : List Int}
    (hs : rebuildPartial before ids db = .ok db') :
    db'.servers = db.servers ∧ db'.config = db.config := by
  refine rebuildPartial_keeps
    (P := fun d => d.servers = db.servers ∧ d.config = db.config) ?_ ⟨rfl, rfl⟩ hs
  intro id _ d d' hd hround
  cases rebuilt hround with
  | dropped _ => exact hd
  | recounted _ _ _ => exact hd

theorem settings_apply {e : Event F} (he : isWriter e = true) (hs : apply db e = .ok db') :
    db'.servers = db.servers ∧ db'.config = db.config := by
  cases e with
  | saveRound v =>
    obtain ⟨_, _, _, snapshots, rfl⟩ := saveRound_ok hs
    exact ⟨rfl, rfl⟩
  | saveOverride now v =>
    rw [(saveOverride_ok hs).2]
    exact ⟨rfl, rfl⟩
  | cleanup before t =>
    cases t with
    | pruneResults ids => exact settings_rebuildPartial hs
    | pruneReferences ids =>
      obtain rfl := pruneReferences_ok hs
      exact ⟨rfl, rfl⟩
    | _ =>
      injection hs with hs
      exact hs ▸ ⟨rfl, rfl⟩
  | _ => cases he

theorem settings_run {es : List (Event F)} (hes : ∀ e ∈ es, isWriter e = true) (db : DB F) :
    (run step db es).servers = db.servers ∧ (run step db es).config = db.config := by
  apply run_invariant_of (P := fun d : DB F => d.servers = db.servers ∧ d.config = db.config)
    (C := fun e => isWriter e = true) _ ⟨rfl, rfl⟩ hes
  intro d e he hd
  cases hs : apply d e with
  | error err => simpa [step, hs] using hd
  | ok d' =>
    rw [step_of_ok hs, (settings_apply he hs).1, (settings_apply he hs).2]
    exact hd

theorem histogram_run (hw : WellFormed db) (ho : Origins db) {es : List (Event F)}
    (hes : ∀ e ∈ es, isWriter e = true) (h : Spared (disturbs serverID since now) db es) :
    histogram serverID since now (run step db es) = histogram serverID since now db :=
  spared_run (g := histogram serverID since now)
    (fun _ _ _ hdw hdo he hquiet hs => histogram_apply hdw hdo he hquiet hs) hw ho hes h

omit [CaseTables] in
theorem readMetrics_eq {configured counted timed : DB F}
    (hconfig : configured.config = counted.config) {server : Server}
    (hhistogram : histogram server.id since now timed = histogram server.id since now counted) :
    readMetrics configured counted timed server since now =
      summaryMetrics counted server since now := by
  rw [readMetrics, hconfig, bucketsIn_histogram, hhistogram, ← bucketsIn_histogram]
  rfl

omit [GoFloat F] [CaseTables] in
theorem addBuckets_eq {counted timed : DB F}
    (hhistogram : histogram serverID since now timed = histogram serverID since now counted)
    (width count : Int) (s : Sums F) :
    addBuckets timed serverID since now width count s =
      addBuckets counted serverID since now width count s := by
  simp only [addBuckets, pointBuckets_histogram, bucketsIn_histogram, hhistogram]

omit [CaseTables] in
theorem readHistory_eq {found configured counted timed : DB F}
    (hservers : found.servers = counted.servers) (hconfig : configured.config = counted.config)
    (hhistogram : histogram serverID since now timed = histogram serverID since now counted)
    (stepMS : Int) : readHistory found configured counted timed serverID since now stepMS =
      history counted serverID since now stepMS := by
  have hfound : findServer found serverID = findServer counted serverID := by
    rw [findServer, hservers, findServer]
  rw [readHistory, history, hfound, hconfig]
  by_cases hrange : now ≤ since
  · rw [if_pos hrange, if_pos hrange]
  · rw [if_neg hrange, if_neg hrange]
    cases findServer counted serverID with
    | none => rfl
    | some server =>
      dsimp only
      rw [historySums]
      by_cases hcount : pointCount since now (pointWidth since now stepMS) < 0
      · rw [if_pos hcount, if_pos hcount]
        rfl
      · simp only [if_neg hcount, bind_assoc, pure_bind, addBuckets_eq hhistogram]

omit [CaseTables] in
/-- An evaluation is the one of a state in which each of its statements would read the same. -/
theorem readCurrent_eq {base counters timed latest quality : DB F} {server : Server}
    {config : Config F}
    (hsince : since = now - config.ratingWindowMinutes * 60 * 1000)
    (hcounters : counted server.id since now counters = counted server.id since now base)
    (htimed : histogram server.id since now timed = histogram server.id since now base)
    (hlatest : isUnreachable latest server.id now = isUnreachable base server.id now)
    (hquality : server.trusted = false →
      severity quality server.id since now = severity base server.id since now) :
    readCurrent counters timed latest quality server config now =
      evaluateCurrent base server config now := by
  simp only [readCurrent, evaluateCurrent, ← hsince]
  cases hc : checkThresholds config now with
  | error err => rfl
  | ok u =>
    have hwindow : since < now := by
      rw [checkThresholds, require_eq_ok] at hc
      omega
    have hquality' : qualityTime since (eligible counters server.id since now) =
        qualityTime since (eligible base server.id since now) :=
      qualityTime_counted hwindow hcounters
    have hbuckets : bucketsIn timed server.id since now = bucketsIn base server.id since now := by
      rw [bucketsIn_histogram, htimed, ← bucketsIn_histogram]
    have hsums : readAccumulator counters timed quality server since now =
        accumulate base server since now := by
      rw [readAccumulator, accumulate_counted hwindow hcounters, hbuckets, hquality']
      cases htrusted : server.trusted with
      | true => simp [accumulate, htrusted]
      | false => simp [accumulate, htrusted, hquality htrusted]
    rw [hsums, hlatest, hquality']

omit [CaseTables] in
theorem readCurrent_fails (counters timed latest quality base : DB F) (server : Server)
    (config : Config F) (now : Int) :
    (readCurrent counters timed latest quality server config now).map (fun _ => ()) =
      (evaluateCurrent base server config now).map fun _ => () := by
  simp only [readCurrent, evaluateCurrent]
  cases checkThresholds config now <;> rfl

omit [GoFloat F] [CaseTables] in
theorem statusHistory_fails (a b : DB F) (serverID since now : Int) :
    (statusHistory a serverID since now false).map (fun _ => ()) =
      (statusHistory b serverID since now false).map fun _ => () := by
  rw [statusHistory, statusHistory, exceptMap_bind, exceptMap_bind]
  rfl

omit [CaseTables] in
theorem readServer_fails {states : Nat → DB F} {db : DB F} (hconfig : (states 1).config = db.config)
    (since now : Int) (n : Nat) (server : Server) :
    (readServer states since now n server).map (·.server) =
      (summaryOf db since now server).map (·.server) := by
  rw [readServer, summaryOf, hconfig]
  apply map_bind_congr (readCurrent_fails _ _ _ _ db server db.config now)
  intro _ _ _
  apply map_bind_congr (statusHistory_fails _ db server.id since now)
  intro _ _ _
  rfl

omit [CaseTables] in
/-- The call fails where it would on a single state, and else has an entry for every server. -/
theorem readServers_fails {states : Nat → DB F} {db : DB F}
    (hconfig : (states 1).config = db.config) (since now : Int) (n : Nat) (servers : List Server) :
    (readServers states since now n servers).map (List.map (·.server)) =
      (servers.mapM (summaryOf db since now)).map (List.map (·.server)) := by
  induction servers generalizing n with
  | nil => rfl
  | cons server servers ih =>
    rw [readServers, List.mapM_cons]
    apply map_bind_congr (readServer_fails hconfig since now n server)
    intro value one hone
    apply map_bind_congr (ih (n + 7))
    intro values rest hrest
    exact congrArg Except.ok (congrArg₂ List.cons hone hrest)

omit [CaseTables] in
theorem readServer_of_mem {states : Nat → DB F} {since now : Int} {n i : Nat}
    {servers : List Server} {values : List (ServerSummary F)} {value : ServerSummary F}
    (h : readServers states since now n servers = .ok values) (hi : values[i]? = some value) :
    readServer states since now (n + 7 * i) value.server = .ok value := by
  induction servers generalizing n i values with
  | nil =>
    obtain rfl := Except.ok.inj h
    cases hi
  | cons server servers ih =>
    rw [readServers] at h
    simp only [bind_eq_ok, pure_eq_ok] at h
    obtain ⟨head, hhead, tail, htail, rfl⟩ := h
    cases i with
    | zero =>
      obtain rfl := Option.some.inj hi
      have hserver : head.server = server := by
        simp only [readServer, bind_eq_ok, pure_eq_ok] at hhead
        obtain ⟨_, _, _, _, rfl⟩ := hhead
        rfl
      rw [hserver]
      exact hhead
    | succ i =>
      have hnext := ih htail hi
      rwa [show n + 7 * (i + 1) = n + 7 + 7 * i by omega]

omit [CaseTables] in
theorem readServer_ok {states : Nat → DB F} {since now : Int} {n : Nat} {server : Server}
    {value : ServerSummary F} (h : readServer states since now n server = .ok value) :
    readCurrent (states n) (states (n + 1)) (states (n + 2)) (states (n + 3)) server
        (states 1).config now = .ok value.current ∧
      value.metrics = readMetrics (states 1) (states 2) (states 3) server since now := by
  simp only [readServer, bind_eq_ok, pure_eq_ok] at h
  obtain ⟨_, hcurrent, _, _, rfl⟩ := h
  exact ⟨hcurrent, rfl⟩

variable {gaps : Nat → List (Event F)}

theorem stateAt_between (gaps : Nat → List (Event F)) (db : DB F) {m n : Nat} (h : m ≤ n) :
    stateAt gaps db n = run step (stateAt gaps db m) (between gaps m n) := by
  obtain ⟨k, rfl⟩ := Nat.exists_eq_add_of_le h
  rw [between, Nat.add_sub_cancel_left]
  induction k with
  | zero => rfl
  | succ k ih =>
    rw [List.range'_concat, List.flatMap_append, run_append, ← ih (by omega), List.flatMap_singleton,
      Nat.one_mul]
    rfl

omit [GoFloat F] [CaseTables] in
theorem isWriter_between (hwriters : ∀ n, ∀ e ∈ gaps n, isWriter e = true) (m n : Nat) :
    ∀ e ∈ between gaps m n, isWriter e = true := by
  intro e he
  obtain ⟨k, _, he⟩ := List.mem_flatMap.mp he
  exact hwriters k e he

theorem settings_between (hwriters : ∀ n, ∀ e ∈ gaps n, isWriter e = true) (m n : Nat) :
    (stateAt gaps db m).servers = (stateAt gaps db n).servers ∧
      (stateAt gaps db m).config = (stateAt gaps db n).config := by
  have hstart : ∀ n, (stateAt gaps db n).servers = db.servers ∧
      (stateAt gaps db n).config = db.config := by
    intro n
    rw [stateAt_between gaps db n.zero_le]
    exact settings_run (isWriter_between hwriters 0 n) db
  exact ⟨(hstart m).1.trans (hstart n).1.symm, (hstart m).2.trans (hstart n).2.symm⟩

theorem tables_stateAt (gaps : Nat → List (Event F)) (hw : WellFormed db) (ho : Origins db) (n : Nat) :
    WellFormed (stateAt gaps db n) ∧ Origins (stateAt gaps db n) := by
  rw [stateAt_between gaps db n.zero_le]
  apply run_invariant (P := fun d : DB F => WellFormed d ∧ Origins d)
  · exact step_invariant fun _ _ _ hd hs => ⟨wellFormed_apply hd.1 hs, origins_apply hd.1 hd.2 hs⟩
  · exact ⟨hw, ho⟩

/-- What a statement reads is what an earlier one would have read, when it is spared. -/
theorem spared_between {β : Type} {g : DB F → β} {disturbs : DB F → Event F → Prop}
    (hg : ∀ d d' e, WellFormed d → Origins d → isWriter e = true → ¬ disturbs d e →
      apply d e = .ok d' → g d' = g d) (hw : WellFormed db) (ho : Origins db)
    (hwriters : ∀ n, ∀ e ∈ gaps n, isWriter e = true) {m n : Nat} (hmn : m ≤ n)
    (h : Spared disturbs (stateAt gaps db m) (between gaps m n)) :
    g (stateAt gaps db n) = g (stateAt gaps db m) := by
  rw [stateAt_between gaps db hmn]
  have htables := tables_stateAt gaps hw ho m
  exact spared_run hg htables.1 htables.2 (isWriter_between hwriters m n) h

theorem readCurrent_steady (hw : WellFormed db) (ho : Origins db)
    (hwriters : ∀ n, ∀ e ∈ gaps n, isWriter e = true) {server : Server} {config : Config F}
    {m n : Nat} (hmn : m ≤ n) (hsince : since = now - config.ratingWindowMinutes * 60 * 1000)
    (h : Steady gaps (stateAt gaps db m) server since now m n) :
    readCurrent (stateAt gaps db n) (stateAt gaps db (n + 1)) (stateAt gaps db (n + 2))
        (stateAt gaps db (n + 3)) server config now =
      evaluateCurrent (stateAt gaps db m) server config now := by
  apply readCurrent_eq hsince
  · exact spared_between (g := counted server.id since now)
      (fun d d' e hd _ he hnot hs => Prod.ext (counted_apply hd he hnot hs).1
        (counted_apply hd he hnot hs).2) hw ho hwriters hmn h.counters
  · exact spared_between (g := histogram server.id since now)
      (fun d d' e hd ho he hnot hs => histogram_apply hd ho he hnot hs) hw ho hwriters (by omega)
      h.histogram
  · exact spared_between (g := fun d => isUnreachable d server.id now)
      (fun d d' e hd _ he hnot hs => isUnreachable_apply hd he hnot hs) hw ho hwriters (by omega)
      h.latest
  · intro htrusted
    exact spared_between (g := fun d => severity d server.id since now)
      (fun d d' e hd _ he hnot hs => severity_apply hd he hnot hs) hw ho hwriters (by omega)
      (h.quality htrusted)

omit [CaseTables] in
theorem readSummary_same (db : DB F) (since now : Int) :
    readSummary (fun _ => db) since now = summary db since now := by
  have hservers : ∀ n servers, readServers (fun _ => db) since now n servers =
      servers.mapM (summaryOf db since now) := by
    intro n servers
    induction servers generalizing n with
    | nil => rfl
    | cons server servers ih =>
      rw [readServers, ih (n + 7), List.mapM_cons]
      rfl
  rw [readSummary, hservers, summary]

/-- `Summary` and `History` in any run of transactions between their statements. The metrics of
the range are those of the state that the counters are read in, when no transaction that commits
between these and the histogram adds, removes or recounts a round of the server in the window. The
evaluation is the one of any earlier state from which on nothing it reads is changed: of the state
of its own counters, or of the same state as the metrics of the range. -/
theorem metrics_of_one_state (legacy : Legacy F) (ho : Origins legacy.db) (es : List (Event F))
    {gaps : Nat → List (Event F)} (hwriters : ∀ n, ∀ e ∈ gaps n, isWriter e = true)
    {states : Nat → DB F} (hstates : states = stateAt gaps (run step (openStore legacy) es))
    (since now : Int) :
    (readSummary states since now).map (List.map (·.server)) =
      (summary (states 2) since now).map (List.map (·.server)) ∧
    (∀ values, readSummary states since now = .ok values →
      ∀ i value, values[i]? = some value →
        (Spared (disturbs value.server.id since now) (states 2) (gaps 2) →
          value.metrics = summaryMetrics (states 2) value.server since now) ∧
        ∀ m ≤ 4 + 7 * i, Steady gaps (states m) value.server
            (now - (states m).config.ratingWindowMinutes * 60 * 1000) now m (4 + 7 * i) →
          evaluateCurrent (states m) value.server (states m).config now = .ok value.current) ∧
    ∀ serverID stepMS, Spared (disturbs serverID since now) (states 2) (gaps 2) →
      readHistory (states 0) (states 1) (states 2) (states 3) serverID since now stepMS =
        history (states 2) serverID since now stepMS := by
  subst hstates
  have hreached : WellFormed (run step (openStore legacy) es) ∧
      Origins (run step (openStore legacy) es) := by
    apply run_invariant (P := fun d : DB F => WellFormed d ∧ Origins d)
    · exact step_invariant fun _ _ _ hd hs => ⟨wellFormed_apply hd.1 hs, origins_apply hd.1 hd.2 hs⟩
    · exact ⟨wellFormed_migrate legacy.wellFormed, origins_migrate ho⟩
  generalize run step (openStore legacy) es = db at hreached ⊢
  obtain ⟨hw, ho⟩ := hreached
  have htables := tables_stateAt gaps hw ho 2
  have hhistogram : ∀ serverID, Spared (disturbs serverID since now) (stateAt gaps db 2) (gaps 2) →
      histogram serverID since now (stateAt gaps db 3) =
        histogram serverID since now (stateAt gaps db 2) :=
    fun serverID h => histogram_run htables.1 htables.2 (hwriters 2) h
  refine ⟨?_, ?_, ?_⟩
  · rw [readSummary, summary, (settings_between hwriters 0 2).1]
    apply map_bind_congr (p := id) rfl
    intro _ _ _
    exact readServers_fails (settings_between hwriters 1 2).2 since now 4 _
  · intro values hvalues i value hi
    simp only [readSummary, bind_eq_ok] at hvalues
    obtain ⟨_, _, hvalues⟩ := hvalues
    obtain ⟨hcurrent, hmetrics⟩ := readServer_ok (readServer_of_mem hvalues hi)
    constructor
    · intro h
      rw [hmetrics]
      exact readMetrics_eq (settings_between hwriters 1 2).2 (hhistogram value.server.id h)
    · intro m hm h
      rw [← hcurrent, (settings_between hwriters 1 m).2]
      exact (readCurrent_steady hw ho hwriters hm rfl h).symm
  · intro serverID stepMS h
    exact readHistory_eq (settings_between hwriters 0 2).1 (settings_between hwriters 1 2).2
      (hhistogram serverID h) stepMS

end

section

local instance : CaseTables := asciiTables

def timedRound (finishedAt : Int) (latencyMS : ℚ) : Round ℚ :=
  exampleRound finishedAt [{ exampleResult true (str "clean") with latencyMS }]

def slowDB : DB ℚ :=
  run step (openStore emptyLegacy) [.saveServer 900 exampleServer, .saveRound (timedRound 2000 1000)]

def savedBehind (k : Nat) (v : Round ℚ) (n : Nat) : List (Event ℚ) :=
  if n = k then [.saveRound v] else []

/-- There are two states then. -/
theorem stateAt_savedBehind {P : DB ℚ → Prop} {v : Round ℚ}
    (h : ∀ db ∈ [slowDB, step slowDB (.saveRound v)], P db) (k n : Nat) :
    P (stateAt (savedBehind k v) slowDB n) := by
  have hstate : stateAt (savedBehind k v) slowDB n =
      if n ≤ k then slowDB else step slowDB (.saveRound v) := by
    induction n with
    | zero => rfl
    | succ n ih =>
      rw [stateAt, ih, savedBehind]
      rcases Nat.lt_trichotomy n k with hlt | rfl | hgt
      · rw [if_pos hlt.le, if_neg hlt.ne, if_pos (by omega)]
        rfl
      · rw [if_pos le_rfl, if_pos rfl, if_neg (by omega)]
        rfl
      · rw [if_neg (by omega), if_neg hgt.ne', if_neg (by omega)]
        rfl
  rw [hstate]
  split_ifs
  · exact h _ (by simp)
  · exact h _ (by simp)

def sampled (m : Metrics ℚ) : Int × ℚ := (m.samples, m.p95MS)

/-- A fast round is saved between the counters and the histogram of the range, or between those of
the evaluation: the slow round alone is counted, and the percentile is that of the fast one. No
state of the calls has such metrics. -/
theorem metrics_of_no_state :
    let states (k : Nat) := stateAt (savedBehind k (timedRound 3000 10)) slowDB
    ((readSummary (states 2) 1000 4000).toOption.map fun values =>
      values.map fun value => sampled value.metrics) = some [(1, 10)] ∧
    ((readSummary (states 4) 1000 4000).toOption.map fun values =>
      values.map fun value => sampled value.current.metrics) = some [(1, 10)] ∧
    ((readHistory (states 2 0) (states 2 1) (states 2 2) (states 2 3) 1 1000 4000 1000).toOption.map
      fun p => sampled p.2) = some (1, 10) ∧
    ∀ k n, ∀ server ∈ (states k n).servers,
      sampled (summaryMetrics (states k n) server 1000 4000) ≠ (1, 10) ∧
      ((evaluateCurrent (states k n) server (states k n).config 4000).toOption.map
        fun value => sampled value.metrics) ≠ some (1, 10) ∧
      ((history (states k n) server.id 1000 4000 1000).toOption.map
        fun p => sampled p.2) ≠ some (1, 10) := by
  refine ⟨by decide +kernel, by decide +kernel, by decide +kernel, ?_⟩
  exact stateAt_savedBehind (P := fun db => ∀ server ∈ db.servers,
    sampled (summaryMetrics db server 1000 4000) ≠ (1, 10) ∧
    ((evaluateCurrent db server db.config 4000).toOption.map
      fun value => sampled value.metrics) ≠ some (1, 10) ∧
    ((history db server.id 1000 4000 1000).toOption.map
      fun p => sampled p.2) ≠ some (1, 10)) (by decide +kernel)

theorem spared_single {disturbs : DB ℚ → Event ℚ → Prop} {db : DB ℚ} {e : Event ℚ}
    (h : ¬ disturbs db e) : Spared disturbs db [e] := by
  intro fs d gs hsplit _
  cases fs with
  | nil =>
    obtain ⟨rfl, _⟩ := List.cons.inj hsplit
    exact h
  | cons f fs => simp at hsplit

theorem steady_later {server : Server} {since : Int} (hsince : since < 4000)
    (hid : server.id = 1) :
    Steady (savedBehind 2 (timedRound 5000 10)) slowDB server since 4000 2 4 := by
  have hcut : ∀ q ∈ lastOf 1 (· ≤ 5000) slowDB, min (min q.nextDue 5000) 4000 =
      min q.coveredUntil 4000 := by decide +kernel
  refine ⟨spared_single ?_, spared_single ?_, spared_single ?_, fun _ => spared_single ?_⟩
  · rintro ⟨_, ⟨_, hnow⟩ | ⟨hold, _⟩ | ⟨q, _, hlast, hne⟩⟩
    · exact absurd hnow (by decide)
    · exact absurd (hold.trans hsince) (by decide)
    · rw [hid] at hlast
      exact hne (hcut q hlast)
  · rintro ⟨_, _, _, hnow, _⟩
    exact absurd hnow (by decide)
  · rintro ⟨_, hnow, _⟩
    exact absurd hnow (by decide)
  · rintro ⟨_, hnow, _⟩
    exact absurd (Bool.and_eq_true_iff.mp hnow).2 (by decide)

theorem metrics_of_one_state_example :
    let states := stateAt (savedBehind 2 (timedRound 5000 10)) slowDB
    ∃ value, readSummary states 1000 4000 = .ok [value] ∧
      value.metrics = summaryMetrics (states 2) value.server 1000 4000 ∧
      evaluateCurrent (states 2) value.server (states 2).config 4000 = .ok value.current ∧
      readHistory (states 0) (states 1) (states 2) (states 3) 1 1000 4000 1000 =
        history (states 2) 1 1000 4000 1000 := by
  intro states
  have ho : Origins (emptyLegacy (F := ℚ)).db :=
    ⟨fun _ hb => absurd hb List.not_mem_nil, fun _ hs => absurd hs List.not_mem_nil⟩
  have hwriters : ∀ n, ∀ e ∈ savedBehind 2 (timedRound 5000 10) n, isWriter e = true := by
    intro n e he
    rw [savedBehind] at he
    split_ifs at he
    · rw [List.mem_singleton.mp he]
      rfl
    · cases he
  have hlater : ∀ serverID since, ¬ disturbs serverID since 4000 slowDB
      (.saveRound (timedRound 5000 10)) := by
    rintro serverID since ⟨_, _, _, hnow, _⟩
    exact absurd hnow (by decide)
  obtain ⟨hone, hvalues, hhistory⟩ := metrics_of_one_state emptyLegacy ho
    [.saveServer 900 exampleServer, .saveRound (timedRound 2000 1000)] hwriters rfl 1000 4000
  have hread : (readSummary states 1000 4000).map (fun values => values.map (·.server.id)) =
      .ok [1] := by decide +kernel
  obtain ⟨values, hok, hids⟩ := map_eq_ok.mp hread
  obtain ⟨value, rfl⟩ := List.length_eq_one_iff.mp (by
    have hlength := congrArg List.length hids
    rwa [List.length_map] at hlength)
  have hid : value.server.id = 1 := (List.cons.inj hids).1
  obtain ⟨hmetrics, hcurrent⟩ := hvalues [value] hok 0 value rfl
  refine ⟨value, hok, hmetrics (spared_single (hlater _ _)), hcurrent 2 (by omega) ?_,
    hhistory 1 1000 (spared_single (hlater _ _))⟩
  exact steady_later (by decide +kernel) hid

end

end DnsMonitor.Store.Statements

import DnsMonitor.Lib.Ranks
import DnsMonitor.Store.Agreement
import DnsMonitor.Store.Grading

namespace DnsMonitor.Store.Percentile

open DnsMonitor.Model DnsMonitor.Lib DnsMonitor.Lib.Tables DnsMonitor.Lib.Ranks
open DnsMonitor.Store.Schema DnsMonitor.Store.Current DnsMonitor.Store.Rounds
open DnsMonitor.Store.Cleanup DnsMonitor.Store.Migration DnsMonitor.Store.Run
open DnsMonitor.Store.WellFormed DnsMonitor.Store.Aggregates DnsMonitor.Store.Summary
open DnsMonitor.Store.History DnsMonitor.Store.Agreement DnsMonitor.Store.Grading
open DnsMonitor.Monitor.Config
open DnsMonitor.Go.Strings DnsMonitor.Go.Unicode DnsMonitor.Go.Errors DnsMonitor.Go.Float

section

variable {bs : List BucketRow}

/-- The scan walks through the values that the buckets stand for. -/
theorem percentile_eq {threshold count : Int} (h : count < threshold) (keys : List Int) :
    percentile threshold bs count keys =
      (repeated (bucketCount bs) keys)[(threshold - count).toNat - 1]? := by
  induction keys generalizing count with
  | nil => rfl
  | cons k keys ih =>
    rw [percentile, repeated, List.flatMap_cons]
    by_cases hk : threshold ≤ count + bucketCount bs k
    · rw [if_pos hk, List.getElem?_append_left (by rw [List.length_replicate]; omega),
        List.getElem?_replicate_of_lt (by omega)]
    · have hindex : (threshold - count).toNat - 1 - bucketCount bs k =
          (threshold - (count + bucketCount bs k)).toNat - 1 := by omega
      rw [if_neg hk, ih (by omega),
        List.getElem?_append_right (by rw [List.length_replicate]; omega), List.length_replicate,
        hindex, repeated]

theorem mem_of_bucketCount {k : Int} (h : 0 < bucketCount bs k) : k ∈ bs.map (·.bucketMS) := by
  by_contra hk
  rw [bucketCount, filter_none] at h
  · exact absurd h (lt_irrefl 0)
  · intro b hb
    exact decide_eq_false fun he => hk (List.mem_map.mpr ⟨b, hb, he⟩)

theorem bucketCount_append (as : List BucketRow) (k : Int) :
    bucketCount (as ++ bs) k = bucketCount as k + bucketCount bs k := by
  simp [bucketCount]

def rank95 (n : Nat) : Int := ⌈(19 / 20 : ℚ) * n⌉

theorem rank95_bounds {n : Nat} (h : 0 < n) : 0 < rank95 n ∧ rank95 n ≤ n := by
  have hn : (0 : ℚ) < n := by exact_mod_cast h
  constructor
  · exact Int.ceil_pos.mpr (by linarith)
  · apply Int.ceil_le.mpr
    push_cast
    linarith

theorem p95MS_eq {a : Accumulator ℚ} {values : List Int}
    (hcount : ∀ k, bucketCount a.buckets k = values.count k)
    (hn : a.latencyCount = values.length) {v : Int} (hpos : 0 < values.length)
    (hv : ranked values (rank95 values.length).toNat = some v) : p95MS a = v := by
  have hkeys : (((a.buckets.map (·.bucketMS)).dedup).insertionSort (· ≤ ·)).Pairwise (· < ·) := by
    have hsorted := List.pairwise_insertionSort (· ≤ ·) (a.buckets.map (·.bucketMS)).dedup
    have hnodup := (List.perm_insertionSort (· ≤ ·) (a.buckets.map (·.bucketMS)).dedup).nodup_iff.mpr
      (List.nodup_dedup _)
    exact (hsorted.and hnodup).imp fun h => lt_of_le_of_ne h.1 h.2
  have hmem : ∀ x ∈ values,
      x ∈ ((a.buckets.map (·.bucketMS)).dedup).insertionSort (· ≤ ·) := by
    intro x hx
    rw [List.mem_insertionSort, List.mem_dedup]
    apply mem_of_bucketCount
    rw [hcount]
    exact List.count_pos_iff.mpr hx
  have hthreshold : GoFloat.ceil ((ofInt a.latencyCount : ℚ) * GoFloat.ofRat (95 / 100)) =
      rank95 values.length := by
    rw [hn]
    exact congrArg Int.ceil (show (values.length : ℚ) * (95 / 100) = 19 / 20 * values.length by ring)
  have hcounts : bucketCount a.buckets = values.count := funext hcount
  rw [p95MS, hthreshold, percentile_eq (rank95_bounds hpos).1, hcounts,
    repeated_eq_insertionSort hkeys hmem, sub_zero]
  rw [ranked] at hv
  rw [hv]
  rfl

end

section

variable {db : DB ℚ} {serverID since now : Int}

def roundLatencies (db : DB ℚ) (id : Int) : List ℚ :=
  (((db.results.filter (·.roundID = id)).filterMap (·.rawJSON)).filter (·.success)).map (·.latencyMS)

def windowLatencies (db : DB ℚ) (serverID since now : Int) : List ℚ :=
  (windowRounds db serverID since now).flatMap fun r => roundLatencies db r.id

theorem bucketCount_buckets (id : Int) (rs : List (ProbeResult ℚ)) (k : Int) :
    bucketCount (buckets id rs) k = (rs.map fun r => bucketOf r.latencyMS).count k := by
  have h := List.sum_map_count_dedup_filter_eq_countP (fun j => decide (j = k))
    (rs.map fun r => bucketOf r.latencyMS)
  rw [bucketCount, buckets, List.filter_map, List.map_map, List.count_eq_countP]
  exact h

theorem counts_round {q : RoundRow ℚ} (hq : q ∈ db.rounds) (h : Aggregated db)
    (hrange : ∀ x ∈ roundLatencies db q.id, 0 ≤ x) :
    q.latencyCount = (roundLatencies db q.id).length ∧ ∀ k,
      bucketCount (storedBuckets db q.id) k = ((roundLatencies db q.id).map bucketOf).count k := by
  obtain ⟨raw, hraw, hc, hbuckets⟩ := (h.counts _ (List.mem_map_of_mem hq)).stored
  have hstored : (db.results.filter (·.roundID = q.id)).filterMap (·.rawJSON) = raw := by
    have hjoined := congrArg (List.filterMap id) hraw
    rw [List.filterMap_map, List.filterMap_map] at hjoined
    exact hjoined.trans List.filterMap_some
  have hlatencies : roundLatencies db q.id = (raw.filter (·.success)).map (·.latencyMS) := by
    rw [roundLatencies, hstored]
  have htimed : timedRaw raw = raw.filter (·.success) := by
    apply List.filter_congr
    intro r hr
    cases hs : r.success with
    | false => rfl
    | true =>
      have hpos := hrange r.latencyMS (by
        rw [hlatencies]
        exact List.mem_map_of_mem (List.mem_filter.mpr ⟨hr, hs⟩))
      exact decide_eq_true hpos
  have hcount : q.latencyCount = (timedRaw raw).length := congrArg RoundCounts.latencyCount hc
  have hbs : storedBuckets db q.id = buckets q.id (timedRaw raw) := hbuckets
  rw [hcount, hbs, htimed, hlatencies]
  refine ⟨(List.length_map _).symm, fun k => ?_⟩
  rw [bucketCount_buckets, List.map_map]
  rfl

theorem counts_rounds (h : Aggregated db) {rows : List (RoundRow ℚ)} (hrows : rows ⊆ db.rounds)
    (hrange : ∀ x ∈ rows.flatMap fun r => roundLatencies db r.id, 0 ≤ x) :
    (rows.map (·.latencyCount)).sum = (rows.flatMap fun r => roundLatencies db r.id).length ∧
      ∀ k, bucketCount (rows.flatMap fun r => storedBuckets db r.id) k =
        ((rows.flatMap fun r => roundLatencies db r.id).map bucketOf).count k := by
  induction rows with
  | nil => exact ⟨rfl, fun _ => rfl⟩
  | cons q rows ih =>
    rw [List.flatMap_cons, List.forall_mem_append] at hrange
    obtain ⟨hq, hrest⟩ := List.cons_subset.mp hrows
    obtain ⟨hlength, hcount⟩ := counts_round hq h hrange.1
    obtain ⟨hlengths, hcounts⟩ := ih hrest hrange.2
    rw [List.flatMap_cons, List.flatMap_cons, List.map_cons, List.sum_cons, List.length_append,
      hlength, hlengths]
    refine ⟨rfl, fun k => ?_⟩
    rw [bucketCount_append, hcount, hcounts, List.map_append, List.count_append]

theorem bucketOf_eq {x : ℚ} (h : x ≤ 3600000) : bucketOf x = ⌈x⌉ :=
  congrArg Int.ceil (min_eq_left h)

/-- What is read from the counts of a window: its percentile, rounded up. -/
theorem p95MS_window (h : Aggregated db)
    (hrange : ∀ x ∈ windowLatencies db serverID since now, 0 ≤ x ∧ x ≤ 3600000) {L : ℚ}
    (hL : ranked (windowLatencies db serverID since now)
      (rank95 (windowLatencies db serverID since now).length).toNat = some L)
    {a : Accumulator ℚ} (hbuckets : a.buckets = bucketsIn db serverID since now)
    (hcount : a.latencyCount = ((windowRounds db serverID since now).map (·.latencyCount)).sum) :
    0 < a.latencyCount ∧ p95MS a = ⌈L⌉ := by
  have hrows : windowRounds db serverID since now ⊆ db.rounds := by
    intro r hr
    exact (mem_formal.mp (mem_windowRounds.mp hr).1).1
  obtain ⟨hlength, hcounts⟩ := counts_rounds h hrows fun x hx => (hrange x hx).1
  have hn : a.latencyCount = (windowLatencies db serverID since now).length := by
    rw [hcount, hlength, windowLatencies]
  have hpos : 0 < (windowLatencies db serverID since now).length := by
    apply List.length_pos_iff.mpr
    intro hnil
    rw [hnil] at hL
    cases hL
  have hceil : (windowLatencies db serverID since now).map bucketOf =
      (windowLatencies db serverID since now).map Int.ceil :=
    List.map_congr_left fun x hx => bucketOf_eq (hrange x hx).2
  have hranked := ranked_map Int.ceil_mono (windowLatencies db serverID since now)
    (rank95 (windowLatencies db serverID since now).length).toNat
  rw [hL, Option.map_some] at hranked
  have hcount : ∀ k, bucketCount a.buckets k =
      ((windowLatencies db serverID since now).map Int.ceil).count k := by
    intro k
    rw [hbuckets, ← hceil]
    exact hcounts k
  refine ⟨by omega, p95MS_eq hcount ?_ ?_ ?_⟩
  · rw [hn, List.length_map]
  · rwa [List.length_map]
  · rwa [List.length_map]

theorem countIn_scan (count : RoundRow ℚ → Nat) : countIn since count (scan db serverID since now) =
    ((windowRounds db serverID since now).map count).sum := by
  have hwindow : (scan db serverID since now).filter (since ≤ ·.finishedAt) =
      windowRounds db serverID since now := by
    rw [scan, windowRounds, List.filter_filter]
    apply List.filter_congr
    intro r _
    cases decide (since ≤ r.finishedAt) <;> simp
  have hcount : (windowRounds db serverID since now).map
      (fun r => if since ≤ r.finishedAt then (count r : Int) else 0) =
      ((windowRounds db serverID since now).map count).map Nat.cast := by
    rw [List.map_map]
    apply List.map_congr_left
    intro r hr
    exact if_pos (mem_windowRounds.mp hr).2.1
  rw [countIn, ← sum_filter (p := (since ≤ ·.finishedAt)), hwindow, hcount, Nat.cast_list_sum]
  intro r _ hr
  exact if_neg (of_decide_eq_false hr)

theorem p95MS_finish {a : Accumulator ℚ} (h : 0 < a.latencyCount) (window : Int) (trusted : Bool)
    (w : RatingWeights ℚ) : (finishForServer a window trusted w).p95MS = p95MS a := by
  rw [finishForServer]
  split_ifs
  · exact if_pos h
  · exact if_pos h

theorem p95MS_adjust (unreachable : Bool) (server : Server) (config : Config ℚ)
    (a : Accumulator ℚ) (value : CurrentEvaluation ℚ) :
    (adjust unreachable server config a value).metrics.p95MS = value.metrics.p95MS := by
  unfold adjust
  split_ifs <;> rfl

/-- The three calls return, and the summary has an entry for the server. -/
structure Returns (db : DB ℚ) (server : Server) (since now : Int) : Prop where
  summary : since < now → now - since ≤ retention →
    ∃ entries, Summary.summary db since now = .ok entries ∧ ∃ e ∈ entries, e.server = server
  history : ∀ stepMS, Asked since now stepMS →
    now - since + pointWidth since now stepMS - 1 < 2 ^ 63 →
      ∃ points total, History.history db server.id since now stepMS = .ok (points, total)
  current : ∃ value, evaluateCurrent db server db.config now = .ok value

theorem returns_accepted [CaseTables] {c : Config ℚ} (hc : validateConfig c = .ok db.config)
    {server : Server} (hs : findServer db server.id = some server) (hnow : 0 < now) :
    Returns db server since now := by
  have hcheck : checkThresholds db.config now = .ok () := checkThresholds_accepted hc hnow
  refine ⟨fun hlt hspan => exists_entry hlt hspan hcheck hs, fun stepMS h hfit => ?_, ?_⟩
  · obtain ⟨hpos, -, -⟩ := pointWidth_range h
    have hcount := (grid_of_fits h hfit).1.count_pos h.ordered
    obtain ⟨s, hsums⟩ := historySums_ok db hpos hcount server.id
    refine ⟨(finishSums db.config server since now (pointWidth since now stepMS) s).1,
      (finishSums db.config server since now (pointWidth since now stepMS) s).2, ?_⟩
    have hlt := h.ordered
    rw [history, if_neg (by omega), hs]
    dsimp only
    rw [hsums]
    rfl
  · rw [evaluateCurrent, hcheck]
    exact ⟨_, rfl⟩

/-- The percentile of a summary, of the whole range of a history and of an evaluation of a server
is the latency at the rank of the percentile, in order of size, rounded up; and under an accepted
configuration the three calls return it for each server. -/
theorem p95_of_latencies [CaseTables] (legacy : Legacy ℚ) (hl : Aggregated legacy.db)
    (es : List (Event ℚ)) {db : DB ℚ} (hdb : db = Runs.run step (openStore legacy) es)
    (serverID since now : Int) (hsome : windowLatencies db serverID since now ≠ [])
    (hrange : ∀ x ∈ windowLatencies db serverID since now, 0 ≤ x ∧ x ≤ 3600000) :
    ∃ L : ℚ, ranked (windowLatencies db serverID since now)
        (rank95 (windowLatencies db serverID since now).length).toNat = some L ∧
      (∀ entries, summary db since now = .ok entries →
        ∀ e ∈ entries, e.server.id = serverID → e.metrics.p95MS = ⌈L⌉) ∧
      (∀ stepMS points total, history db serverID since now stepMS = .ok (points, total) →
        total.p95MS = ⌈L⌉) ∧
      (∀ server config value, server.id = serverID →
        since = now - config.ratingWindowMinutes * 60 * 1000 →
        evaluateCurrent db server config now = .ok value → value.metrics.p95MS = ⌈L⌉) ∧
      (∀ (c : Config ℚ) (server : Server), validateConfig c = .ok db.config →
        findServer db serverID = some server → 0 < now → Returns db server since now) ∧
      L ≤ ⌈L⌉ ∧ (⌈L⌉ : ℚ) < L + 1 := by
  have ha : Aggregated db := by
    rw [hdb]
    exact aggregated_run (wellFormed_migrate legacy.wellFormed) (aggregated_migrate hl) es
  obtain ⟨hpos, hle⟩ := rank95_bounds (List.length_pos_iff.mpr hsome)
  have hranked : ∃ L ∈ windowLatencies db serverID since now,
      ranked (windowLatencies db serverID since now)
        (rank95 (windowLatencies db serverID since now).length).toNat = some L :=
    ranked_isSome (by omega) (by omega)
  obtain ⟨L, _, hL⟩ := hranked
  have hfull : 0 < (summaryAccumulator db serverID since now).latencyCount ∧
      p95MS (summaryAccumulator db serverID since now) = ⌈L⌉ :=
    p95MS_window ha hrange hL rfl (countIn_scan _)
  refine ⟨L, hL, ?_, ?_, ?_, ?_, Int.le_ceil L, Int.ceil_lt_add_one L⟩
  · rintro entries hentries e he rfl
    rw [mem_summary hentries he, summaryMetrics, p95MS_finish hfull.1]
    exact hfull.2
  · intro stepMS points total h
    rw [history] at h
    split_ifs at h
    cases hs : findServer db serverID with
    | none => simp [hs] at h
    | some server =>
      simp only [hs, bind_eq_ok, pure_eq_ok, finishSums, Prod.mk.injEq] at h
      obtain ⟨s, hsums, -, rfl⟩ := h
      rw [historySums_total hsums, p95MS_finish hfull.1]
      exact hfull.2
  · rintro server config value rfl rfl h
    simp only [evaluateCurrent, bind_eq_ok, pure_eq_ok] at h
    obtain ⟨_, _, rfl⟩ := h
    have hcurrent := p95MS_window (a := accumulate db server
      (now - config.ratingWindowMinutes * 60 * 1000) now) ha hrange hL rfl (countIn_eligible _ _ _ _)
    rw [p95MS_adjust]
    exact (if_pos hcurrent.1).trans hcurrent.2
  · intro c server hc hs hnow
    obtain rfl := (findServer_some hs).2
    exact returns_accepted hc hs hnow

end

section

local instance : CaseTables := asciiTables

def timedRun : List (Event ℚ) :=
  [.saveServer 900 exampleServer,
    .saveRound (exampleRound 2000 [{ exampleResult true (str "clean") with latencyMS := 41 / 2 },
      exampleResult false (str "unknown")]),
    .saveRound (exampleRound 400000 [exampleResult true (str "clean"),
      { exampleResult true (str "clean") with latencyMS := 15 }])]

theorem p95_of_latencies_timed :
    let db := Runs.run step (openStore emptyLegacy) timedRun
    windowLatencies db 1 1000 500000 = [41 / 2, 12, 15] ∧
      ∃ server, findServer db 1 = some server ∧
        (∃ entries, summary db 1000 500000 = .ok entries ∧
          ∃ e ∈ entries, e.server = server ∧ e.metrics.p95MS = 21) ∧
        (∃ points total, history db 1 1000 500000 0 = .ok (points, total) ∧ total.p95MS = 21) ∧
        ∃ value, evaluateCurrent db server db.config 500000 = .ok value := by
  intro db
  obtain ⟨L, hL, hsummary, hhistory, -, hreturns, -⟩ := p95_of_latencies emptyLegacy
    aggregated_empty timedRun rfl 1 1000 500000 (by decide +kernel) (by decide +kernel)
  have hrank : ranked (windowLatencies db 1 1000 500000)
      (rank95 (windowLatencies db 1 1000 500000).length).toNat = some (41 / 2) := by
    decide +kernel
  obtain rfl := Option.some.inj (hL.symm.trans hrank)
  have hceil : (⌈(41 / 2 : ℚ)⌉ : ℚ) = 21 := by decide +kernel
  obtain ⟨server, hserver⟩ : ∃ server, findServer db 1 = some server :=
    Option.isSome_iff_exists.mp (by decide +kernel)
  have hconfig : validateConfig (defaultConfig : Config ℚ) = .ok db.config := by decide +kernel
  have h := hreturns defaultConfig server hconfig hserver (by decide)
  obtain ⟨entries, hentries, e, he, heserver⟩ := h.summary (by decide) (by decide)
  obtain ⟨points, total, hpoints⟩ := h.history 0 ⟨by decide, by decide, by decide, by decide,
    by decide, by decide⟩ (by decide)
  have hid := (findServer_some hserver).2
  rw [hid] at hpoints
  refine ⟨by decide +kernel, server, hserver, ⟨entries, hentries, e, he, heserver, ?_⟩,
    ⟨points, total, hpoints, (hhistory 0 _ _ hpoints).trans hceil⟩, h.current⟩
  exact (hsummary entries hentries e he (heserver ▸ hid)).trans hceil

end

end DnsMonitor.Store.Percentile

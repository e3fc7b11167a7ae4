import DnsMonitor.Store.Coverage
import DnsMonitor.Store.Grading
import DnsMonitor.Store.Points

namespace DnsMonitor.Store.Agreement

open DnsMonitor.Model DnsMonitor.Lib.Tables DnsMonitor.Lib.Intervals
open DnsMonitor.Store.Schema DnsMonitor.Store.Current DnsMonitor.Store.Rounds
open DnsMonitor.Store.Migration DnsMonitor.Store.Run DnsMonitor.Store.StatusHistory
open DnsMonitor.Store.Summary DnsMonitor.Store.Grading DnsMonitor.Monitor.Config
open DnsMonitor.Store.Coverage DnsMonitor.Store.Spacing DnsMonitor.Store.History DnsMonitor.Store.Points
open DnsMonitor.Go.Strings DnsMonitor.Go.Unicode DnsMonitor.Go.Errors DnsMonitor.Go.Float

/-- The times of a request, with any width of the points that an `int64` holds. -/
structure Asked (since now stepMS : Int) : Prop where
  since_pos : 0 < since
  ordered : since < now
  near : now - since ≤ retention
  now_fits : now < 2 ^ 63
  step_low : -2 ^ 63 ≤ stepMS
  step_high : stepMS < 2 ^ 63

section

variable {since now stepMS : Int}

theorem pointWidth_range (h : Asked since now stepMS) :
    0 < pointWidth since now stepMS ∧ pointWidth since now stepMS < 2 ^ 63 ∧
      now - since ≤ 1000 * pointWidth since now stepMS := by
  obtain ⟨hsince, hlt, hnear, hnow, hlow, hhigh⟩ := h
  rw [retention] at hnear
  simp only [pointWidth]
  split_ifs <;> omega

theorem pointCount_eq (h : Asked since now stepMS)
    (hfit : now - since + pointWidth since now stepMS - 1 < 2 ^ 63) :
    pointCount since now (pointWidth since now stepMS) =
      (now - since + pointWidth since now stepMS - 1) / pointWidth since now stepMS := by
  obtain ⟨hpos, _, _⟩ := pointWidth_range h
  have hlt := h.ordered
  rw [pointCount, int64_of_fits (by omega) hfit, Int.tdiv_eq_ediv_of_nonneg (by omega)]

theorem grid_of_fits (h : Asked since now stepMS)
    (hfit : now - since + pointWidth since now stepMS - 1 < 2 ^ 63) :
    Grid since now (pointWidth since now stepMS)
        (pointCount since now (pointWidth since now stepMS)) ∧
      pointCount since now (pointWidth since now stepMS) ≤ 1000 := by
  obtain ⟨hpos, hhigh, hmin⟩ := pointWidth_range h
  have hlow := Int.ediv_mul_le (now - since + pointWidth since now stepMS - 1) hpos.ne'
  have hup := Int.lt_ediv_add_one_mul_self (now - since + pointWidth since now stepMS - 1) hpos
  rw [← pointCount_eq h hfit] at hlow hup
  have hprev : (pointCount since now (pointWidth since now stepMS) - 1) *
      pointWidth since now stepMS = pointCount since now (pointWidth since now stepMS) *
        pointWidth since now stepMS - pointWidth since now stepMS := by ring
  have hnext : (pointCount since now (pointWidth since now stepMS) + 1) *
      pointWidth since now stepMS = pointCount since now (pointWidth since now stepMS) *
        pointWidth since now stepMS + pointWidth since now stepMS := by ring
  refine ⟨⟨h.since_pos, h.now_fits, hpos, hhigh, by omega, by omega⟩, ?_⟩
  by_contra hn
  have hmany : 1001 * pointWidth since now stepMS ≤
      pointCount since now (pointWidth since now stepMS) * pointWidth since now stepMS :=
    mul_le_mul_of_nonneg_right (by omega) hpos.le
  omega

theorem pointCount_over (h : Asked since now stepMS)
    (hover : 2 ^ 63 ≤ now - since + pointWidth since now stepMS - 1) :
    pointCount since now (pointWidth since now stepMS) =
      -((2 ^ 64 - (now - since + pointWidth since now stepMS - 1)) /
        pointWidth since now stepMS) := by
  obtain ⟨hpos, hhigh, _⟩ := pointWidth_range h
  have hnear := h.near
  rw [retention] at hnear
  rw [pointCount, int64_over hover (by omega), ← neg_sub (2 ^ 64) _, Int.neg_tdiv,
    Int.tdiv_eq_ediv_of_nonneg (by omega)]

theorem pointCount_zero (h : Asked since now stepMS)
    (hover : 2 ^ 63 ≤ now - since + pointWidth since now stepMS - 1)
    (hfar : 2 ^ 64 < now - since + 2 * pointWidth since now stepMS - 1) :
    pointCount since now (pointWidth since now stepMS) = 0 := by
  obtain ⟨hpos, hhigh, _⟩ := pointWidth_range h
  have hnear := h.near
  rw [retention] at hnear
  rw [pointCount_over h hover, Int.ediv_eq_zero_of_lt (by omega) (by omega), neg_zero]

theorem pointCount_neg (h : Asked since now stepMS)
    (hover : 2 ^ 63 ≤ now - since + pointWidth since now stepMS - 1)
    (hfar : ¬ 2 ^ 64 < now - since + 2 * pointWidth since now stepMS - 1) :
    pointCount since now (pointWidth since now stepMS) < 0 := by
  obtain ⟨hpos, hhigh, _⟩ := pointWidth_range h
  have hone : 1 ≤ (2 ^ 64 - (now - since + pointWidth since now stepMS - 1)) /
      pointWidth since now stepMS := by
    apply (Int.le_ediv_iff_mul_le hpos).mpr
    omega
  rw [pointCount_over h hover]
  omega

end

structure Partitioned (s : Sums ℚ) : Prop where
  samples : (s.points.map (·.samples)).sum = s.total.samples
  successes : (s.points.map (·.successes)).sum = s.total.successes
  latencyCount : (s.points.map (·.latencyCount)).sum = s.total.latencyCount
  latencySum : (s.points.map (·.latencySum)).sum = s.total.latencySum
  covered : (s.points.map (·.covered)).sum = s.total.covered
  available : (s.points.map (·.available)).sum = s.total.available
  buckets : ∀ k, (s.points.map fun a => bucketCount a.buckets k).sum = bucketCount s.total.buckets k
  pollution : maxOf (·.pollution) s.points = s.total.pollution

/-- The call returns the metrics that `Summary` has for the server, and what its points have summed
up are parts of the same sums. -/
def Agrees (db : DB ℚ) (server : Server) (since now stepMS : Int) : Prop :=
  ∃ (s : Sums ℚ) (points : List (HistoryPoint ℚ)) (total : Metrics ℚ),
    historySums db server.id since now (pointWidth since now stepMS) = .ok s ∧
    history db server.id since now stepMS = .ok (points, total) ∧
    (points, total) = finishSums db.config server since now (pointWidth since now stepMS) s ∧
    (∃ entries, summary db since now = .ok entries ∧ (∃ e ∈ entries, e.server = server) ∧
      ∀ e ∈ entries, e.server = server → e.metrics = total) ∧
    Partitioned s ∧ points.length ≤ 1000 ∧
    ∀ r ∈ windowRounds db server.id since now,
      0 ≤ pointIndex since (pointWidth since now stepMS) points.length r.finishedAt ∧
        pointIndex since (pointWidth since now stepMS) points.length r.finishedAt < points.length

/-- The sums that are divided and the end of the last point are an `int64`; or it does not
matter that they are not, as no round reaches into the last point or there is no round. -/
def Fits (db : DB ℚ) (serverID since now stepMS : Int) : Prop :=
  let width := pointWidth since now stepMS
  let count := (now - since + width - 1) / width
  if now - since + width - 1 < 2 ^ 63 then
    since + count * width < 2 ^ 63 ∨ ∀ r ∈ scan db serverID since now,
      max r.finishedAt since < min r.coveredUntil now →
        min r.coveredUntil now ≤ since + (count - 1) * width
  else 2 ^ 64 < now - since + 2 * width - 1 ∧ scan db serverID since now = []

instance (db : DB ℚ) (serverID since now stepMS : Int) :
    Decidable (Fits db serverID since now stepMS) := by
  unfold Fits
  infer_instance

section

variable {since now width count stepMS : Int} {db : DB ℚ}

theorem countColumn {serverID : Int} {s : Sums ℚ}
    (hg : Grid since now width (pointCount since now width))
    (h : historySums db serverID since now width = .ok s) {f : Accumulator ℚ → Int}
    {g : RoundRow ℚ → ℚ} (hf : Column (fun a => (f a : ℚ)) g fun _ => 0) :
    (s.points.map f).sum = f s.total := by
  have hsum := historySums_column hg hf h
  have hnone : ((scan db serverID since now).map fun r =>
      (rowExcess since now width (pointCount since now width) r : ℚ) * 0).sum = 0 :=
    List.sum_eq_zero (by simp)
  have hcast : (s.points.map fun a => (f a : ℚ)).sum = ((s.points.map f).sum : Int) := by
    rw [Int.cast_list_sum, List.map_map]
    rfl
  rw [hcast, hnone, add_zero] at hsum
  exact Int.cast_injective hsum

theorem timeColumns {serverID : Int} {s : Sums ℚ}
    (hg : Grid since now width (pointCount since now width))
    (h : historySums db serverID since now width = .ok s) :
    (s.points.map (·.covered)).sum = s.total.covered +
        ((scan db serverID since now).map
          (rowExcess since now width (pointCount since now width))).sum ∧
      (s.points.map (·.available)).sum = s.total.available +
        ((scan db serverID since now).map fun r =>
          (rowExcess since now width (pointCount since now width) r : ℚ) * ratio r).sum := by
  have hcovered : Column (·.covered) (fun _ => 0) fun _ => 1 :=
    ⟨by simp [emptyAccumulator, ofInt_rat], fun r a => (add_zero _).symm,
      fun d share a => by rw [addTime, ofInt_rat, mul_one], fun bs a => rfl⟩
  have havailable : Column (·.available) (fun _ => 0) id :=
    ⟨by simp [emptyAccumulator, ofInt_rat], fun r a => (add_zero _).symm,
      fun d share a => by rw [addTime, ofInt_rat, id], fun bs a => rfl⟩
  refine ⟨?_, historySums_column hg havailable h⟩
  rw [historySums_column hg hcovered h, Int.cast_list_sum, List.map_map]
  simp only [mul_one, Function.comp_def]

theorem partitioned_of_grid (hwidth : 0 < width) {serverID : Int} {s : Sums ℚ}
    (hg : Grid since now width (pointCount since now width))
    (hcount : 0 < pointCount since now width)
    (h : historySums db serverID since now width = .ok s)
    (hnone : ∀ r ∈ scan db serverID since now,
      rowExcess since now width (pointCount since now width) r = 0) : Partitioned s := by
  obtain ⟨hcovered, havailable⟩ := timeColumns hg h
  have hempty : ((emptyAccumulator : Accumulator ℚ).latencySum) = 0 := by
    simp [emptyAccumulator, ofInt_rat]
  have hlatency := historySums_column (f := (·.latencySum)) (g := (·.latencySum)) (c := fun _ => 0)
    hg ⟨hempty, fun _ _ => rfl, fun _ _ _ => by simp [addTime], fun _ _ => rfl⟩ h
  have hzero : ∀ f : RoundRow ℚ → ℚ, ((scan db serverID since now).map fun r =>
      (rowExcess since now width (pointCount since now width) r : ℚ) * f r).sum = 0 := by
    intro f
    apply List.sum_eq_zero
    intro x hx
    obtain ⟨r, hr, rfl⟩ := List.mem_map.mp hx
    rw [hnone r hr, Int.cast_zero, zero_mul]
  have hspan : ((scan db serverID since now).map
      (rowExcess since now width (pointCount since now width))).sum = 0 := by
    apply List.sum_eq_zero
    intro x hx
    obtain ⟨r, hr, rfl⟩ := List.mem_map.mp hx
    exact hnone r hr
  exact {
    samples := countColumn hg h (g := fun r => (r.samples : ℚ))
      ⟨rfl, fun r a => by simp [addCounts], fun d share a => by simp [addTime], fun bs a => rfl⟩
    successes := countColumn hg h (g := fun r => (r.successes : ℚ))
      ⟨rfl, fun r a => by simp [addCounts], fun d share a => by simp [addTime], fun bs a => rfl⟩
    latencyCount := countColumn hg h (g := fun r => (r.latencyCount : ℚ))
      ⟨rfl, fun r a => by simp [addCounts], fun d share a => by simp [addTime], fun bs a => rfl⟩
    latencySum := by rw [hlatency, hzero fun _ => 0, add_zero]
    covered := by rw [hcovered, hspan, Int.cast_zero, add_zero]
    available := by rw [havailable, hzero, add_zero]
    buckets := historySums_buckets hwidth hcount h
    pollution := historySums_pollution h }

variable (since now) in
theorem addRow_total_ok (hwidth : 0 < width) (hcount : 0 < count) (s : Sums ℚ) (r : RoundRow ℚ) :
    ∃ s', addRow since now width count s r = .ok s' := by
  rw [addRow, countRow]
  dsimp only
  split_ifs with hin hi
  · exact ⟨_, rfl⟩
  · exact absurd (pointIndex_range hwidth hcount hin).1 hi
  · exact ⟨_, rfl⟩

variable (db) in
theorem historySums_ok (hwidth : 0 < width) (hcount : 0 < pointCount since now width)
    (serverID : Int) : ∃ s, historySums db serverID since now width = .ok s := by
  have hrows : ∀ (rows : List (RoundRow ℚ)) (s : Sums ℚ), ∃ s',
      rows.foldlM (addRow since now width (pointCount since now width)) s = .ok s' := by
    intro rows
    induction rows with
    | nil => exact fun s => ⟨s, rfl⟩
    | cons r rows ih =>
      intro s
      obtain ⟨s₁, h₁⟩ := addRow_total_ok since now hwidth hcount s r
      obtain ⟨s', h'⟩ := ih s₁
      exact ⟨s', by rw [List.foldlM_cons, h₁]; exact h'⟩
  obtain ⟨s₁, h₁⟩ := hrows (historyRows db serverID since now)
    { points := List.replicate (pointCount since now width).toNat emptyAccumulator
      total := emptyAccumulator }
  rw [historySums, if_neg (by omega), h₁]
  exact ⟨_, rfl⟩

theorem historySums_none (hcount : pointCount since now width = 0) {serverID : Int} {s : Sums ℚ}
    (h : historySums db serverID since now width = .ok s) :
    ∀ r ∈ scan db serverID since now, r.finishedAt < since := by
  have hrows : ∀ (rows : List (RoundRow ℚ)) (s s' : Sums ℚ),
      rows.foldlM (addRow since now width 0) s = .ok s' → ∀ r ∈ rows, r.finishedAt < since := by
    intro rows
    induction rows with
    | nil => exact fun _ _ _ r hr => absurd hr List.not_mem_nil
    | cons q rows ih =>
      intro s s' h r hr
      rw [List.foldlM_cons, bind_eq_ok] at h
      obtain ⟨s₁, h₁, h⟩ := h
      cases hr with
      | tail _ hr => exact ih s₁ s' h r hr
      | head =>
        rw [addRow, bind_eq_ok] at h₁
        obtain ⟨s₂, h₂, _⟩ := h₁
        simp only [countRow] at h₂
        split_ifs at h₂ with hin hi
        · rw [pointIndex] at hi
          omega
        · omega
  obtain ⟨_, s₁, h₁, _⟩ := historySums_eq h
  rw [hcount] at h₁
  intro r hr
  exact hrows _ _ _ h₁ r ((historyRows_perm db serverID since now).mem_iff.mpr hr)

theorem entry_of_summary {entries : List (ServerSummary ℚ)}
    (h : summary db since now = .ok entries) {e : ServerSummary ℚ} (he : e ∈ entries) :
    e.metrics = summaryMetrics db e.server since now ∧
      evaluateCurrent db e.server db.config now = .ok e.current := by
  rw [summary, bind_eq_ok] at h
  obtain ⟨_, _, h⟩ := h
  obtain ⟨server, _, hentry⟩ := mem_mapM h he
  simp only [summaryOf, bind_eq_ok, pure_eq_ok] at hentry
  obtain ⟨current, hcurrent, _, _, rfl⟩ := hentry
  exact ⟨rfl, hcurrent⟩

theorem mem_summary {entries : List (ServerSummary ℚ)} (h : summary db since now = .ok entries)
    {e : ServerSummary ℚ} (he : e ∈ entries) :
    e.metrics = summaryMetrics db e.server since now :=
  (entry_of_summary h he).1

/-- Over at most 30 days the buckets of a server are always given. -/
theorem statusHistory_ok (db : DB ℚ) (serverID : Int) (hlt : since < now)
    (hspan : now - since ≤ retention) :
    ∃ buckets, statusHistory db serverID since now false = .ok buckets := by
  have hrange : int64 (now - since) = now - since := by
    rw [retention] at hspan
    exact int64_of_fits (by omega) (by omega)
  have hvalid : ¬ (now ≤ since ∨ now - since > retention) := by omega
  simp only [statusHistory, hrange]
  rw [require, if_pos hvalid]
  exact ⟨_, rfl⟩

theorem exists_entry (hlt : since < now) (hspan : now - since ≤ retention)
    (hcheck : checkThresholds db.config now = .ok ()) {server : Server}
    (hs : findServer db server.id = some server) :
    ∃ entries, summary db since now = .ok entries ∧ ∃ e ∈ entries, e.server = server := by
  have hentry : ∀ server : Server, ∃ e, summaryOf db since now server = .ok e ∧ e.server = server := by
    intro server
    obtain ⟨buckets, hbuckets⟩ := statusHistory_ok db server.id hlt hspan
    rw [summaryOf, evaluateCurrent, hcheck, hbuckets]
    exact ⟨_, rfl, rfl⟩
  obtain ⟨entries, hentries, hall⟩ := exists_mapM (l := db.servers) fun server _ =>
    (hentry server).imp fun _ h => h.1
  obtain ⟨e, he, hok⟩ := hall server (List.mem_of_find?_eq_some hs)
  obtain ⟨e', he', hserver⟩ := hentry server
  refine ⟨entries, ?_, e, he, ?_⟩
  · rw [summary, require, if_pos hlt]
    exact hentries
  · obtain rfl := Except.ok.inj (hok.symm.trans he')
    exact hserver

theorem agrees_of_partition (hcheck : checkThresholds db.config now = .ok ()) {server : Server}
    (hs : findServer db server.id = some server) (h : Asked since now stepMS) {s : Sums ℚ}
    (hsums : historySums db server.id since now (pointWidth since now stepMS) = .ok s)
    (hp : Partitioned s) (hmany : s.points.length ≤ 1000)
    (hindex : ∀ r ∈ windowRounds db server.id since now,
      0 ≤ pointIndex since (pointWidth since now stepMS) s.points.length r.finishedAt ∧
        pointIndex since (pointWidth since now stepMS) s.points.length r.finishedAt <
          s.points.length) : Agrees db server since now stepMS := by
  have hlt := h.ordered
  have hlength : (finishSums db.config server since now (pointWidth since now stepMS) s).1.length =
      s.points.length := by
    rw [finishSums, List.length_mapIdx]
  refine ⟨s, (finishSums db.config server since now (pointWidth since now stepMS) s).1,
    (finishSums db.config server since now (pointWidth since now stepMS) s).2, hsums, ?_, rfl, ?_, hp,
    hlength.le.trans hmany, ?_⟩
  · rw [history, if_neg (by omega), hs]
    dsimp only
    rw [hsums]
    rfl
  · obtain ⟨entries, hentries, hentry⟩ := exists_entry h.ordered h.near hcheck hs
    refine ⟨entries, hentries, hentry, fun e he hserver => ?_⟩
    rw [mem_summary hentries he, hserver, summaryMetrics, ← historySums_total hsums]
    rfl
  · rw [hlength]
    exact hindex

theorem rowExcess_zero {width count : Int} (hg : Grid since now width count)
    (rows : List (RoundRow ℚ)) :
    (∀ r ∈ rows, rowExcess since now width count r = 0) ↔
      (since + count * width < 2 ^ 63 ∨ ∀ r ∈ rows,
        max r.finishedAt since < min r.coveredUntil now →
          min r.coveredUntil now ≤ since + (count - 1) * width) := by
  have hnow := hg.now_fits
  constructor
  · intro h
    by_cases hfit : since + count * width < 2 ^ 63
    · exact Or.inl hfit
    · refine Or.inr fun r hr hlt => ?_
      have hzero := h r hr
      rw [rowExcess, if_neg (by omega), excess] at hzero
      by_contra hlate
      rw [if_pos ⟨by omega, by omega⟩] at hzero
      omega
  · intro h r hr
    rw [rowExcess]
    split_ifs with hle
    · rfl
    · cases h with
      | inl hfit => rw [excess, if_neg (by omega)]
      | inr hearly =>
        have hend := hearly r hr (by omega)
        rw [excess, if_neg (by omega)]

theorem windowRounds_none {serverID : Int} (h : scan db serverID since now = []) :
    windowRounds db serverID since now = [] := by
  rw [List.eq_nil_iff_forall_not_mem]
  intro r hr
  obtain ⟨hformal, hin⟩ := List.mem_filter.mp hr
  have hscan : r ∈ scan db serverID since now := by
    apply List.mem_filter.mpr
    refine ⟨hformal, ?_⟩
    simp only [Bool.and_eq_true, Bool.or_eq_true, decide_eq_true_eq] at hin ⊢
    exact ⟨hin.2, Or.inl hin.1⟩
  rw [h] at hscan
  cases hscan

theorem scan_none (hlt : since < now) (hcount : pointCount since now width = 0) {serverID : Int}
    {s : Sums ℚ} (h : historySums db serverID since now width = .ok s) (hp : Partitioned s) :
    scan db serverID since now = [] := by
  have hpoints : s.points = [] := by
    apply List.length_eq_zero_iff.mp
    rw [historySums_length h, hcount]
    rfl
  have hcovered := hp.covered
  rw [hpoints, historySums_total h] at hcovered
  have hsum : ((scan db serverID since now).map (overlap since now)).sum = 0 :=
    (Int.cast_injective hcovered).symm
  have hnonneg : ∀ x ∈ (scan db serverID since now).map (overlap since now), 0 ≤ x := by
    intro x hx
    obtain ⟨r, _, rfl⟩ := List.mem_map.mp hx
    exact le_max_left _ _
  rw [List.eq_nil_iff_forall_not_mem]
  intro r hr
  have hbefore := historySums_none hcount h r hr
  have hin := (List.mem_filter.mp hr).2
  have hzero := List.all_zero_of_le_zero_le_of_sum_eq_zero hnonneg hsum (List.mem_map_of_mem hr)
  simp only [Bool.and_eq_true, Bool.or_eq_true, decide_eq_true_eq] at hin
  rw [overlap] at hzero
  omega

theorem agrees_of_none (hcheck : checkThresholds db.config now = .ok ()) {server : Server}
    (hs : findServer db server.id = some server) (h : Asked since now stepMS)
    (hcount : pointCount since now (pointWidth since now stepMS) = 0)
    (hnone : scan db server.id since now = []) : Agrees db server since now stepMS := by
  have hrows : historyRows db server.id since now = [] := by
    rw [historyRows, hnone]
    rfl
  have hwindow := windowRounds_none hnone
  have hsums : historySums db server.id since now (pointWidth since now stepMS) =
      .ok { points := [], total := emptyAccumulator } := by
    rw [historySums, hrows, hcount]
    simp only [addBuckets, bucketsIn, hwindow]
    rfl
  have hempty : ∀ {f : Accumulator ℚ → ℚ}, f emptyAccumulator = ofInt 0 →
      (([] : List (Accumulator ℚ)).map f).sum = f emptyAccumulator := by
    intro f hf
    rw [hf]
    rfl
  apply agrees_of_partition hcheck hs h hsums
  · exact {
      samples := rfl
      successes := rfl
      latencyCount := rfl
      latencySum := hempty rfl
      covered := hempty rfl
      available := hempty rfl
      buckets := fun k => rfl
      pollution := rfl }
  · exact Nat.zero_le _
  · rw [hwindow]
    exact fun r hr => absurd hr List.not_mem_nil

/-- Under an accepted configuration a history agrees with the summary of its range exactly where its
arithmetic fits. -/
theorem history_agrees [CaseTables] {c : Config ℚ} (db : DB ℚ)
    (hc : validateConfig c = .ok db.config) {server : Server}
    (hs : findServer db server.id = some server) (h : Asked since now stepMS) :
    Agrees db server since now stepMS ↔ Fits db server.id since now stepMS := by
  have hcheck : checkThresholds db.config now = .ok () :=
    checkThresholds_accepted hc (h.since_pos.trans h.ordered)
  obtain ⟨hpos, _, _⟩ := pointWidth_range h
  rw [Fits]
  split_ifs with hfit
  · obtain ⟨hg, hmany⟩ := grid_of_fits h hfit
    have hcount := hg.count_pos h.ordered
    rw [← pointCount_eq h hfit, ← rowExcess_zero hg]
    constructor
    · intro ⟨s, _, _, hsums, _, _, _, hp, _, _⟩
      have hcovered := (timeColumns hg hsums).1
      rw [hp.covered] at hcovered
      have hsum : ((scan db server.id since now).map (rowExcess since now
          (pointWidth since now stepMS) (pointCount since now (pointWidth since now stepMS)))).sum =
          0 := by
        apply Int.cast_injective (α := ℚ)
        rw [Int.cast_zero]
        linarith only [hcovered]
      intro r hr
      have hnonneg : ∀ x ∈ (scan db server.id since now).map (rowExcess since now
          (pointWidth since now stepMS) (pointCount since now (pointWidth since now stepMS))),
          0 ≤ x := by
        intro x hx
        obtain ⟨q, _, rfl⟩ := List.mem_map.mp hx
        exact rowExcess_nonneg hg q
      exact List.all_zero_of_le_zero_le_of_sum_eq_zero hnonneg hsum (List.mem_map_of_mem hr)
    · intro hnone
      obtain ⟨s, hsums⟩ := historySums_ok db hpos hcount server.id
      have hlength := historySums_length hsums
      apply agrees_of_partition hcheck hs h hsums (partitioned_of_grid hpos hg hcount hsums hnone)
      · omega
      · intro r hr
        have hin := (List.mem_filter.mp hr).2
        simp only [Bool.and_eq_true, decide_eq_true_eq] at hin
        rw [hlength, Int.toNat_of_nonneg hcount.le]
        exact pointIndex_range hpos hcount hin.1
  · by_cases hfar : 2 ^ 64 < now - since + 2 * pointWidth since now stepMS - 1
    · have hcount := pointCount_zero h (by omega) hfar
      constructor
      · intro ⟨s, _, _, hsums, _, _, _, hp, _, _⟩
        exact ⟨hfar, scan_none h.ordered hcount hsums hp⟩
      · intro ⟨_, hnone⟩
        exact agrees_of_none hcheck hs h hcount hnone
    · have hcount := pointCount_neg h (by omega) hfar
      constructor
      · intro ⟨s, _, _, hsums, _⟩
        have hle := (historySums_eq hsums).1
        omega
      · intro hf
        exact absurd hf.1 hfar

end

section

local instance : CaseTables := asciiTables

/-- A request for points so wide that the number of points comes out as -1. -/
theorem wideStep_crashes : ∃ server, findServer idleServer server.id = some server ∧
    Asked 1 3 (2 ^ 63 - 1) ∧ history idleServer server.id 1 3 (2 ^ 63 - 1) = .error .crash ∧
    ¬ Agrees idleServer server 1 3 (2 ^ 63 - 1) := by
  have hid : (findServer idleServer 1).map (·.id) = some 1 := by decide +kernel
  obtain ⟨server, hserver, hid⟩ := Option.map_eq_some_iff.mp hid
  have hasked : Asked 1 3 (2 ^ 63 - 1) := ⟨by decide, by decide, by decide, by decide, by decide,
    by decide⟩
  have hcrash : history idleServer server.id 1 3 (2 ^ 63 - 1) = .error .crash := by
    rw [hid]
    decide +kernel
  rw [← hid] at hserver
  refine ⟨server, hserver, hasked, hcrash, ?_⟩
  intro ⟨s, points, total, _, hok, _⟩
  rw [hcrash] at hok
  cases hok

theorem history_agrees_points : ∃ db server, [exampleRound 3000 [], exampleRound 1000 [],
      exampleRound 2000 []].foldlM saveRound idleServer = .ok db ∧
    findServer db 1 = some server ∧ 0 < (scan db 1 1500 3500).length ∧
    Agrees db server 1500 3500 500 := by
  have h : ([exampleRound 3000 [], exampleRound 1000 [], exampleRound 2000 []].foldlM saveRound
      idleServer).map (fun db => ((findServer db 1).map (·.id), decide (Fits db 1 1500 3500 500),
        decide (0 < (scan db 1 1500 3500).length),
        decide (validateConfig (defaultConfig : Config ℚ) = .ok db.config))) =
      .ok (some 1, true, true, true) := by decide +kernel
  obtain ⟨db, hs, h⟩ := map_eq_ok.mp h
  obtain ⟨hid, h⟩ := Prod.mk.inj h
  obtain ⟨hfits, h⟩ := Prod.mk.inj h
  obtain ⟨hrows, hconfig⟩ := Prod.mk.inj h
  obtain ⟨server, hserver, hid⟩ := Option.map_eq_some_iff.mp hid
  have hfits := of_decide_eq_true hfits
  rw [← hid] at hserver hfits
  refine ⟨db, server, hs, hid ▸ hserver, of_decide_eq_true hrows, ?_⟩
  exact (history_agrees db (of_decide_eq_true hconfig) hserver ⟨by decide, by decide, by decide, by decide, by decide,
    by decide⟩).mpr hfits

end

end DnsMonitor.Store.Agreement

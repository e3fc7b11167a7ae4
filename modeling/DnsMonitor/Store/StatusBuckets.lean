import DnsMonitor.Store.Run
import DnsMonitor.Store.StatusHistory
import Mathlib.Algebra.Order.Ring.Int
import Mathlib.Tactic.Linarith
import Mathlib.Tactic.Ring

namespace DnsMonitor.Store.StatusBuckets

open DnsMonitor.Model DnsMonitor.Lib DnsMonitor.Lib.Tables DnsMonitor.Store.Schema
open DnsMonitor.Store.Current DnsMonitor.Store.Rounds DnsMonitor.Store.Override
open DnsMonitor.Store.Cleanup DnsMonitor.Store.Servers DnsMonitor.Store.References
open DnsMonitor.Store.Migration DnsMonitor.Store.Run DnsMonitor.Store.StatusHistory
open DnsMonitor.Go.Strings DnsMonitor.Go.Unicode DnsMonitor.Go.Errors DnsMonitor.Go.Float

section

variable {κ : Type} [DecidableEq κ]

def countOf (key : κ) (counts : List (κ × Nat)) : Nat :=
  ((counts.filter (·.1 = key)).map (·.2)).sum

theorem countOf_addCount (k key : κ) (n : Nat) (counts : List (κ × Nat)) :
    countOf k (addCount key n counts) = countOf k counts + if key = k then n else 0 := by
  induction counts with
  | nil =>
    by_cases hk : key = k <;> simp [countOf, addCount, hk]
  | cons c counts ih =>
    obtain ⟨l, m⟩ := c
    rw [addCount]
    by_cases hl : l = key
    · subst hl
      rw [if_pos rfl]
      by_cases hk : l = k
      · simp only [countOf, hk, decide_true, List.filter_cons_of_pos, List.map_cons,
          List.sum_cons, if_true]
        omega
      · simp [countOf, hk]
    · rw [if_neg hl]
      by_cases hk : l = k
      · simp only [countOf, hk, decide_true, List.filter_cons_of_pos, List.map_cons,
          List.sum_cons] at ih ⊢
        omega
      · simpa [countOf, hk] using ih

theorem sum_addCount (key : κ) (n : Nat) (counts : List (κ × Nat)) :
    ((addCount key n counts).map (·.2)).sum = (counts.map (·.2)).sum + n := by
  induction counts with
  | nil => simp [addCount]
  | cons c counts ih =>
    obtain ⟨l, m⟩ := c
    rw [addCount]
    split_ifs
    · simp only [List.map_cons, List.sum_cons]
      omega
    · simp only [List.map_cons, List.sum_cons, ih]
      omega

end

section

abbrev Group := (GoString × Grade) × Nat

theorem countOf_groups {κ : Type} [DecidableEq κ] (key : Group → κ) (k : κ) (gs : List Group)
    (counts : List (κ × Nat)) :
    countOf k (gs.foldl (fun c g => addCount (key g) g.2 c) counts) =
      countOf k counts + ((gs.filter (key · = k)).map (·.2)).sum := by
  induction gs generalizing counts with
  | nil => rfl
  | cons g gs ih =>
    rw [List.foldl_cons, ih, countOf_addCount]
    by_cases hk : key g = k
    · simp only [hk, if_true, decide_true, List.filter_cons_of_pos, List.map_cons, List.sum_cons]
      omega
    · simp [hk]

theorem sum_groups {κ : Type} [DecidableEq κ] (key : Group → κ) (gs : List Group)
    (counts : List (κ × Nat)) :
    ((gs.foldl (fun c g => addCount (key g) g.2 c) counts).map (·.2)).sum =
      (counts.map (·.2)).sum + (gs.map (·.2)).sum := by
  induction gs generalizing counts with
  | nil => rfl
  | cons g gs ih =>
    rw [List.foldl_cons, ih, sum_addCount, List.map_cons, List.sum_cons]
    exact Nat.add_assoc _ _ _

/-- What is shown is one of the values met or the first one, and none of them is more severe. -/
theorem worst_groups {α : Type} (severity : α → Nat) (f : Group → α) (gs : List Group) (first : α) :
    let worst := gs.foldl (fun w g => if severity w < severity (f g) then f g else w) first
    (worst = first ∨ worst ∈ gs.map f) ∧ severity first ≤ severity worst ∧
      ∀ g ∈ gs, severity (f g) ≤ severity worst := by
  induction gs generalizing first with
  | nil => simp
  | cons g gs ih =>
    obtain ⟨hmem, hfirst, hall⟩ := ih (if severity first < severity (f g) then f g else first)
    have hle : severity first ≤
          severity (if severity first < severity (f g) then f g else first) ∧
        severity (f g) ≤ severity (if severity first < severity (f g) then f g else first) := by
      split_ifs <;> omega
    dsimp only
    rw [List.foldl_cons]
    refine ⟨?_, hle.1.trans hfirst, List.forall_mem_cons.mpr ⟨hle.2.trans hfirst, hall⟩⟩
    cases hmem with
    | inr hmem => exact Or.inr (List.mem_cons_of_mem _ hmem)
    | inl hsame =>
      rw [hsame]
      split_ifs
      · exact Or.inr List.mem_cons_self
      · exact Or.inl rfl

end

section

variable {F : Type}

theorem sum_counts_of (p : GoString × Grade → Bool) (rows : List (SnapshotRow F)) :
    (((groups rows).filter fun g => p g.1).map (·.2)).sum =
      rows.countP fun r => p (r.pollution, r.grade) := by
  have h := List.sum_map_count_dedup_filter_eq_countP p
    (rows.map fun r => (r.pollution, r.grade))
  rw [List.countP_map] at h
  rw [groups, List.filter_map, List.map_map]
  convert h using 3
  · rfl
  · funext k
    exact List.countP_congr fun x _ => by simp
  · rfl
  · rfl

theorem sum_counts (rows : List (SnapshotRow F)) : ((groups rows).map (·.2)).sum = rows.length := by
  have h := sum_counts_of (fun _ => true) rows
  rwa [List.filter_true, List.countP_true] at h

theorem mem_groups {k : GoString × Grade} {rows : List (SnapshotRow F)} :
    (∃ n, (k, n) ∈ groups rows) ↔ ∃ r ∈ rows, (r.pollution, r.grade) = k := by
  simp [groups]

/-- What a bucket shows of its snapshots. -/
structure Shows (rows : List (SnapshotRow F)) (point : StatusBucket F) : Prop where
  snapshots : point.snapshots = rows.length
  quality : ∀ q, countOf q point.qualityCounts = rows.countP (·.pollution = q)
  grades : ∀ g, countOf g point.gradeCounts = rows.countP (·.grade = g)
  qualitySum : (point.qualityCounts.map (·.2)).sum = point.snapshots
  gradeSum : (point.gradeCounts.map (·.2)).sum = point.snapshots
  empty : rows = [] → point.pollution = str "no_data" ∧ point.grade = none
  worstQuality : rows ≠ [] → (∃ r ∈ rows, r.pollution = point.pollution) ∧
    ∀ r ∈ rows, qualitySeverity r.pollution ≤ qualitySeverity point.pollution
  worstGrade : rows ≠ [] → (∃ r ∈ rows, some r.grade = point.grade) ∧
    ∀ r ∈ rows, gradeSeverity (some r.grade) ≤ gradeSeverity point.grade

theorem foldl_addGroup {β : Type} (f : StatusBucket F → β) (add : β → Group → β)
    (hf : ∀ p g, f (addGroup p g) = add (f p) g) (gs : List Group) (point : StatusBucket F) :
    f (gs.foldl addGroup point) = gs.foldl add (f point) :=
  (List.foldl_hom f fun p g => (hf p g).symm).symm

theorem snapshots_groups (gs : List Group) (point : StatusBucket F) :
    (gs.foldl addGroup point).snapshots = point.snapshots + (gs.map (·.2)).sum := by
  induction gs generalizing point with
  | nil => rfl
  | cons g gs ih =>
    rw [List.foldl_cons, ih, List.map_cons, List.sum_cons]
    exact Nat.add_assoc _ _ _

theorem worst_rows {α : Type} (severity : α → Nat) (f : GoString × Grade → α) (first : α) {worst : α}
    {rows : List (SnapshotRow F)} (hfirst : severity first = 0)
    (hknown : ∀ r ∈ rows, 0 < severity (f (r.pollution, r.grade))) (hne : rows ≠ [])
    (hworst : worst = (groups rows).foldl
      (fun w g => if severity w < severity (f g.1) then f g.1 else w) first) :
    (∃ r ∈ rows, f (r.pollution, r.grade) = worst) ∧
      ∀ r ∈ rows, severity (f (r.pollution, r.grade)) ≤ severity worst := by
  obtain ⟨hmem, -, hall⟩ := worst_groups severity (fun g => f g.1) (groups rows) first
  rw [← hworst] at hmem hall
  have hle : ∀ r ∈ rows, severity (f (r.pollution, r.grade)) ≤ severity worst := by
    intro r hr
    obtain ⟨n, hn⟩ := mem_groups.mpr ⟨r, hr, rfl⟩
    exact hall _ hn
  refine ⟨?_, hle⟩
  cases hmem with
  | inl hsame =>
    obtain ⟨r, hr⟩ := List.exists_mem_of_ne_nil rows hne
    have hpos := (hknown r hr).trans_le (hle r hr)
    rw [hsame, hfirst] at hpos
    exact absurd hpos (lt_irrefl _)
  | inr hmem =>
    obtain ⟨g, hg, he⟩ := List.mem_map.mp hmem
    obtain ⟨r, hr, hk⟩ := mem_groups.mp ⟨g.2, hg⟩
    exact ⟨r, hr, hk ▸ he⟩

theorem qualityCounts_groups (gs : List Group) (point : StatusBucket F) :
    (gs.foldl addGroup point).qualityCounts =
      gs.foldl (fun counts g => addCount g.1.1 g.2 counts) point.qualityCounts :=
  foldl_addGroup (·.qualityCounts) (fun counts g => addCount g.1.1 g.2 counts)
    (fun _ _ => rfl) gs point

theorem gradeCounts_groups (gs : List Group) (point : StatusBucket F) :
    (gs.foldl addGroup point).gradeCounts =
      gs.foldl (fun counts g => addCount g.1.2 g.2 counts) point.gradeCounts :=
  foldl_addGroup (·.gradeCounts) (fun counts g => addCount g.1.2 g.2 counts)
    (fun _ _ => rfl) gs point

theorem gradeSeverity_pos (grade : Grade) : 0 < gradeSeverity (some grade) := by
  cases grade <;> exact Nat.succ_pos _

theorem shows_groups {rows : List (SnapshotRow F)}
    (hknown : ∀ r ∈ rows, 0 < qualitySeverity r.pollution) (since now step i : Int) :
    Shows rows ((groups rows).foldl addGroup (emptyBucket since now step i)) where
  snapshots := by
    rw [snapshots_groups, sum_counts]
    exact Nat.zero_add _
  quality q := by
    rw [qualityCounts_groups, countOf_groups fun g : Group => g.1.1,
      sum_counts_of (fun k => k.1 = q)]
    exact Nat.zero_add _
  grades grade := by
    rw [gradeCounts_groups, countOf_groups fun g : Group => g.1.2,
      sum_counts_of (fun k => k.2 = grade)]
    exact Nat.zero_add _
  qualitySum := by
    rw [qualityCounts_groups, sum_groups fun g : Group => g.1.1, snapshots_groups]
    rfl
  gradeSum := by
    rw [gradeCounts_groups, sum_groups fun g : Group => g.1.2, snapshots_groups]
    rfl
  empty hnil := by
    rw [hnil]
    exact ⟨rfl, rfl⟩
  worstQuality hne := worst_rows qualitySeverity Prod.fst (str "no_data") (by decide)
    hknown hne (foldl_addGroup (·.pollution) _ (fun _ _ => rfl) _ _)
  worstGrade hne := worst_rows gradeSeverity (fun k => some k.2) none rfl
    (fun r _ => gradeSeverity_pos r.grade) hne
    (foldl_addGroup (·.grade) _ (fun _ _ => rfl) _ _)

theorem Shows.detailed {rows : List (SnapshotRow F)} {point : StatusBucket F} (h : Shows rows point)
    (detail : Option (EvaluationSnapshot F)) : Shows rows { point with latest := detail } :=
  ⟨h.snapshots, h.quality, h.grades, h.qualitySum, h.gradeSum, h.empty, h.worstQuality, h.worstGrade⟩

end

section

variable {since now t : Int}

/-- A range that is not empty, between two values of the type. -/
structure Span (since now : Int) : Prop where
  lt : since < now
  since_fits : -2 ^ 63 ≤ since
  now_fits : now < 2 ^ 63

def stepOf (since now : Int) : Int :=
  (now - since + bucketTotal (now - since) - 1) / bucketTotal (now - since)

def bucketsOf (since now : Int) : Int := (now - since + stepOf since now - 1) / stepOf since now

theorem bucketTotal_pos (range : Int) : 0 < bucketTotal range := by
  rw [bucketTotal]
  split_ifs <;> omega

theorem ceil_bounds {n d : Int} (hd : 0 < d) :
    ((n + d - 1) / d - 1) * d < n ∧ n ≤ (n + d - 1) / d * d := by
  have hlow := Int.ediv_mul_le (n + d - 1) hd.ne'
  have hhigh := Int.lt_ediv_add_one_mul_self (n + d - 1) hd
  rw [sub_mul, one_mul]
  rw [add_mul, one_mul] at hhigh
  omega

theorem stepOf_pos (h : Span since now) : 0 < stepOf since now := by
  have hup := (ceil_bounds (n := now - since) (bucketTotal_pos (now - since))).2
  have hlt := h.lt
  exact pos_of_mul_pos_left (by rw [stepOf]; omega) (bucketTotal_pos (now - since)).le

theorem stepOf_le (h : Span since now) : stepOf since now ≤ now - since := by
  have htotal := bucketTotal_pos (now - since)
  have hone := le_mul_of_one_le_right (show 0 ≤ now - since by have := h.lt; omega) htotal
  rw [stepOf]
  apply Int.le_of_lt_add_one
  rw [Int.ediv_lt_iff_lt_mul htotal, add_mul, one_mul]
  omega

/-- The buckets cover the range, and all but the last one end in it. -/
structure Covered (since now step count : Int) : Prop where
  step_pos : 0 < step
  count_pos : 0 < count
  step_le : step ≤ now - since
  last_inside : since + (count - 1) * step < now
  reaches : now ≤ since + count * step

theorem covered (h : Span since now) : Covered since now (stepOf since now) (bucketsOf since now) := by
  have hstep := stepOf_pos h
  have hlt := h.lt
  obtain ⟨hlow, hhigh⟩ := ceil_bounds (n := now - since) hstep
  refine ⟨hstep, ?_, stepOf_le h, ?_, ?_⟩
  · exact pos_of_mul_pos_left (by rw [bucketsOf]; omega) hstep.le
  · rw [bucketsOf]
    omega
  · rw [bucketsOf]
    omega

/-- The two ways to say which bucket a time of the range is in. -/
theorem Covered.index_iff {step count i : Int} (h : Covered since now step count)
    (hi : i < count) : bucketIndex count since step t = i ↔
      since + i * step ≤ t ∧ (t < since + (i + 1) * step ∨ i + 1 = count) := by
  have hle : i ≤ (t - since) / step ↔ since + i * step ≤ t := by
    rw [Int.le_ediv_iff_mul_le h.step_pos]
    omega
  have hlt : (t - since) / step < i + 1 ↔ t < since + (i + 1) * step := by
    rw [Int.ediv_lt_iff_lt_mul h.step_pos]
    omega
  rw [bucketIndex, ← hle, ← hlt]
  omega

end

section

variable {F : Type} {db : DB F} {serverID since now : Int}

def serverRows (db : DB F) (serverID : Int) : List (SnapshotRow F) :=
  db.evaluationSnapshots.filter fun r => r.serverID = serverID

def bucketRows (db : DB F) (serverID since now i : Int) : List (SnapshotRow F) :=
  ((serverRows db serverID).filter fun r => since ≤ r.timestamp && r.timestamp ≤ now).filter
    fun r => bucketIndex (bucketsOf since now) since (stepOf since now) r.timestamp = i

def snapshotOf (r : SnapshotRow F) : EvaluationSnapshot F := ⟨r.timestamp, r.trusted, r.evaluation⟩

def countedBucket (db : DB F) (serverID since now i : Int) : StatusBucket F :=
  (groups (bucketRows db serverID since now i)).foldl addGroup
    (emptyBucket since now (stepOf since now) i)

def reportedBucket (db : DB F) (serverID since now : Int) (includeLatest : Bool) (i : Int) :
    StatusBucket F :=
  { countedBucket db serverID since now i with
    latest :=
      if includeLatest then (latest snapshotKey (bucketRows db serverID since now i)).map snapshotOf
      else none }

theorem bounds_groups (gs : List Group) (point : StatusBucket F) :
    (gs.foldl addGroup point).timestamp = point.timestamp ∧
      (gs.foldl addGroup point).endsAt = point.endsAt ∧
      (gs.foldl addGroup point).latest = point.latest := by
  induction gs generalizing point with
  | nil => exact ⟨rfl, rfl, rfl⟩
  | cons g gs ih => exact ih (addGroup point g)

theorem Covered.bounds {step count i : Int} (h : Covered since now step count)
    (hs : Span since now) (hi : 0 ≤ i) (hlt : i < count) :
    int64 (since + i * step) = since + i * step ∧
      (i + 1 < count → int64 (since + (i + 1) * step) = since + (i + 1) * step ∧
        since + (i + 1) * step < now) := by
  have hpos := mul_nonneg hi h.step_pos.le
  have hle := mul_le_mul_of_nonneg_right (show i ≤ count - 1 by omega) h.step_pos.le
  have hlast := h.last_inside
  have hsince := hs.since_fits
  have hnow := hs.now_fits
  refine ⟨int64_of_fits (by omega) (by omega), ?_⟩
  intro hnext
  have hle := mul_le_mul_of_nonneg_right (show i + 1 ≤ count - 1 by omega) h.step_pos.le
  have hstep := h.step_pos
  have hsucc : (i + 1) * step = i * step + step := by ring
  exact ⟨int64_of_fits (by omega) (by omega), by omega⟩

theorem detail_rows (db : DB F) (serverID : Int) {i : Int} (h : Span since now)
    (hi : 0 ≤ i) (hlt : i < bucketsOf since now) :
    ((serverRows db serverID).filter fun r =>
      (countedBucket db serverID since now i).timestamp ≤ r.timestamp && r.timestamp ≤
        if i + 1 = bucketsOf since now then now
        else (countedBucket db serverID since now i).endsAt - 1) =
      bucketRows db serverID since now i := by
  have hgrid := covered h
  have hpos := mul_nonneg hi hgrid.step_pos.le
  obtain ⟨hstart, hend⟩ := hgrid.bounds h hi hlt
  obtain ⟨hs, he, -⟩ := bounds_groups (groups (bucketRows db serverID since now i))
    (emptyBucket since now (stepOf since now) i)
  rw [bucketRows, List.filter_filter]
  apply List.filter_congr
  intro r _
  rw [countedBucket, hs, he, emptyBucket, Bool.eq_iff_iff]
  simp only [Bool.and_eq_true, decide_eq_true_eq, hgrid.index_iff hlt, hstart]
  by_cases hlast : i + 1 = bucketsOf since now
  · rw [if_pos hlast]
    omega
  · obtain ⟨hfits, hinside⟩ := hend (by omega)
    rw [if_neg hlast, hfits]
    omega

theorem snapshots_countedBucket (db : DB F) (serverID since now i : Int) :
    (countedBucket db serverID since now i).snapshots =
      (bucketRows db serverID since now i).length := by
  rw [countedBucket, snapshots_groups, sum_counts]
  exact Nat.zero_add _

theorem with_no_latest {point : StatusBucket F} (h : point.latest = none) :
    { point with latest := none } = point := by
  cases point
  cases h
  rfl

theorem latest_countedBucket (i : Int) : (countedBucket db serverID since now i).latest = none :=
  (bounds_groups _ _).2.2

theorem attachLatest_eq {i : Int} (h : Span since now) (hi : 0 ≤ i) (hlt : i < bucketsOf since now) :
    attachLatest (serverRows db serverID) (i + 1 = bucketsOf since now) now
        (countedBucket db serverID since now i) =
      .ok (reportedBucket db serverID since now true i) := by
  have hrows := detail_rows db serverID h hi hlt
  have hcount := snapshots_countedBucket db serverID since now i
  rw [attachLatest]
  by_cases hnone : (countedBucket db serverID since now i).snapshots = 0
  · rw [if_pos hnone, reportedBucket, List.length_eq_zero_iff.mp (hcount.symm.trans hnone)]
    exact congrArg Except.ok (with_no_latest (latest_countedBucket i)).symm
  · rw [if_neg hnone]
    simp only [decide_eq_true_eq]
    rw [hrows, reportedBucket]
    cases hl : latest snapshotKey (bucketRows db serverID since now i) with
    | none => exact absurd (hcount.trans (congrArg List.length (latest_eq_none.mp hl))) hnone
    | some r => rfl

theorem statusHistory_eq (db : DB F) (serverID : Int) (h : Span since now)
    (hspan : now - since ≤ retention)
    (includeLatest : Bool) :
    statusHistory db serverID since now includeLatest =
      .ok ((List.range (bucketsOf since now).toNat).map fun i : ℕ =>
        reportedBucket db serverID since now includeLatest i) := by
  have hlt := h.lt
  have hrange : int64 (now - since) = now - since := by
    rw [retention] at hspan
    exact int64_of_fits (by omega) (by omega)
  have hcheck : require (¬ (now ≤ since ∨ now - since > retention))
      (StoreError.text "invalid status history range") = .ok () :=
    require_eq_ok.mpr (by omega)
  rw [statusHistory]
  dsimp only
  rw [hrange, hcheck]
  cases includeLatest with
  | false =>
    have hpoints : ∀ i : Int, reportedBucket db serverID since now false i =
        countedBucket db serverID since now i :=
      fun i => with_no_latest (latest_countedBucket i)
    simp only [hpoints]
    rfl
  | true =>
    have hbucket : ∀ i ∈ List.range (bucketsOf since now).toNat,
        attachLatest (serverRows db serverID) ((i : Int) + 1 = bucketsOf since now) now
          (countedBucket db serverID since now i) =
            .ok (reportedBucket db serverID since now true i) := by
      intro i hi
      rw [List.mem_range] at hi
      exact attachLatest_eq h (by omega) (by omega)
    refine Eq.trans ?_ (mapM_eq_ok (g := fun i : ℕ =>
      reportedBucket db serverID since now true i) hbucket)
    exact (congrArg _ List.map_prod_left_eq_zip.symm).trans List.mapM_map

end

section

variable {F : Type} {db : DB F} {serverID since now : Int} {includeLatest : Bool}

/-- A time is in a bucket from its start up to its end; the end of the range is in the last one. -/
def inBucket (now : Int) (point : StatusBucket F) (t : Int) : Bool :=
  point.timestamp ≤ t && (t < point.endsAt || t = now && point.endsAt = now)

def rowsIn (db : DB F) (serverID now : Int) (point : StatusBucket F) : List (SnapshotRow F) :=
  db.evaluationSnapshots.filter fun r => r.serverID = serverID && inBucket now point r.timestamp

/-- Consecutive buckets cover the range, and each shows the snapshots in it. -/
structure Reports (db : DB F) (serverID since now : Int) (includeLatest : Bool)
    (points : List (StatusBucket F)) : Prop where
  first : points.head?.map (·.timestamp) = some since
  consecutive : points.IsChain fun p q => q.timestamp = p.endsAt
  last : points.getLast?.map (·.endsAt) = some now
  forward : ∀ p ∈ points, p.timestamp < p.endsAt
  once : ∀ t, since ≤ t → t ≤ now →
    ∃! i : Nat, ∃ p, points[i]? = some p ∧ inBucket now p t = true
  shows : ∀ p ∈ points, Shows (rowsIn db serverID now p) p
  detail : ∀ p ∈ points, includeLatest = true → rowsIn db serverID now p ≠ [] →
    ∃ r ∈ rowsIn db serverID now p, p.latest = some (snapshotOf r) ∧
      ∀ q ∈ rowsIn db serverID now p, snapshotKey q ≤ snapshotKey r

def Known (db : DB F) : Prop :=
  ∀ r ∈ db.evaluationSnapshots, 0 < qualitySeverity r.pollution

theorem timestamp_reported {i : Int} (h : Span since now) (hi : 0 ≤ i) (hlt : i < bucketsOf since now) :
    (reportedBucket db serverID since now includeLatest i).timestamp =
      since + i * stepOf since now :=
  (bounds_groups _ _).1.trans ((covered h).bounds h hi hlt).1

theorem endsAt_reported {i : Int} (h : Span since now)
    (hfits : since + bucketsOf since now * stepOf since now < 2 ^ 63) (hi : 0 ≤ i)
    (hlt : i < bucketsOf since now) :
    (reportedBucket db serverID since now includeLatest i).endsAt =
      if i + 1 = bucketsOf since now then now else since + (i + 1) * stepOf since now := by
  have hgrid := covered h
  have hreach := hgrid.reaches
  have hlow := h.lt.trans_le hgrid.reaches
  have hsince := h.since_fits
  refine (bounds_groups _ _).2.1.trans ?_
  rw [emptyBucket]
  by_cases hlast : i + 1 = bucketsOf since now
  · rw [if_pos hlast, hlast]
    dsimp only
    rw [int64_of_fits (by omega) hfits]
    exact min_eq_left hreach
  · obtain ⟨hstep, hinside⟩ := (hgrid.bounds h hi hlt).2 (by omega)
    rw [if_neg hlast]
    dsimp only
    rw [hstep]
    exact min_eq_right hinside.le

theorem inBucket_reported {i t : Int} (h : Span since now)
    (hfits : since + bucketsOf since now * stepOf since now < 2 ^ 63) (hi : 0 ≤ i)
    (hlt : i < bucketsOf since now) :
    inBucket now (reportedBucket db serverID since now includeLatest i) t = true ↔
      (since ≤ t ∧ t ≤ now) ∧ bucketIndex (bucketsOf since now) since (stepOf since now) t = i := by
  have hgrid := covered h
  have hpos := mul_nonneg hi hgrid.step_pos.le
  rw [inBucket, timestamp_reported h hi hlt,
    endsAt_reported h hfits hi hlt, hgrid.index_iff hlt]
  simp only [Bool.and_eq_true, Bool.or_eq_true, decide_eq_true_eq]
  by_cases hlast : i + 1 = bucketsOf since now
  · rw [if_pos hlast]
    omega
  · have hinside := ((hgrid.bounds h hi hlt).2 (by omega)).2
    rw [if_neg hlast]
    omega

theorem rowsIn_reported {i : Int} (h : Span since now)
    (hfits : since + bucketsOf since now * stepOf since now < 2 ^ 63) (hi : 0 ≤ i)
    (hlt : i < bucketsOf since now) :
    rowsIn db serverID now (reportedBucket db serverID since now includeLatest i) =
      bucketRows db serverID since now i := by
  rw [rowsIn, bucketRows, serverRows, List.filter_filter, List.filter_filter]
  apply List.filter_congr
  intro r _
  rw [Bool.eq_iff_iff]
  simp only [Bool.and_eq_true, decide_eq_true_eq,
    inBucket_reported h hfits hi hlt]
  tauto

theorem index_range {t : Int} (h : Span since now) (ht : since ≤ t) :
    0 ≤ bucketIndex (bucketsOf since now) since (stepOf since now) t ∧
      bucketIndex (bucketsOf since now) since (stepOf since now) t < bucketsOf since now := by
  have hgrid := covered h
  have hcount := hgrid.count_pos
  have hdiv := Int.ediv_nonneg (show 0 ≤ t - since by omega) hgrid.step_pos.le
  rw [bucketIndex]
  omega

theorem once_reported {t : Int} (h : Span since now)
    (hfits : since + bucketsOf since now * stepOf since now < 2 ^ 63) (hlow : since ≤ t)
    (hhigh : t ≤ now) : ∃! i : Nat, ∃ p,
      ((List.range (bucketsOf since now).toNat).map fun i : ℕ =>
        reportedBucket db serverID since now includeLatest i)[i]? = some p ∧
      inBucket now p t = true := by
  obtain ⟨hzero, hindex⟩ := index_range (t := t) h hlow
  refine ⟨(bucketIndex (bucketsOf since now) since (stepOf since now) t).toNat, ?_, ?_⟩
  · refine ⟨reportedBucket db serverID since now includeLatest
      (bucketIndex (bucketsOf since now) since (stepOf since now) t), ?_, ?_⟩
    · rw [List.getElem?_map, List.getElem?_range (by omega), Option.map_some,
        Int.toNat_of_nonneg hzero]
    · exact (inBucket_reported h hfits hzero hindex).mpr ⟨⟨hlow, hhigh⟩, rfl⟩
  · rintro i ⟨p, hp, hin⟩
    rw [List.getElem?_map] at hp
    obtain ⟨j, hj, rfl⟩ := Option.map_eq_some_iff.mp hp
    obtain ⟨hlen, hget⟩ := List.getElem?_eq_some_iff.mp hj
    rw [List.getElem_range] at hget
    rw [List.length_range] at hlen
    subst hget
    rw [((inBucket_reported h hfits (by omega) (by omega)).mp hin).2]
    rfl

theorem detail_reported {i : Int} (hne : bucketRows db serverID since now i ≠ []) :
    ∃ r ∈ bucketRows db serverID since now i,
      (reportedBucket db serverID since now true i).latest = some (snapshotOf r) ∧
        ∀ q ∈ bucketRows db serverID since now i, snapshotKey q ≤ snapshotKey r := by
  cases hl : latest snapshotKey (bucketRows db serverID since now i) with
  | none => exact absurd (latest_eq_none.mp hl) hne
  | some r =>
    obtain ⟨hr, hlast⟩ := latest_eq_some hl
    refine ⟨r, hr, ?_, hlast⟩
    rw [reportedBucket, if_pos rfl, hl]
    rfl

theorem reports_reported (hk : Known db) (h : Span since now)
    (hfits : since + bucketsOf since now * stepOf since now < 2 ^ 63) :
    Reports db serverID since now includeLatest
      ((List.range (bucketsOf since now).toNat).map fun i : ℕ =>
        reportedBucket db serverID since now includeLatest i) := by
  have hgrid := covered h
  have hcount := hgrid.count_pos
  have hstep := hgrid.step_pos
  have hlt := h.lt
  have hn : (bucketsOf since now).toNat ≠ 0 := by omega
  have hstart : ∀ i : ℕ, i < (bucketsOf since now).toNat →
      (reportedBucket db serverID since now includeLatest i).timestamp =
        since + i * stepOf since now :=
    fun i hi => timestamp_reported h (by omega) (by omega)
  have hend : ∀ i : ℕ, i < (bucketsOf since now).toNat →
      (reportedBucket db serverID since now includeLatest i).endsAt =
        if (i : Int) + 1 = bucketsOf since now then now else since + (i + 1) * stepOf since now :=
    fun i hi => endsAt_reported h hfits (by omega) (by omega)
  have hmem : ∀ {p}, p ∈ (List.range (bucketsOf since now).toNat).map (fun i : ℕ =>
      reportedBucket db serverID since now includeLatest i) → ∃ i : ℕ,
        i < (bucketsOf since now).toNat ∧
          reportedBucket db serverID since now includeLatest i = p := by
    intro p hp
    obtain ⟨i, hi, he⟩ := List.mem_map.mp hp
    exact ⟨i, List.mem_range.mp hi, he⟩
  constructor
  case first =>
    rw [List.head?_map, List.head?_range, if_neg hn, Option.map_some, Option.map_some,
      hstart 0 (by omega), Nat.cast_zero, zero_mul, add_zero]
  case consecutive =>
    rw [List.isChain_map, List.isChain_range]
    intro i hi
    rw [hstart _ (by omega), hend _ (by omega), if_neg (by omega), Nat.cast_succ]
  case last =>
    rw [List.getLast?_map, List.getLast?_range, if_neg hn, Option.map_some, Option.map_some,
      hend _ (by omega), if_pos (by omega)]
  case forward =>
    intro p hp
    obtain ⟨i, hi, rfl⟩ := hmem hp
    have hinside := hgrid.last_inside
    rw [hstart i hi, hend i hi]
    split_ifs with hlast
    · rwa [← hlast, add_sub_cancel_right] at hinside
    · rw [add_mul, one_mul]
      omega
  case once => exact fun t hlow hhigh => once_reported h hfits hlow hhigh
  case shows =>
    intro p hp
    obtain ⟨i, hi, rfl⟩ := hmem hp
    rw [rowsIn_reported h hfits (by omega) (by omega)]
    refine (shows_groups ?_ since now (stepOf since now) i).detailed _
    intro r hr
    exact hk r (List.mem_filter.mp (List.mem_filter.mp (List.mem_filter.mp hr).1).1).1
  case detail =>
    intro p hp hyes hne
    obtain ⟨i, hi, rfl⟩ := hmem hp
    rw [rowsIn_reported h hfits (by omega) (by omega)] at hne ⊢
    subst hyes
    exact detail_reported hne

/-- Where the end of the last bucket is no `int64`, it is not the end of the range. -/
theorem not_reports (h : Span since now) (hspan : now - since ≤ retention)
    (hover : 2 ^ 63 ≤ since + bucketsOf since now * stepOf since now) :
    ¬ Reports db serverID since now includeLatest
      ((List.range (bucketsOf since now).toNat).map fun i : ℕ =>
        reportedBucket db serverID since now includeLatest i) := by
  intro hr
  have hgrid := covered h
  have hcount := hgrid.count_pos
  have hlast := hr.last
  have hnow := h.now_fits
  have hinside := hgrid.last_inside
  have hle := hgrid.step_le
  rw [retention] at hspan
  rw [sub_mul, one_mul] at hinside
  rw [List.getLast?_map, List.getLast?_range, if_neg (by omega), Option.map_some, Option.map_some,
    Option.some_inj] at hlast
  have hindex : (((bucketsOf since now).toNat - 1 : ℕ) : Int) + 1 = bucketsOf since now := by omega
  obtain ⟨-, hend, -⟩ := bounds_groups (groups (bucketRows db serverID since now
    ((bucketsOf since now).toNat - 1 : ℕ))) (emptyBucket since now (stepOf since now)
      ((bucketsOf since now).toNat - 1 : ℕ))
  have hwrong := hlast.symm.trans hend
  rw [emptyBucket] at hwrong
  dsimp only at hwrong
  rw [hindex, int64_over hover (by omega)] at hwrong
  omega

end

section

variable {F : Type} {db db' : DB F}

theorem Known.subset (h : Known db) (hs : db'.evaluationSnapshots ⊆ db.evaluationSnapshots) :
    Known db' := fun r hr => h r (hs hr)

theorem qualitySeverity_pollutionName (code : Nat) : 0 < qualitySeverity (pollutionName code) := by
  unfold pollutionName
  split <;> decide

variable [GoFloat F]

theorem adjust_pollution (unreachable : Bool) (server : Server) (config : Config F)
    (a : Accumulator F) (value : CurrentEvaluation F) :
    (adjust unreachable server config a value).metrics.pollution = value.metrics.pollution := by
  unfold adjust
  split_ifs <;> rfl

theorem known_saveEvaluationSnapshot {serverID roundID at' : Int} (h : Known db)
    (hs : saveEvaluationSnapshot db serverID roundID at' = .ok db') : Known db' := by
  rw [saveEvaluationSnapshot] at hs
  cases hserver : findServer db serverID with
  | none => simp [hserver] at hs
  | some server =>
    simp only [hserver, evaluateCurrent, bind_eq_ok, pure_eq_ok] at hs
    obtain ⟨_, ⟨_, _, rfl⟩, _, _, rfl⟩ := hs
    intro r hr
    cases List.mem_append.mp hr with
    | inl hold => exact h r hold
    | inr hnew =>
      rw [List.mem_singleton.mp hnew]
      dsimp only
      split_ifs
      · decide
      · rw [adjust_pollution]
        exact qualitySeverity_pollutionName _

omit [GoFloat F] in
theorem known_deleteRounds {p : RoundRow F → Bool} (h : Known db) : Known (deleteRounds p db) :=
  h.subset (delete_sublist _ _).subset

theorem known_rebuildRound {id : Int} (h : Known db) (hs : rebuildRound id db = .ok db') :
    Known db' := by
  cases rebuilt hs with
  | dropped _ => exact known_deleteRounds h
  | recounted _ _ _ => exact h

theorem known_cleanup {before : Int} {t : CleanupStep} (h : Known db)
    (hs : cleanup before t db = .ok db') : Known db' := by
  cases t with
  | pruneObservations =>
    injection hs with hs
    exact hs ▸ h
  | pruneReferences ids =>
    obtain rfl := pruneReferences_ok hs
    exact h
  | dropRounds ids =>
    injection hs with hs
    exact hs ▸ known_deleteRounds h
  | pruneResults ids =>
    refine rebuildPartial_keeps (P := Known) ?_ h hs
    intro id _ d d' hd hround
    refine known_rebuildRound ?_ hround
    exact hd
  | dropAudit ids =>
    injection hs with hs
    exact hs ▸ h

variable [CaseTables]

theorem known_apply {e : Event F} (h : Known db) (hs : apply db e = .ok db') : Known db' := by
  cases e with
  | saveConfig c =>
    obtain rfl := saveConfig_ok hs
    exact h
  | saveServer now v =>
    cases saveServer_ok hs with
    | inl hi => exact hi.2 ▸ h
    | inr hu => exact hu.2.2 ▸ h
  | deleteServer id =>
    rw [deleteServer_ok hs]
    exact (known_deleteRounds h).subset (delete_sublist _ _).subset
  | importServers now snapshot items =>
    simp only [apply, map_eq_ok] at hs
    obtain ⟨r, hr, rfl⟩ := hs
    exact importServers_invariant (P := Known) (fun _ _ _ h => h) (fun _ _ h => h) h hr
  | saveRound v =>
    simp only [apply, saveRound, bind_eq_ok] at hs
    obtain ⟨_, _, _, _, _, _, hs⟩ := hs
    split_ifs at hs with ha
    · rw [pure_eq_ok] at hs
      exact hs ▸ h
    · have hinserted : Known (insertRound db v) := h
      exact known_saveEvaluationSnapshot hinserted hs
  | saveOverride now v =>
    rw [(saveOverride_ok hs).2]
    exact h
  | saveTrustedObservation server result =>
    obtain ⟨rows, rfl⟩ := saveTrustedObservation_ok hs
    exact h
  | pruneTrustedReferences now hours =>
    obtain ⟨rows, rfl⟩ := pruneTrustedReferences_ok hs
    exact h
  | cleanup before t => exact known_cleanup h hs

theorem known_run (legacy : Legacy F) (hl : Known legacy.db) (es : List (Event F)) :
    Known (Runs.run step (openStore legacy) es) :=
  Runs.run_invariant (step_invariant fun _ _ _ h hs => known_apply h hs)
    (show Known (openStore legacy) from hl) es

/-- The calls that leave the evaluations of before alone. -/
def keepsHistory : Event F → Bool
  | .saveConfig _ => true
  | .saveServer _ _ => true
  | .saveOverride _ _ => true
  | .saveRound v => v.auxiliary
  | _ => false

theorem keepsHistory_apply {e : Event F} (he : keepsHistory e = true)
    (hs : apply db e = .ok db') : db'.evaluationSnapshots = db.evaluationSnapshots := by
  cases e with
  | saveConfig c =>
    obtain rfl := saveConfig_ok hs
    rfl
  | saveServer now v =>
    cases saveServer_ok hs with
    | inl hi => rw [hi.2, insertServer]
    | inr hu => rw [hu.2.2, updateServer]
  | saveOverride now v =>
    rw [(saveOverride_ok hs).2, putOverride]
  | saveRound v =>
    simp only [apply, saveRound, bind_eq_ok] at hs
    obtain ⟨_, _, _, _, _, _, hs⟩ := hs
    have ha : v.auxiliary = true := he
    rw [if_pos ha, pure_eq_ok] at hs
    rw [← hs, insertRound]
  | _ => cases he

theorem keepsHistory_run {es : List (Event F)} (he : ∀ e ∈ es, keepsHistory e = true) :
    (Runs.run step db es).evaluationSnapshots = db.evaluationSnapshots := by
  refine Runs.run_invariant_of (C := fun e => keepsHistory e = true)
    (P := fun d : DB F => d.evaluationSnapshots = db.evaluationSnapshots) ?_ rfl he
  intro d e he hd
  cases ha : apply d e with
  | error err => simpa [step, ha] using hd
  | ok d' => simpa [step, ha, keepsHistory_apply he ha] using hd

omit [CaseTables] in
theorem end_fits_iff {since now : Int} (h : Span since now) :
    (∃ k, now ≤ since + k * stepOf since now ∧ since + k * stepOf since now < 2 ^ 63) ↔
      since + bucketsOf since now * stepOf since now < 2 ^ 63 := by
  have hgrid := covered h
  constructor
  · rintro ⟨k, hreach, hfits⟩
    have hlt := lt_of_mul_lt_mul_right (a := stepOf since now)
      (show (bucketsOf since now - 1) * stepOf since now < k * stepOf since now by
        have := hgrid.last_inside; omega) hgrid.step_pos.le
    have hle := mul_le_mul_of_nonneg_right (show bucketsOf since now ≤ k by omega)
      hgrid.step_pos.le
    omega
  · intro hfits
    exact ⟨bucketsOf since now, hgrid.reaches, hfits⟩

/-- The report is right, and stays the same, exactly when the end of its last step is an `int64`. -/
theorem statusHistory_iff (legacy : Legacy F) (hl : Known legacy.db) (es : List (Event F))
    (serverID : Int) {since now : Int} (includeLatest : Bool) (hlt : since < now)
    (hspan : now - since ≤ retention) (hsince : -2 ^ 63 ≤ since) (hnow : now < 2 ^ 63) :
    let db := Runs.run step (openStore legacy) es
    (∃ points, statusHistory db serverID since now includeLatest = .ok points ∧
      Reports db serverID since now includeLatest points ∧
      ∀ later : List (Event F), (∀ e ∈ later, keepsHistory e = true) →
        statusHistory (Runs.run step db later) serverID since now includeLatest = .ok points) ↔
      ∃ k, now ≤ since + k * stepOf since now ∧ since + k * stepOf since now < 2 ^ 63 := by
  intro db
  have hs : Span since now := ⟨hlt, hsince, hnow⟩
  rw [end_fits_iff hs]
  constructor
  · rintro ⟨points, hok, hreports, -⟩
    rw [statusHistory_eq db serverID hs hspan, Except.ok.injEq] at hok
    by_contra hover
    exact not_reports hs hspan (not_lt.mp hover) (hok ▸ hreports)
  · intro hfits
    refine ⟨_, statusHistory_eq db serverID hs hspan includeLatest,
      reports_reported (known_run legacy hl es) hs hfits, ?_⟩
    intro later hlater
    rw [← statusHistory_eq db serverID hs hspan includeLatest]
    simp only [statusHistory, keepsHistory_run hlater]

end

section

local instance : CaseTables := asciiTables

def historyRun : List (Event ℚ) :=
  [.saveServer 900 exampleServer, .saveRound (exampleRound 2000 [exampleResult true (str "clean")]),
    .saveRound (exampleRound 5000000 [exampleResult true (str "polluted")])]

theorem known_emptyLegacy : Known (emptyLegacy (F := ℚ)).db := fun _ hr => absurd hr List.not_mem_nil

/-- Thirty-four steps of three milliseconds lead over the largest value of the type. -/
theorem statusHistory_end_wraps :
    ∃ points, statusHistory (openStore (F := ℚ) emptyLegacy) 1 (2 ^ 63 - 101) (2 ^ 63 - 1) true =
        .ok points ∧ points.getLast?.map (·.endsAt) = some (-2 ^ 63 + 1) ∧
      ¬ Reports (openStore emptyLegacy) 1 (2 ^ 63 - 101) (2 ^ 63 - 1) true points := by
  refine ⟨_, rfl, by decide +kernel, fun h => ?_⟩
  have hlast := h.last
  revert hlast
  decide +kernel

theorem statusHistory_iff_day :
    let db := Runs.run step (openStore emptyLegacy) historyRun
    db.evaluationSnapshots.length = 2 ∧
    ∃ points, statusHistory db 1 1000 86401000 true = .ok points ∧
      Reports db 1 1000 86401000 true points ∧
      ∀ later : List (Event ℚ), (∀ e ∈ later, keepsHistory e = true) →
        statusHistory (Runs.run step db later) 1 1000 86401000 true = .ok points :=
  ⟨by decide +kernel, (statusHistory_iff emptyLegacy known_emptyLegacy historyRun 1 true
    (by decide) (by decide) (by decide) (by decide)).mpr ⟨48, by decide, by decide⟩⟩

end

end DnsMonitor.Store.StatusBuckets

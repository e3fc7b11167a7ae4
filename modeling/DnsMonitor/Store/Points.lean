import DnsMonitor.Store.History
import Mathlib.Tactic.Ring

namespace DnsMonitor.Store.Points

open DnsMonitor.Model DnsMonitor.Lib.Tables DnsMonitor.Lib.Intervals
open DnsMonitor.Store.Schema DnsMonitor.Store.Current DnsMonitor.Store.Rounds
open DnsMonitor.Store.Migration DnsMonitor.Store.Run DnsMonitor.Store.Summary
open DnsMonitor.Store.Spacing DnsMonitor.Store.History
open DnsMonitor.Go.Strings DnsMonitor.Go.Unicode DnsMonitor.Go.Errors DnsMonitor.Go.Float

section

variable {F : Type} [GoFloat F] {since now width count start stop : Int}

theorem length_giveTime (d : Int) (share : F) (i : Int) (points : List (Accumulator F)) :
    (giveTime d share i points).length = points.length := by
  rw [giveTime]
  split_ifs
  · simp
  · rfl

theorem length_spread (share : F) (n : Nat) (i : Int) (points : List (Accumulator F)) :
    (spread since width start stop share n i points).length = points.length := by
  induction n generalizing i points with
  | zero => rfl
  | succ n ih =>
    rw [spread]
    split_ifs
    · rfl
    · rw [ih, length_giveTime]

theorem map_spread {β : Type} {f : Accumulator F → β}
    (hf : ∀ d share a, f (addTime d share a) = f a) (share : F) (n : Nat) (i : Int)
    (points : List (Accumulator F)) :
    (spread since width start stop share n i points).map f = points.map f := by
  induction n generalizing i points with
  | zero => rfl
  | succ n ih =>
    rw [spread]
    split_ifs
    · rfl
    · rw [ih, giveTime]
      split_ifs
      · exact map_modify (hf _ _) points _
      · rfl

end

section

variable {since now width count : Int}

/-- The points cover the range, and only the last one may reach over its end. -/
structure Grid (since now width count : Int) : Prop where
  since_pos : 0 < since
  now_fits : now < 2 ^ 63
  width_pos : 0 < width
  width_fits : width < 2 ^ 63
  last_inside : since + (count - 1) * width < now
  reaches : now ≤ since + count * width

/-- Where the end of the last point is no `int64`, the time from the end of an interval up to
there is given to that point too. -/
def excess (since width count stop : Int) : Int :=
  if 2 ^ 63 ≤ since + count * width ∧ since + (count - 1) * width < stop then
    since + count * width - stop
  else 0

theorem excess_nonneg (h : Grid since now width count) {stop : Int} (hs : stop ≤ now) :
    0 ≤ excess since width count stop := by
  have hreach := h.reaches
  rw [excess]
  split_ifs <;> omega

theorem sum_giveTime {f : Accumulator ℚ → ℚ} {share c : ℚ}
    (hf : ∀ (d : Int) a, f (addTime d share a) = f a + d * c) (d : Int) {i : Int}
    {points : List (Accumulator ℚ)} (hi : i.toNat < points.length) :
    ((giveTime d share i points).map f).sum = (points.map f).sum + (max 0 d : Int) * c := by
  rw [giveTime]
  split_ifs with hd
  · rw [sum_modify (hf d) hi, max_eq_right hd.le]
  · rw [max_eq_left (by omega)]
    simp

theorem pointTime (h : Grid since now width count) {start stop i : Int} (hstart : since ≤ start)
    (hlt : start < stop) (hstop : stop ≤ now) (hi : 0 ≤ i) (hic : i + 1 ≤ count)
    (hbreak : since + i * width < stop) :
    max 0 (int64 (min stop (int64 (since + i * width + width)) - max start (since + i * width))) =
      common (since + i * width) (since + (i + 1) * width) start stop +
        (if i + 1 = count then excess since width count stop else 0) := by
  obtain ⟨hsince, hnow, hwidth, hfits, hlast, hreach⟩ := h
  have hnext : (i + 1) * width = i * width + width := by ring
  have hlow : 0 ≤ i * width := mul_nonneg hi hwidth.le
  rw [common, excess, hnext]
  by_cases hend : i + 1 = count
  · subst hend
    rw [add_sub_cancel_right] at hlast ⊢
    rw [hnext] at hreach ⊢
    by_cases hwrap : 2 ^ 63 ≤ since + (i * width + width)
    · rw [int64_over (n := since + i * width + width) (by omega) (by omega),
        int64_under (by omega) (by omega), if_pos rfl, if_pos ⟨hwrap, hbreak⟩]
      omega
    · rw [int64_of_fits (n := since + i * width + width) (by omega) (by omega),
        int64_of_fits (by omega) (by omega), if_pos rfl, if_neg (by omega)]
      omega
  · have hbefore : (i + 1) * width ≤ (count - 1) * width :=
      mul_le_mul_of_nonneg_right (by omega) hwidth.le
    rw [int64_of_fits (n := since + i * width + width) (by omega) (by omega),
      int64_of_fits (by omega) (by omega), if_neg hend]
    omega

theorem sum_spread (h : Grid since now width count) {f : Accumulator ℚ → ℚ} {share c : ℚ}
    (hf : ∀ (d : Int) a, f (addTime d share a) = f a + d * c) {start stop : Int}
    (hstart : since ≤ start) (hlt : start < stop) (hstop : stop ≤ now) {n : Nat} {i : Int}
    {points : List (Accumulator ℚ)} (hi : 0 ≤ i) (hn : i + n = count)
    (hlen : points.length = count.toNat) :
    ((spread since width start stop share n i points).map f).sum =
      (points.map f).sum + (common (since + i * width) (since + count * width) start stop +
        (if n = 0 then 0 else excess since width count stop) : Int) * c := by
  induction n generalizing i points with
  | zero =>
    have hnone : common (since + i * width) (since + count * width) start stop = 0 := by
      rw [common, show i = count by omega]
      omega
    rw [spread, hnone]
    simp
  | succ n ih =>
    have hwidth := h.width_pos
    have hlast : i * width ≤ (count - 1) * width :=
      mul_le_mul_of_nonneg_right (by omega) hwidth.le
    by_cases hbreak : stop ≤ since + i * width
    · have hexcess : excess since width count stop = 0 := by
        rw [excess, if_neg (by omega)]
      rw [spread, if_pos hbreak, common_zero (Or.inl hbreak), hexcess]
      simp
    · have hrest : (i + 1) * width ≤ count * width :=
        mul_le_mul_of_nonneg_right (by omega) hwidth.le
      have hnext : i * width ≤ (i + 1) * width := mul_le_mul_of_nonneg_right (by omega) hwidth.le
      have hcut := common_split (c := since + i * width) (d := since + (i + 1) * width)
        (e := since + count * width) (by omega) (by omega) start stop
      rw [spread, if_neg hbreak]
      dsimp only
      rw [ih (by omega) (by omega) (by rw [length_giveTime, hlen]),
        sum_giveTime hf _ (by omega), pointTime h hstart hlt hstop hi (by omega) (by omega), ← hcut]
      by_cases hzero : n = 0
      · rw [if_pos hzero, if_pos (by omega), if_neg (by omega)]
        push_cast
        ring
      · rw [if_neg hzero, if_neg (by omega), if_neg (by omega)]
        push_cast
        ring

/-- A column of the sums: what a round adds to it, and what its time does. -/
structure Column (f : Accumulator ℚ → ℚ) (g : RoundRow ℚ → ℚ) (c : ℚ → ℚ) : Prop where
  empty : f emptyAccumulator = 0
  counts : ∀ r a, f (addCounts r a) = f a + g r
  time : ∀ (d : Int) share a, f (addTime d share a) = f a + d * c share
  buckets : ∀ bs a, f { a with buckets := bs } = f a

def rowExcess (since now width count : Int) (r : RoundRow ℚ) : Int :=
  if min r.coveredUntil now ≤ max r.finishedAt since then 0
  else excess since width count (min r.coveredUntil now)

theorem rowExcess_nonneg (h : Grid since now width count) (r : RoundRow ℚ) :
    0 ≤ rowExcess since now width count r := by
  rw [rowExcess]
  split_ifs
  · exact le_refl 0
  · exact excess_nonneg h (min_le_right _ _)

theorem pointIndex_range (hwidth : 0 < width) (hcount : 0 < count) {finishedAt : Int}
    (h : since ≤ finishedAt) :
    0 ≤ pointIndex since width count finishedAt ∧
      pointIndex since width count finishedAt < count := by
  have hq : 0 ≤ (finishedAt - since) / width := Int.ediv_nonneg (by omega) hwidth.le
  rw [pointIndex]
  omega

theorem Grid.count_pos (h : Grid since now width count) (hlt : since < now) : 0 < count := by
  by_contra hn
  have hle : count * width ≤ 0 := Int.mul_nonpos_of_nonpos_of_nonneg (by omega) h.width_pos.le
  have hreach := h.reaches
  omega

theorem length_addRow {s s' : Sums ℚ} {r : RoundRow ℚ}
    (h : addRow since now width count s r = .ok s') : s'.points.length = s.points.length := by
  rw [addRow, bind_eq_ok] at h
  obtain ⟨s₁, h₁, h⟩ := h
  rw [pure_eq_ok] at h
  have hcount : s₁.points.length = s.points.length := by
    simp only [countRow] at h₁
    split_ifs at h₁
    · rw [← Except.ok.inj h₁]
      simp
    · rw [← Except.ok.inj h₁]
  rw [← h, spreadRow, ← hcount]
  dsimp only
  split_ifs
  · rfl
  · exact length_spread _ _ _ _

theorem sum_countRow {f : Accumulator ℚ → ℚ} {g : RoundRow ℚ → ℚ} {c : ℚ → ℚ}
    (hf : Column f g c) {s s' : Sums ℚ} {r : RoundRow ℚ}
    (hlen : s.points.length = count.toNat) (h : countRow since width count s r = .ok s') :
    (s'.points.map f).sum - f s'.total = (s.points.map f).sum - f s.total := by
  simp only [countRow] at h
  split_ifs at h with hin hi
  · have hlt : (pointIndex since width count r.finishedAt).toNat < s.points.length := by
      rw [hlen]
      rw [pointIndex] at hi ⊢
      omega
    rw [← Except.ok.inj h, sum_modify (hf.counts r) hlt, hf.counts]
    ring
  · rw [← Except.ok.inj h]

theorem sum_spreadRow (hg : Grid since now width count) {f : Accumulator ℚ → ℚ}
    {g : RoundRow ℚ → ℚ} {c : ℚ → ℚ} (hf : Column f g c) {s : Sums ℚ} (r : RoundRow ℚ)
    (hlen : s.points.length = count.toNat) :
    ((spreadRow since now width count s r).points.map f).sum -
        f (spreadRow since now width count s r).total =
      (s.points.map f).sum - f s.total + rowExcess since now width count r * c (ratio r) := by
  have hwidth := hg.width_pos
  have hreach := hg.reaches
  rw [spreadRow, rowExcess]
  dsimp only
  split_ifs with hstop
  · simp
  · have hlt := Int.not_le.mp hstop
    have hstart : since ≤ max r.finishedAt since := le_max_right _ _
    have hend : min r.coveredUntil now ≤ now := min_le_right _ _
    have hi : 0 ≤ (max r.finishedAt since - since) / width := Int.ediv_nonneg (by omega) hwidth.le
    have hic : (max r.finishedAt since - since) / width < count :=
      Int.ediv_lt_of_lt_mul hwidth (by omega)
    have hfirst : (max r.finishedAt since - since) / width * width ≤ max r.finishedAt since - since :=
      Int.ediv_mul_le _ hwidth.ne'
    have hall : common (since + (max r.finishedAt since - since) / width * width)
        (since + count * width) (max r.finishedAt since) (min r.coveredUntil now) =
          min r.coveredUntil now - max r.finishedAt since := by
      rw [common]
      omega
    rw [sum_spread hg (fun d a => hf.time d _ a) hstart hlt hend hi (by omega) hlen, hall,
      if_neg (by omega), hf.time]
    push_cast
    ring

theorem foldlM_length {rows : List (RoundRow ℚ)} {s s' : Sums ℚ}
    (h : rows.foldlM (addRow since now width count) s = .ok s') :
    s'.points.length = s.points.length := by
  apply foldlM_invariant (P := fun t => t.points.length = s.points.length) _ rfl h
  intro t r t' ht hr
  rw [length_addRow hr, ht]

theorem sum_foldlM (hg : Grid since now width count) {f : Accumulator ℚ → ℚ} {g : RoundRow ℚ → ℚ}
    {c : ℚ → ℚ} (hf : Column f g c) {rows : List (RoundRow ℚ)} {s s' : Sums ℚ}
    (hlen : s.points.length = count.toNat)
    (h : rows.foldlM (addRow since now width count) s = .ok s') :
    (s'.points.map f).sum - f s'.total = (s.points.map f).sum - f s.total +
      (rows.map fun r => rowExcess since now width count r * c (ratio r)).sum := by
  induction rows generalizing s with
  | nil =>
    rw [List.foldlM_nil, pure_eq_ok] at h
    rw [h]
    simp
  | cons r rows ih =>
    rw [List.foldlM_cons, bind_eq_ok] at h
    obtain ⟨s₁, h₁, h⟩ := h
    have hlen₁ := (length_addRow h₁).trans hlen
    have hstep : (s₁.points.map f).sum - f s₁.total = (s.points.map f).sum - f s.total +
        rowExcess since now width count r * c (ratio r) := by
      rw [addRow, bind_eq_ok] at h₁
      obtain ⟨s₂, h₂, h₁⟩ := h₁
      rw [pure_eq_ok] at h₁
      have hlen₂ : s₂.points.length = count.toNat := by
        rw [← hlen₁, ← h₁, spreadRow]
        dsimp only
        split_ifs
        · rfl
        · exact (length_spread _ _ _ _).symm
      rw [← h₁, sum_spreadRow hg hf r hlen₂, sum_countRow hf hlen h₂]
    rw [ih hlen₁ h, hstep, List.map_cons, List.sum_cons, add_assoc]

/-- What `historySums` has summed up, before the buckets. -/
theorem historySums_eq {db : DB ℚ} {serverID : Int} {s : Sums ℚ}
    (h : historySums db serverID since now width = .ok s) :
    0 ≤ pointCount since now width ∧
      ∃ s₁, (historyRows db serverID since now).foldlM
          (addRow since now width (pointCount since now width))
          { points := List.replicate (pointCount since now width).toNat emptyAccumulator
            total := emptyAccumulator } = .ok s₁ ∧
        s = addBuckets db serverID since now width (pointCount since now width) s₁ := by
  rw [historySums] at h
  split_ifs at h with hc
  rw [bind_eq_ok] at h
  obtain ⟨s₁, h₁, h⟩ := h
  rw [pure_eq_ok] at h
  exact ⟨by omega, s₁, h₁, h.symm⟩

theorem historySums_length {db : DB ℚ} {serverID : Int} {s : Sums ℚ}
    (h : historySums db serverID since now width = .ok s) :
    s.points.length = (pointCount since now width).toNat := by
  obtain ⟨_, s₁, h₁, rfl⟩ := historySums_eq h
  rw [addBuckets, List.length_mapIdx, foldlM_length h₁, List.length_replicate]

theorem historySums_column (hg : Grid since now width (pointCount since now width))
    {f : Accumulator ℚ → ℚ} {g : RoundRow ℚ → ℚ} {c : ℚ → ℚ} (hf : Column f g c) {db : DB ℚ}
    {serverID : Int} {s : Sums ℚ} (h : historySums db serverID since now width = .ok s) :
    (s.points.map f).sum = f s.total + ((scan db serverID since now).map fun r =>
      rowExcess since now width (pointCount since now width) r * c (ratio r)).sum := by
  obtain ⟨_, s₁, h₁, rfl⟩ := historySums_eq h
  have hsum := sum_foldlM hg hf (by simp) h₁
  have hstart : ((List.replicate (pointCount since now width).toNat emptyAccumulator).map f).sum =
      0 := by
    rw [List.map_replicate, hf.empty]
    simp
  have hperm := historyRows_perm db serverID since now
  rw [hstart, hf.empty, (hperm.map _).sum_eq] at hsum
  rw [addBuckets, map_mapIdx fun i a => hf.buckets _ a, hf.buckets]
  linarith only [hsum]

variable (since now width count) in
theorem maxOf_spreadRow (s : Sums ℚ) (r : RoundRow ℚ) :
    maxOf (·.pollution) (spreadRow since now width count s r).points =
        maxOf (·.pollution) s.points ∧
      (spreadRow since now width count s r).total.pollution = s.total.pollution := by
  have hcolumn : ∀ points points' : List (Accumulator ℚ),
      points'.map (·.pollution) = points.map (·.pollution) →
        maxOf (·.pollution) points' = maxOf (·.pollution) points := by
    intro points points' h
    have hid := congrArg (maxOf id) h
    rw [maxOf_map, maxOf_map] at hid
    exact hid
  rw [spreadRow]
  dsimp only
  split_ifs
  · exact ⟨rfl, rfl⟩
  · exact ⟨hcolumn _ _ (map_spread (fun _ _ _ => rfl) _ _ _ _), rfl⟩

theorem maxOf_addRow {s s' : Sums ℚ} {r : RoundRow ℚ} (hlen : s.points.length = count.toNat)
    (h : addRow since now width count s r = .ok s')
    (hs : maxOf (·.pollution) s.points = s.total.pollution) :
    maxOf (·.pollution) s'.points = s'.total.pollution := by
  rw [addRow, bind_eq_ok] at h
  obtain ⟨s₁, h₁, h⟩ := h
  rw [pure_eq_ok] at h
  obtain ⟨hpoints, htotal⟩ := maxOf_spreadRow since now width count s₁ r
  rw [← h, hpoints, htotal]
  simp only [countRow] at h₁
  split_ifs at h₁ with hin hi
  · have hlt : (pointIndex since width count r.finishedAt).toNat < s.points.length := by
      rw [hlen]
      rw [pointIndex] at hi ⊢
      omega
    rw [← Except.ok.inj h₁]
    dsimp only
    rw [maxOf_modify (n := r.pollution) (fun a => rfl) hlt, hs]
    rfl
  · rw [← Except.ok.inj h₁]
    exact hs

theorem historySums_pollution {db : DB ℚ} {serverID : Int} {s : Sums ℚ}
    (h : historySums db serverID since now width = .ok s) :
    maxOf (·.pollution) s.points = s.total.pollution := by
  obtain ⟨_, s₁, h₁, rfl⟩ := historySums_eq h
  have hstart : maxOf (·.pollution) (List.replicate (pointCount since now width).toNat
      (emptyAccumulator : Accumulator ℚ)) = 0 := by
    apply Nat.le_zero.mp
    apply maxOf_le
    intro a ha
    rw [List.eq_of_mem_replicate ha]
    exact le_refl _
  have hcolumn := congrArg (maxOf id) (map_mapIdx (f := (·.pollution))
    (g := fun i a => { a with
      buckets := pointBuckets db serverID since now width (pointCount since now width) i })
    (fun i a => rfl) s₁.points)
  rw [maxOf_map, maxOf_map] at hcolumn
  have hrun : s₁.points.length = (pointCount since now width).toNat ∧
      maxOf (·.pollution) s₁.points = s₁.total.pollution := by
    apply foldlM_invariant (P := fun t => t.points.length = (pointCount since now width).toNat ∧
      maxOf (·.pollution) t.points = t.total.pollution) _ ⟨by simp, hstart⟩ h₁
    intro t r t' ht hr
    exact ⟨(length_addRow hr).trans ht.1, maxOf_addRow ht.1 hr ht.2⟩
  exact hcolumn.trans hrun.2

theorem bucketCount_flatMap (f : RoundRow ℚ → List BucketRow) (k : Int)
    (rows : List (RoundRow ℚ)) :
    bucketCount (rows.flatMap f) k = (rows.map fun r => bucketCount (f r) k).sum := by
  induction rows with
  | nil => rfl
  | cons r rows ih =>
    rw [List.flatMap_cons, List.map_cons, List.sum_cons, ← ih, bucketCount, List.filter_append,
      List.map_append, List.sum_append]
    rfl

theorem historySums_buckets (hwidth : 0 < width) {db : DB ℚ} {serverID : Int} {s : Sums ℚ}
    (hcount : 0 < pointCount since now width)
    (h : historySums db serverID since now width = .ok s) (k : Int) :
    (s.points.map fun a => bucketCount a.buckets k).sum = bucketCount s.total.buckets k := by
  have hlen := historySums_length h
  obtain ⟨_, s₁, h₁, rfl⟩ := historySums_eq h
  have hlen₁ : s₁.points.length = (pointCount since now width).toNat := by
    rw [← hlen, addBuckets, List.length_mapIdx]
  have hrange : ∀ r ∈ windowRounds db serverID since now,
      0 ≤ pointIndex since width (pointCount since now width) r.finishedAt ∧
        pointIndex since width (pointCount since now width) r.finishedAt <
          ((pointCount since now width).toNat : Int) := by
    intro r hr
    have hin := (List.mem_filter.mp hr).2
    rw [Int.toNat_of_nonneg hcount.le]
    simp only [Bool.and_eq_true, decide_eq_true_eq] at hin
    exact pointIndex_range hwidth hcount hin.1
  have hcolumn := map_mapIdx_range (f := fun a : Accumulator ℚ => bucketCount a.buckets k)
    (g := fun i a => { a with
      buckets := pointBuckets db serverID since now width (pointCount since now width) i })
    (k := fun i : Nat => bucketCount
      (pointBuckets db serverID since now width (pointCount since now width) i) k)
    (fun i a => rfl) s₁.points
  rw [addBuckets]
  dsimp only
  rw [hcolumn, hlen₁, bucketsIn, bucketCount_flatMap, ← sum_groups hrange]
  simp only [pointBuckets, bucketCount_flatMap]

end

end DnsMonitor.Store.Points

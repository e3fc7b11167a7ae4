import DnsMonitor.Lib.Timeline
import DnsMonitor.Store.Spacing

namespace DnsMonitor.Store.Coverage

open DnsMonitor.Model DnsMonitor.Lib DnsMonitor.Lib.Tables DnsMonitor.Lib.Timeline
open DnsMonitor.Lib.Intervals
open DnsMonitor.Store.Schema DnsMonitor.Store.Current DnsMonitor.Store.Rounds
open DnsMonitor.Store.Migration DnsMonitor.Store.Run DnsMonitor.Store.WellFormed
open DnsMonitor.Store.Schedule DnsMonitor.Store.Spacing
open DnsMonitor.Go.Strings DnsMonitor.Go.Unicode DnsMonitor.Go.Errors DnsMonitor.Go.Float

section

variable {F : Type}

/-- The end of a round's interval: the next one's finish time when that comes first. -/
def coveredTo (rows : List (RoundRow F)) (q : RoundRow F) : Int :=
  match next timeKey q rows with
  | some r => min q.nextDue r.finishedAt
  | none => q.nextDue

/-- Every scheduled round of the server covers the time up to the next one. -/
def Timeline (serverID : Int) (db : DB F) : Prop :=
  ∀ q ∈ formal serverID db.rounds, q.coveredUntil = coveredTo (formal serverID db.rounds) q

instance (serverID : Int) (db : DB F) : Decidable (Timeline serverID db) :=
  inferInstanceAs (Decidable (∀ _ ∈ _, _))

def finishTimes (serverID : Int) (db : DB F) : List Int :=
  (formal serverID db.rounds).map (·.finishedAt)

def times (serverID : Int) (vs : List (Round F)) : List Int :=
  (vs.filter (isScheduled serverID)).map (·.finishedAt)

theorem coveredTo_truncate (id finishedAt : Int) (rows : List (RoundRow F)) (q : RoundRow F)
    (n : Int) : coveredTo (truncate id finishedAt rows) { q with coveredUntil := n } =
      coveredTo rows q := by
  have hkey : ∀ r : RoundRow F, timeKey (if r.id = id then
      { r with coveredUntil := min r.nextDue finishedAt } else r) = timeKey r := by
    intro r
    split_ifs <;> rfl
  rw [coveredTo, truncate, update, coveredTo]
  simp only [decide_eq_true_eq]
  rw [next_map (q := q) (p := { q with coveredUntil := n }) hkey rfl]
  cases next timeKey q rows with
  | none => rfl
  | some r =>
    simp only [Option.map_some]
    split_ifs <;> rfl

variable {db : DB F} {v : Round F} {n : RoundRow F} {rows : List (RoundRow F)}

theorem nextTime_eq (h : ∀ r ∈ rows, timeKey n < timeKey r ↔ n.finishedAt < r.finishedAt) :
    ((rows.map (·.finishedAt)).filter (n.finishedAt < ·)).min? =
      (next timeKey n rows).map (·.finishedAt) := by
  cases hn : next timeKey n rows with
  | none =>
    rw [Option.map_none, List.min?_eq_none_iff, List.filter_eq_nil_iff]
    intro t ht hlt
    obtain ⟨r, hr, rfl⟩ := List.mem_map.mp ht
    exact next_eq_none.mp hn r hr ((h r hr).mpr (by simpa using hlt))
  | some r =>
    obtain ⟨hr, hlt, hmin⟩ := next_eq_some hn
    rw [Option.map_some, List.min?_eq_some_iff]
    constructor
    · apply List.mem_filter.mpr
      exact ⟨List.mem_map_of_mem hr, by simpa using (h r hr).mp hlt⟩
    · intro t ht
      obtain ⟨ht, hlt⟩ := List.mem_filter.mp ht
      obtain ⟨s, hs, rfl⟩ := List.mem_map.mp ht
      have hrs := hmin s hs ((h s hs).mpr (by simpa using hlt))
      rw [timeKey_le] at hrs
      omega

theorem timeKey_lt_of_ne {r : RoundRow F} (h : r.finishedAt ≠ n.finishedAt) :
    timeKey n < timeKey r ↔ n.finishedAt < r.finishedAt := by
  rw [timeKey_lt]
  omega

theorem coveredTo_last (hids : ((rows ++ [n]).map (·.id)).Nodup)
    (hne : ∀ r ∈ rows, r.finishedAt ≠ n.finishedAt) {q : RoundRow F}
    (hlast : latest timeKey (rows.filter (·.finishedAt ≤ n.finishedAt)) = some q) :
    coveredTo (rows ++ [n]) q = min q.nextDue n.finishedAt := by
  obtain ⟨hq, hmax⟩ := latest_eq_some hlast
  obtain ⟨hq, hle⟩ := List.mem_filter.mp hq
  have hneq := hne q hq
  simp only [decide_eq_true_eq] at hle
  have hqn : timeKey q < timeKey n := timeKey_lt.mpr (.inl (by omega))
  have hafter : ∀ t ∈ rows, timeKey q < timeKey t → timeKey n ≤ timeKey t := by
    intro t ht hqt
    by_contra hnt
    have htn := timeKey_lt.mp (not_le.mp hnt)
    have htmem : t ∈ rows.filter (·.finishedAt ≤ n.finishedAt) :=
      List.mem_filter.mpr ⟨ht, by simp only [decide_eq_true_eq]; omega⟩
    exact absurd (hmax t htmem) (not_le.mpr hqt)
  rw [coveredTo, next_append_after (timeKey_inj hids) hqn hafter]

theorem coveredTo_append (hids : ((rows ++ [n]).map (·.id)).Nodup)
    (hne : ∀ r ∈ rows, r.finishedAt ≠ n.finishedAt) {q : RoundRow F} (hq : q ∈ rows)
    (hlast : latest timeKey (rows.filter (·.finishedAt ≤ n.finishedAt)) ≠ some q) :
    coveredTo (rows ++ [n]) q = coveredTo rows q := by
  by_cases hqn : timeKey q < timeKey n
  · have hneq := hne q hq
    have hlt := timeKey_lt.mp hqn
    have hqmem : q ∈ rows.filter (·.finishedAt ≤ n.finishedAt) :=
      List.mem_filter.mpr ⟨hq, by simp only [decide_eq_true_eq]; omega⟩
    cases hl : latest timeKey (rows.filter (·.finishedAt ≤ n.finishedAt)) with
    | none =>
      rw [latest_eq_none.mp hl] at hqmem
      cases hqmem
    | some p =>
      obtain ⟨hp, hmax⟩ := latest_eq_some hl
      obtain ⟨hp, hple⟩ := List.mem_filter.mp hp
      simp only [decide_eq_true_eq] at hple
      have hnep := hne p hp
      have hpq : p ≠ q := fun he => hlast (by rw [hl, he])
      have hinj := timeKey_inj hids
      have hqp : timeKey q < timeKey p := by
        apply lt_of_le_of_ne (hmax q hqmem)
        intro he
        exact hpq (hinj p (List.mem_append_left _ hp) q (List.mem_append_left _ hq) he.symm)
      have hpn : timeKey p < timeKey n := timeKey_lt.mpr (.inl (by omega))
      rw [coveredTo, next_append_behind hinj hp hqp hpn, coveredTo]
  · rw [coveredTo, next_append_before hqn, coveredTo]

end

section

variable {F : Type} [GoFloat F] [CaseTables] {db db' : DB F} {v : Round F} {serverID : Int}

/-- What the rounds of the schedule cover after one at a new time is saved: only the interval
of the round before it changes. -/
theorem coveredTo_insertRound (hw : WellFormed db) (ht : Timeline serverID db)
    (h : isScheduled serverID v = true) (hne : v.finishedAt ∉ finishTimes serverID db)
    {q : RoundRow F} (hq : q ∈ formal serverID db.rounds ++ [newRound db v])
    (hlast : latest timeKey ((formal serverID db.rounds).filter (·.finishedAt ≤ v.finishedAt)) ≠
      some q) :
    coveredTo (formal serverID db.rounds ++ [newRound db v]) q = q.coveredUntil := by
  have hids := formal_insert_ids hw serverID v
  have hne : ∀ r ∈ formal serverID db.rounds, r.finishedAt ≠ (newRound db v).finishedAt :=
    fun r hr he => hne (List.mem_map.mpr ⟨r, hr, he⟩)
  cases List.mem_append.mp hq with
  | inl hq => rw [coveredTo_append hids hne hq hlast, ← ht q hq]
  | inr hq =>
    have hfin : (newRound db v).finishedAt = v.finishedAt := rfl
    have hnext := nextTime_eq fun r hr => timeKey_lt_of_ne (hne r hr)
    have hle : ((formal serverID db.rounds).map (·.finishedAt)).filter (v.finishedAt ≤ ·) =
        ((formal serverID db.rounds).map (·.finishedAt)).filter (v.finishedAt < ·) := by
      apply List.filter_congr
      intro t ht
      obtain ⟨r, hr, rfl⟩ := List.mem_map.mp ht
      have hner := hne r hr
      rw [hfin] at hner
      rw [decide_eq_decide]
      omega
    rw [hfin] at hnext
    rw [List.mem_singleton.mp hq, newRound_coveredUntil h, hle, hnext, coveredTo,
      next_append_before (lt_irrefl _)]
    cases next timeKey (newRound db v) (formal serverID db.rounds) <;> rfl

theorem timeline_insertRound (hw : WellFormed db) (ht : Timeline serverID db)
    (h : isScheduled serverID v = true) (hne : v.finishedAt ∉ finishTimes serverID db) :
    Timeline serverID (insertRound db v) := by
  have hother := fun q => coveredTo_insertRound hw ht h hne (q := q)
  rw [Timeline, formal_insertRound h]
  cases hp : latest timeKey ((formal serverID db.rounds).filter
      (·.finishedAt ≤ v.finishedAt)) with
  | none =>
    intro q hq
    rw [hother q hq (by rw [hp]; simp)]
  | some p =>
    have hids := formal_insert_ids hw serverID v
    have hpm : p ∈ formal serverID db.rounds := (List.mem_filter.mp (latest_eq_some hp).1).1
    intro q' hq'
    obtain ⟨q, hq, rfl⟩ := mem_update.mp hq'
    by_cases hid : q.id = p.id
    · obtain rfl : q = p :=
        List.inj_on_of_nodup_map hids hq (List.mem_append_left _ hpm) hid
      rw [if_pos (by simp), coveredTo_truncate, coveredTo_last hids _ hp]
      · rfl
      · intro r hr he
        exact hne (List.mem_map.mpr ⟨r, hr, he⟩)
    · rw [if_neg (by simpa using hid)]
      have hc := coveredTo_truncate p.id v.finishedAt
        (formal serverID db.rounds ++ [newRound db v]) q q.coveredUntil
      rw [hc, hother q hq]
      rw [hp]
      intro he
      exact hid (congrArg RoundRow.id (Option.some.inj he)).symm

theorem newRound_mem (h : isScheduled serverID v = true) (db : DB F) :
    newRound db v ∈ formal serverID (insertRound db v).rounds ∧
      coveredTo (formal serverID (insertRound db v).rounds) (newRound db v) =
        coveredTo (formal serverID db.rounds ++ [newRound db v]) (newRound db v) := by
  have hn : newRound db v ∈ formal serverID db.rounds ++ [newRound db v] := by simp
  rw [formal_insertRound h]
  cases hp : latest timeKey ((formal serverID db.rounds).filter
      (·.finishedAt ≤ v.finishedAt)) with
  | none => exact ⟨hn, rfl⟩
  | some p =>
    have hpm := (List.mem_filter.mp (latest_eq_some hp).1).1
    have hlt := newRoundID_fresh (mem_formal.mp hpm).1
    have hid : (newRound db v).id = newRoundID db := rfl
    have hto := coveredTo_truncate p.id v.finishedAt
      (formal serverID db.rounds ++ [newRound db v]) (newRound db v) (newRound db v).coveredUntil
    refine ⟨mem_update.mpr ⟨newRound db v, hn, if_neg ?_⟩, hto⟩
    simp only [hid, decide_eq_true_eq]
    omega

/-- A round at the time of another one covers nothing, although it comes after it. -/
theorem not_timeline_insertRound (h : isScheduled serverID v = true)
    (hv : v.finishedAt < v.nextDue) (hmem : v.finishedAt ∈ finishTimes serverID db) :
    ¬ Timeline serverID (insertRound db v) := by
  intro ht
  obtain ⟨hn, hto⟩ := newRound_mem h db
  have hcov : (newRound db v).coveredUntil = v.finishedAt := by
    have hmin : (((formal serverID db.rounds).map (·.finishedAt)).filter
        (v.finishedAt ≤ ·)).min? = some v.finishedAt := by
      rw [List.min?_eq_some_iff]
      refine ⟨List.mem_filter.mpr ⟨hmem, by simp⟩, ?_⟩
      intro t ht
      simpa using (List.mem_filter.mp ht).2
    rw [newRound_coveredUntil h, hmin]
    exact min_eq_right hv.le
  have hlate : v.finishedAt <
      coveredTo (formal serverID db.rounds ++ [newRound db v]) (newRound db v) := by
    rw [coveredTo, next_append_before (lt_irrefl _)]
    cases hnext : next timeKey (newRound db v) (formal serverID db.rounds) with
    | none => exact hv
    | some r =>
      obtain ⟨hr, hlt, _⟩ := next_eq_some hnext
      have hid := newRoundID_fresh (mem_formal.mp hr).1
      rw [timeKey_lt] at hlt
      have hfin : (newRound db v).finishedAt = v.finishedAt := rfl
      have hnid : (newRound db v).id = newRoundID db := rfl
      apply lt_min hv
      omega
  have he := ht _ hn
  rw [hto, hcov] at he
  omega

theorem timeline_saveRound (hw : WellFormed db) (ht : Timeline serverID db)
    (h : isScheduled serverID v = true) (hs : saveRound db v = .ok db') :
    Timeline serverID db' ↔ v.finishedAt ∉ finishTimes serverID db := by
  obtain ⟨_, _, hv, snapshots, rfl⟩ := saveRound_ok hs
  constructor
  · intro ht' hmem
    exact not_timeline_insertRound h hv hmem ht'
  · exact timeline_insertRound hw ht h

theorem timeline_run (hw : WellFormed db) (ht : Timeline serverID db) {vs : List (Round F)}
    (hs : vs.foldlM saveRound db = .ok db') :
    Runs.OnTheWay saveRound (Timeline serverID) db vs ↔
      (times serverID vs).Nodup ∧ ∀ t ∈ times serverID vs, t ∉ finishTimes serverID db := by
  induction vs generalizing db with
  | nil => simp [Runs.onTheWay_nil, ht, times]
  | cons v vs ih =>
    rw [List.foldlM_cons, bind_eq_ok] at hs
    obtain ⟨db₁, h₁, hs⟩ := hs
    have hw₁ := wellFormed_saveRound hw h₁
    obtain ⟨_, _, _, snapshots, hdb⟩ := saveRound_ok h₁
    rw [Runs.onTheWay_cons h₁]
    cases hv : isScheduled serverID v with
    | false =>
      have hf : formal serverID db₁.rounds = formal serverID db.rounds := by
        rw [hdb]
        exact formal_insertRound_other hw hv
      have hft : finishTimes serverID db₁ = finishTimes serverID db := by
        rw [finishTimes, hf, finishTimes]
      have ht₁ : Timeline serverID db₁ := by
        rw [Timeline, hf]
        exact ht
      rw [ih hw₁ ht₁ hs, hft, times, times, List.filter_cons_of_neg (by simp [hv])]
      exact and_iff_right ht
    | true =>
      have hft : finishTimes serverID db₁ = finishTimes serverID db ++ [v.finishedAt] := by
        rw [hdb]
        exact formal_map_insertRound (fun _ _ => rfl) hv db
      have hcons : times serverID (v :: vs) = v.finishedAt :: times serverID vs := by
        rw [times, List.filter_cons_of_pos hv, List.map_cons, times]
      have hstep := timeline_saveRound hw ht hv h₁
      rw [hcons, List.nodup_cons, List.forall_mem_cons]
      constructor
      · rintro ⟨_, h⟩
        have ht₁ : Timeline serverID db₁ := h [] List.nil_prefix db₁ rfl
        obtain ⟨hnd, hnew⟩ := (ih hw₁ ht₁ hs).mp h
        rw [hft] at hnew
        refine ⟨⟨fun hm => ?_, hnd⟩, hstep.mp ht₁, fun t ht hm => ?_⟩
        · exact hnew _ hm (by simp)
        · exact hnew t ht (by simp [hm])
      · rintro ⟨⟨hv', hnd⟩, hne, hnew⟩
        refine ⟨ht, (ih hw₁ (hstep.mpr hne) hs).mpr ⟨hnd, fun t ht hm => ?_⟩⟩
        rw [hft] at hm
        cases List.mem_append.mp hm with
        | inl hm => exact hnew t ht hm
        | inr hm => exact hv' (List.mem_singleton.mp hm ▸ ht)

end

section

variable {F : Type} {db : DB F} {serverID since now : Int}

def totalCovered (serverID since now : Int) (db : DB F) : Int :=
  ((formal serverID db.rounds).map (overlap since now)).sum

/-- Under the timeline no interval reaches over the finish of a later round. -/
theorem Timeline.spaced (ht : Timeline serverID db) : Spaced (formal serverID db.rounds) := by
  intro q hq r hr hlt
  rw [ht q hq, coveredTo]
  cases h : next timeKey q (formal serverID db.rounds) with
  | none => exact absurd hlt (next_eq_none.mp h r hr)
  | some t =>
    have htr := timeKey_le.mp ((next_eq_some h).2.2 r hr hlt)
    have hmin : min q.nextDue t.finishedAt ≤ t.finishedAt := min_le_right _ _
    dsimp only
    omega

theorem coveredMS_eq (hw : WellFormed db) (ht : Timeline serverID db) (since now : Int) :
    coveredMS db serverID since now = totalCovered serverID since now db := by
  have hbefore : ((crossingRound db serverID since).map (overlap since now)).sum =
      (((formal serverID db.rounds).filter (·.finishedAt < since)).map (overlap since now)).sum := by
    rw [crossingRound_eq hw ht.spaced]
    apply sum_filter
    intro r _ hr
    exact common_zero (.inl (by simpa using hr))
  have hwindow : ((windowRounds db serverID since now).map (overlap since now)).sum =
      (((formal serverID db.rounds).filter fun r => !decide (r.finishedAt < since)).map
        (overlap since now)).sum := by
    have hpast : windowRounds db serverID since now =
        ((formal serverID db.rounds).filter fun r => !decide (r.finishedAt < since)).filter
          (·.finishedAt ≤ now) := by
      rw [windowRounds, List.filter_filter]
      apply List.filter_congr
      intro r _
      rw [Bool.and_comm, ← decide_not]
      simp only [not_lt]
    rw [hpast]
    apply sum_filter
    intro r _ hr
    exact common_zero (.inr (not_le.mp (of_decide_eq_false hr)).le)
  rw [coveredMS, eligible, List.map_append, List.sum_append, hbefore, hwindow, totalCovered,
    sum_partition _ (·.finishedAt < since) (formal serverID db.rounds), add_comm]

def slots (serverID : Int) (db : DB F) : List (Int × Int) :=
  (formal serverID db.rounds).map fun q => (q.finishedAt, q.nextDue)

def slotEnd (slots : List (Int × Int)) (slot : Int × Int) : Int :=
  match ((slots.map (·.1)).filter (slot.1 < ·)).min? with
  | some t => min slot.2 t
  | none => slot.2

def slotOverlap (since now : Int) (slots : List (Int × Int)) (slot : Int × Int) : Int :=
  max 0 (min (slotEnd slots slot) now - max slot.1 since)

theorem totalCovered_eq (ht : Timeline serverID db) (hd : (finishTimes serverID db).Nodup) :
    totalCovered serverID since now db =
      ((slots serverID db).map (slotOverlap since now (slots serverID db))).sum := by
  rw [totalCovered, slots, List.map_map]
  congr 1
  apply List.map_congr_left
  intro q hq
  have hnext : ((slots serverID db).map (·.1)).filter (q.finishedAt < ·) =
      ((formal serverID db.rounds).map (·.finishedAt)).filter (q.finishedAt < ·) := by
    rw [slots, List.map_map]
    rfl
  have hlt : ∀ r ∈ formal serverID db.rounds,
      timeKey q < timeKey r ↔ q.finishedAt < r.finishedAt := by
    intro r hr
    by_cases he : r.finishedAt = q.finishedAt
    · rw [List.inj_on_of_nodup_map hd hr hq he]
      simp
    · exact timeKey_lt_of_ne he
  have hcov : q.coveredUntil = slotEnd (slots serverID db) (q.finishedAt, q.nextDue) := by
    rw [ht q hq, coveredTo, slotEnd, hnext, nextTime_eq hlt]
    cases next timeKey q (formal serverID db.rounds) <;> rfl
  rw [overlap, hcov]
  rfl

theorem slotOverlap_perm {l m : List (Int × Int)} (h : l.Perm m) :
    (l.map (slotOverlap since now l)).sum = (m.map (slotOverlap since now m)).sum := by
  have hend : ∀ slot, slotEnd l slot = slotEnd m slot := by
    intro slot
    rw [slotEnd, min_of_perm ((h.map (·.1)).filter (slot.1 < ·)), slotEnd]
  have hfun : slotOverlap since now l = slotOverlap since now m := by
    funext slot
    rw [slotOverlap, hend, slotOverlap]
  rw [hfun]
  exact (h.map _).sum_eq

end

section

variable {F : Type} [GoFloat F] [CaseTables] {db db' : DB F} {serverID : Int}

def roundSlots (serverID : Int) (vs : List (Round F)) : List (Int × Int) :=
  (vs.filter (isScheduled serverID)).map fun v => (v.finishedAt, v.nextDue)

theorem slots_run (hw : WellFormed db) {vs : List (Round F)} (hs : vs.foldlM saveRound db = .ok db') :
    slots serverID db' = slots serverID db ++ roundSlots serverID vs := by
  induction vs generalizing db with
  | nil =>
    rw [List.foldlM_nil, pure_eq_ok] at hs
    simp [hs, roundSlots]
  | cons v vs ih =>
    rw [List.foldlM_cons, bind_eq_ok] at hs
    obtain ⟨db₁, h₁, hs⟩ := hs
    rw [ih (wellFormed_saveRound hw h₁) hs]
    obtain ⟨_, _, _, snapshots, rfl⟩ := saveRound_ok h₁
    cases hv : isScheduled serverID v with
    | false =>
      rw [slots, formal_insertRound_other hw hv, slots, roundSlots, roundSlots,
        List.filter_cons_of_neg (by simp [hv])]
    | true =>
      rw [slots, formal_map_insertRound (fun _ _ => by rfl) hv, slots, roundSlots, roundSlots,
        List.filter_cons_of_pos hv, List.map_cons, List.append_assoc]
      rfl

theorem onTheWay_iff (hw : WellFormed db) (hnone : formal serverID db.rounds = [])
    {vs : List (Round F)} (hs : vs.foldlM saveRound db = .ok db') :
    Runs.OnTheWay saveRound (Timeline serverID) db vs ↔ (times serverID vs).Nodup := by
  have ht : Timeline serverID db := by
    rw [Timeline, hnone]
    simp
  rw [timeline_run hw ht hs, finishTimes, hnone]
  simp

/-- Saves at distinct times end in a timeline over the times they were given. -/
theorem saves_at_distinct_times (hw : WellFormed db) (hnone : formal serverID db.rounds = [])
    {vs : List (Round F)} (hs : vs.foldlM saveRound db = .ok db')
    (hd : (times serverID vs).Nodup) : WellFormed db' ∧ Timeline serverID db' ∧
      slots serverID db' = roundSlots serverID vs ∧ (finishTimes serverID db').Nodup := by
  have hslots : slots serverID db' = roundSlots serverID vs := by
    rw [slots_run hw hs, slots, hnone]
    rfl
  have hw' : WellFormed db' :=
    foldlM_invariant (fun _ _ _ h hv => wellFormed_saveRound h hv) hw hs
  have hfin : finishTimes serverID db' = times serverID vs := by
    have hmap := congrArg (List.map Prod.fst) hslots
    simpa [slots, roundSlots, finishTimes, times, Function.comp_def] using hmap
  exact ⟨hw', (onTheWay_iff hw hnone hs).mpr hd vs List.prefix_rfl db' hs, hslots, hfin ▸ hd⟩

/-- From a state without a schedule, each scheduled round covers the time up to the next one in
every state that saving rounds leads through, exactly when no two of them have the same finish
time. The time that is covered in any window is then the same for every order of the saves, also
as the evaluation of a server computes it. -/
theorem coverage_of_saves (hdb : Reachable db) (hnone : formal serverID db.rounds = [])
    {vs : List (Round F)} (hs : vs.foldlM saveRound db = .ok db') :
    (Runs.OnTheWay saveRound (Timeline serverID) db vs ↔ (times serverID vs).Nodup) ∧
    ((times serverID vs).Nodup → ∀ (ws : List (Round F)) db₁, ws.Perm vs →
      ws.foldlM saveRound db = .ok db₁ → ∀ since now,
        totalCovered serverID since now db₁ = totalCovered serverID since now db' ∧
        coveredMS db₁ serverID since now = coveredMS db' serverID since now) := by
  have hw := wellFormed_reachable hdb
  refine ⟨onTheWay_iff hw hnone hs, ?_⟩
  intro hd ws db₁ hp hs₁ since now
  have hd₁ : (times serverID ws).Nodup := ((hp.filter _).map _).nodup_iff.mpr hd
  obtain ⟨hw₁, ht₁, hsl₁, hf₁⟩ := saves_at_distinct_times hw hnone hs₁ hd₁
  obtain ⟨hw', ht', hsl', hf'⟩ := saves_at_distinct_times hw hnone hs hd
  have htotal : totalCovered serverID since now db₁ = totalCovered serverID since now db' := by
    rw [totalCovered_eq ht₁ hf₁, totalCovered_eq ht' hf', hsl₁, hsl']
    exact slotOverlap_perm ((hp.filter _).map _)
  exact ⟨htotal, by rw [coveredMS_eq hw₁ ht₁, coveredMS_eq hw' ht', htotal]⟩

end

section

local instance : CaseTables := asciiTables

def idleServer : DB ℚ := Runs.run step (openStore emptyLegacy) [.saveServer 900 exampleServer]

/-- Two rounds that finish in the same millisecond, and a later one. -/
def tiedRounds : List (Round ℚ) := [exampleRound 1000 [], exampleRound 1000 [], exampleRound 2000 []]

/-- The second of two rounds at one time covers nothing, and when the later round is saved
between them, neither of them does. -/
theorem tied_rounds : ∃ db₁ db₂, tiedRounds.foldlM saveRound idleServer = .ok db₁ ∧
    [exampleRound 1000 [], exampleRound 2000 [], exampleRound 1000 []].foldlM saveRound idleServer =
      .ok db₂ ∧
    ¬ Timeline 1 db₂ ∧ totalCovered 1 0 2000 db₁ = 1000 ∧ totalCovered 1 0 2000 db₂ = 0 := by
  have h₁ : (tiedRounds.foldlM saveRound idleServer).map (totalCovered 1 0 2000) = .ok 1000 := by
    decide +kernel
  have h₂ : ([exampleRound 1000 [], exampleRound 2000 [], exampleRound 1000 []].foldlM saveRound
      idleServer).map (fun db => (decide (Timeline 1 db), totalCovered 1 0 2000 db)) =
      .ok (false, 0) := by decide +kernel
  obtain ⟨db₁, hs₁, ht₁⟩ := map_eq_ok.mp h₁
  obtain ⟨db₂, hs₂, ht₂⟩ := map_eq_ok.mp h₂
  obtain ⟨htl, ht₂⟩ := Prod.mk.inj ht₂
  exact ⟨db₁, db₂, hs₁, hs₂, of_decide_eq_false htl, ht₁, ht₂⟩

theorem coverage_of_three_saves : ∃ db, [exampleRound 3000 [], exampleRound 1000 [],
      exampleRound 2000 []].foldlM saveRound idleServer = .ok db ∧
    Runs.OnTheWay saveRound (Timeline 1) idleServer
      [exampleRound 3000 [], exampleRound 1000 [], exampleRound 2000 []] := by
  have h : ([exampleRound 3000 [], exampleRound 1000 [], exampleRound 2000 []].foldlM saveRound
      idleServer).map (fun db => db.rounds.length) = .ok 3 := by decide +kernel
  obtain ⟨db, hs, _⟩ := map_eq_ok.mp h
  have hdb : Reachable idleServer := ⟨emptyLegacy, [.saveServer 900 exampleServer], rfl⟩
  have hnone : formal 1 idleServer.rounds = [] := by decide +kernel
  exact ⟨db, hs, (coverage_of_saves hdb hnone hs).1.mpr
    (by decide +kernel)⟩

end

end DnsMonitor.Store.Coverage

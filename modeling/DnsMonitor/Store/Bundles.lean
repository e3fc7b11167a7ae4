import DnsMonitor.Store.Owners
import DnsMonitor.Store.Retention
import DnsMonitor.Store.View

namespace DnsMonitor.Store.Bundles

open DnsMonitor.Model DnsMonitor.Lib DnsMonitor.Lib.Tables DnsMonitor.Store.Schema
open DnsMonitor.Store.Current DnsMonitor.Store.Rounds DnsMonitor.Store.Override
open DnsMonitor.Store.Cleanup DnsMonitor.Store.Servers DnsMonitor.Store.Migration
open DnsMonitor.Store.Run DnsMonitor.Store.WellFormed DnsMonitor.Store.Retained
open DnsMonitor.Store.Partial DnsMonitor.Store.Retention DnsMonitor.Store.Schedule
open DnsMonitor.Store.View DnsMonitor.Store.Owners
open DnsMonitor.Go.Strings DnsMonitor.Go.Unicode DnsMonitor.Go.Errors DnsMonitor.Go.Float

section

variable {F : Type}

def bareRow (r : ResultRow F) : ResultRow F := { r with id := 0, roundID := 0 }

def resultsOf (db : DB F) (id : Int) : List (ResultRow F) :=
  (db.results.filter (·.roundID = id)).map bareRow

def bucketsOf (db : DB F) (id : Int) : List (Int × Nat) :=
  (db.latencyBuckets.filter (·.roundID = id)).map bucketKey

structure Bundle (F : Type) where
  round : RoundRow F
  results : List (ResultRow F)
  buckets : List (Int × Nat)

def bundle (db : DB F) (q : RoundRow F) : Bundle F := ⟨q, resultsOf db q.id, bucketsOf db q.id⟩

def bundles (db : DB F) : List (Bundle F) := (scheduled db.rounds).map (bundle db)

variable {db db' : DB F}

/-- Every bundle changes by itself, and some of them go. -/
theorem bundles_filterMap {g : RoundRow F → Option (RoundRow F)} {h : Bundle F → Option (Bundle F)}
    (hrounds : scheduled db'.rounds = (scheduled db.rounds).filterMap g)
    (hbundle : ∀ q ∈ scheduled db.rounds, (g q).map (bundle db') = h (bundle db q)) :
    bundles db' = (bundles db).filterMap h := by
  rw [bundles, hrounds, bundles, List.filterMap_map, List.map_filterMap]
  exact List.filterMap_congr hbundle

theorem bundles_map {g : RoundRow F → RoundRow F} {h : Bundle F → Bundle F}
    (hrounds : scheduled db'.rounds = (scheduled db.rounds).map g)
    (hbundle : ∀ q ∈ scheduled db.rounds, bundle db' (g q) = h (bundle db q)) :
    bundles db' = (bundles db).map h := by
  rw [bundles, hrounds, bundles, List.map_map, List.map_map]
  exact List.map_congr_left hbundle

theorem bundles_filter {p : RoundRow F → Bool}
    (hrounds : scheduled db'.rounds = (scheduled db.rounds).filter p)
    (hbundle : ∀ q ∈ scheduled db.rounds, p q = true → bundle db' q = bundle db q) :
    bundles db' = (bundles db).filter fun x => p x.round := by
  rw [bundles, hrounds, bundles, List.filter_map]
  apply List.map_congr_left
  intro q hq
  obtain ⟨hq, hp⟩ := List.mem_filter.mp hq
  exact hbundle q hq hp

/-- With unique ids, the rows of a round go exactly if it goes. -/
theorem isGone_eq (hw : WellFormed db) {p : RoundRow F → Bool} {q : RoundRow F}
    (hq : q ∈ db.rounds) : (db.rounds.any fun r => p r && r.id = q.id) = p q := by
  rw [Bool.eq_iff_iff, List.any_eq_true]
  simp only [Bool.and_eq_true, decide_eq_true_eq]
  constructor
  · rintro ⟨r, hr, hp, hid⟩
    rwa [List.inj_on_of_nodup_map hw.round_ids hr hq hid] at hp
  · exact fun hp => ⟨q, hq, hp, rfl⟩

theorem scheduled_delete (p : RoundRow F → Bool) (rows : List (RoundRow F)) :
    scheduled (delete p rows) = (scheduled rows).filter (!p ·) := by
  rw [scheduled, delete, scheduled, List.filter_filter, List.filter_filter]
  apply List.filter_congr
  intro q _
  exact Bool.and_comm _ _

theorem bundles_deleteRounds (hw : WellFormed db) (p : RoundRow F → Bool) :
    bundles (deleteRounds p db) = (bundles db).filter fun x => !p x.round := by
  apply bundles_filter (p := fun q => !p q) (scheduled_delete p db.rounds)
  intro q hq hp
  have hgone := isGone_eq (p := p) hw (mem_scheduled.mp hq).1
  rw [Bool.not_eq_true'] at hp
  rw [hp] at hgone
  have hresults : (deleteRounds p db).results.filter (·.roundID = q.id) =
      db.results.filter (·.roundID = q.id) := by
    apply filter_delete
    intro r _ hr
    rw [of_decide_eq_true hr]
    exact hgone
  have hbuckets : (deleteRounds p db).latencyBuckets.filter (·.roundID = q.id) =
      db.latencyBuckets.filter (·.roundID = q.id) := by
    apply filter_delete
    intro b _ hb
    rw [of_decide_eq_true hb]
    exact hgone
  rw [bundle, resultsOf, bucketsOf, hresults, hbuckets]
  rfl

theorem bundles_deleteServerRows (hw : WellFormed db) (id : Int) :
    bundles (deleteServerRows id db) = (bundles db).filter fun x => !decide (x.round.serverID = id) := by
  have hw' := wellFormed_deleteRounds hw fun r => r.serverID = id
  rw [← bundles_deleteRounds hw fun r => r.serverID = id]
  have hrounds : scheduled (deleteServerRows id db).rounds =
      (scheduled (deleteRounds (fun r => r.serverID = id) db).rounds).map fun q => q :=
    (List.map_id _).symm
  rw [bundles_map (h := fun x => x) hrounds]
  · exact List.map_id _
  · intro q hq
    have hq := (mem_scheduled.mp hq).1
    have hserver : q.serverID ≠ id := by
      have hleft := (mem_delete.mp hq).2
      exact of_decide_eq_false hleft
    have hresults : (deleteServerRows id db).results.filter (·.roundID = q.id) =
        (deleteRounds (fun r => r.serverID = id) db).results.filter (·.roundID = q.id) := by
      apply filter_delete
      intro r hr hrid
      -- a result carries the server of its round
      rw [owner_of_result hw' hq hr (of_decide_eq_true hrid)]
      exact decide_eq_false hserver
    rw [bundle, resultsOf, hresults]
    rfl

theorem resultsOf_update (rows : List (ResultRow F)) (p : ResultRow F → Bool)
    {g : ResultRow F → ResultRow F} (hp : ∀ r, p (bareRow r) = p r)
    (hg : ∀ r, bareRow (g r) = g (bareRow r)) (hid : ∀ r, (g r).roundID = r.roundID) (id : Int) :
    ((update p g rows).filter (·.roundID = id)).map bareRow =
      update p g ((rows.filter (·.roundID = id)).map bareRow) := by
  rw [filter_update (f := g) fun r => by rw [hid]]
  rw [update, update, List.map_map, List.map_map]
  apply List.map_congr_left
  intro r _
  simp only [Function.comp_apply, hp]
  split_ifs
  · exact hg r
  · rfl

def Bundle.prune (before : Int) (x : Bundle F) : Bundle F :=
  { x with results := update (isOld before) (prunedResult before) x.results }

theorem bundles_prune (before : Int) (db : DB F) :
    bundles { pruneObservations before db with
        results := update (isOld before) (prunedResult before) db.results } =
      (bundles db).map (Bundle.prune before) := by
  have hrounds : scheduled { pruneObservations before db with
      results := update (isOld before) (prunedResult before) db.results }.rounds =
        (scheduled db.rounds).map fun q => q := (List.map_id _).symm
  apply bundles_map hrounds
  intro q _
  have hbare : ∀ r : ResultRow F, bareRow (prunedResult before r) =
      prunedResult before (bareRow r) := fun _ => rfl
  have hresults := resultsOf_update db.results (isOld before) (fun _ => rfl) hbare
    (fun _ => rfl) q.id
  rw [bundle, resultsOf, hresults]
  rfl

def Bundle.override (v : Override) (x : Bundle F) : Bundle F :=
  let results := update (isOf v.serverID v.domain v.type)
    (fun r => { r with effectivePollution := overriddenCode v.verdict r }) x.results
  { x with
    results
    round := if results.any (isOf v.serverID v.domain v.type) then
        { x.round with pollution := maxOf (·.effectivePollution) results }
      else x.round }

theorem bundles_putOverride (db : DB F) (v : Override) :
    bundles (putOverride db v) = (bundles db).map (Bundle.override v) := by
  have hrounds : scheduled (putOverride db v).rounds =
      update (fun q => (putOverride db v).results.any fun r =>
          isOf v.serverID v.domain v.type r && r.roundID = q.id)
        (fun q => { q with pollution := worstEffective (putOverride db v).results q.id })
        (scheduled db.rounds) := by
    apply filter_update
    intro q
    rfl
  apply bundles_map hrounds
  intro q _
  have hresults : resultsOf (putOverride db v) q.id = update (isOf v.serverID v.domain v.type)
      (fun r => { r with effectivePollution := overriddenCode v.verdict r }) (resultsOf db q.id) :=
    resultsOf_update db.results (isOf v.serverID v.domain v.type)
      (g := fun r => { r with effectivePollution := overriddenCode v.verdict r })
      (fun _ => rfl) (fun _ => rfl) (fun _ => rfl) q.id
  have hany : ((putOverride db v).results.any fun r =>
      isOf v.serverID v.domain v.type r && r.roundID = q.id) =
        (resultsOf (putOverride db v) q.id).any (isOf v.serverID v.domain v.type) := by
    rw [resultsOf, List.any_map, List.any_filter]
    congr 1
    funext r
    exact Bool.and_comm _ _
  have hworst : worstEffective (putOverride db v).results q.id =
      maxOf (·.effectivePollution) (resultsOf (putOverride db v) q.id) := by
    rw [resultsOf, maxOf_map]
    rfl
  simp only [hany, hworst, Bundle.override, bundle, ← hresults]
  split_ifs <;> rfl

end

section

variable {F : Type} [GoFloat F] [CaseTables] {db : DB F}

theorem bundle_insertRound (v : Round F) {q q' : RoundRow F}
    (hq : q ∈ db.rounds) (hid : q'.id = q.id) :
    bundle (insertRound db v) q' = { bundle db q with round := q' } := by
  have hlt := newRoundID_fresh hq
  have hresults : (insertRound db v).results.filter (·.roundID = q'.id) =
      db.results.filter (·.roundID = q.id) := by
    rw [results_insertRound_other v (by omega), hid]
  have hbuckets : (insertRound db v).latencyBuckets.filter (·.roundID = q'.id) =
      db.latencyBuckets.filter (·.roundID = q.id) := by
    rw [buckets_insertRound_other v (by omega), hid]
  rw [bundle, resultsOf, bucketsOf, hresults, hbuckets]
  rfl

theorem scheduled_auxiliary {v : Round F} (hv : v.auxiliary = true) (db : DB F) :
    scheduled (insertRound db v).rounds = scheduled db.rounds := by
  have hnew : scheduled [newRound db v] = [] := by
    simp [scheduled, newRound, roundRow, hv]
  simp only [insertRound, if_pos hv]
  rw [scheduled_append, hnew, List.append_nil]

theorem bundles_auxiliary {v : Round F} (hv : v.auxiliary = true) (db : DB F) :
    bundles (insertRound db v) = bundles db := by
  have hrounds : scheduled (insertRound db v).rounds = (scheduled db.rounds).map fun q => q := by
    rw [List.map_id', scheduled_auxiliary hv]
  rw [bundles_map (h := fun x => x) hrounds, List.map_id']
  intro q hq
  exact bundle_insertRound v (mem_scheduled.mp hq).1 rfl

/-- The interval of the last of some rounds ends at a finish time. -/
def cutOff (v : Round F) (rows : List (RoundRow F)) : List (RoundRow F) :=
  match latest timeKey (rows.filter fun q => q.serverID = v.serverID && q.finishedAt ≤ v.finishedAt) with
  | some p => truncate p.id v.finishedAt rows
  | none => rows

omit [GoFloat F] [CaseTables] in
theorem scheduled_truncate (id finishedAt : Int) (rows : List (RoundRow F)) :
    scheduled (truncate id finishedAt rows) = truncate id finishedAt (scheduled rows) := by
  apply filter_update
  intro q
  rfl

theorem scheduled_insertRound {v : Round F} (hv : v.auxiliary = false) (db : DB F) :
    scheduled (insertRound db v).rounds = cutOff v (scheduled db.rounds) ++ [newRound db v] := by
  have hnew : scheduled [newRound db v] = [newRound db v] := by
    simp [scheduled, newRound, roundRow, hv]
  have hlatest := predecessor_eq (show isScheduled v.serverID v = true by simp [isScheduled, hv]) db
  rw [formal_scheduled, List.filter_filter] at hlatest
  have hsame : ((scheduled db.rounds).filter fun q =>
      decide (q.finishedAt ≤ v.finishedAt) && decide (q.serverID = v.serverID)) =
      (scheduled db.rounds).filter fun q =>
        q.serverID = v.serverID && q.finishedAt ≤ v.finishedAt := by
    apply List.filter_congr
    intro q _
    exact Bool.and_comm _ _
  rw [hsame] at hlatest
  simp only [insertRound, hv, Bool.false_eq_true, if_false, truncatePredecessor, hlatest, cutOff]
  cases hp : latest timeKey ((scheduled db.rounds).filter fun q =>
      q.serverID = v.serverID && q.finishedAt ≤ v.finishedAt) with
  | none => rw [scheduled_append, hnew]
  | some p =>
    change scheduled (truncate p.id v.finishedAt (db.rounds ++ [newRound db v])) = _
    have hpm := (mem_scheduled.mp (List.mem_filter.mp (latest_eq_some hp).1).1).1
    have hlt := newRoundID_fresh hpm
    have hother : truncate p.id v.finishedAt [newRound db v] = [newRound db v] := by
      apply update_of_none
      intro q hq
      rw [List.mem_singleton.mp hq]
      apply decide_eq_false
      change newRoundID db ≠ p.id
      omega
    rw [scheduled_truncate, scheduled_append, hnew]
    change update _ _ (_ ++ _) = _
    rw [update, List.map_append]
    exact congrArg _ hother

omit [GoFloat F] in
theorem bare_resultRows (overrides : List Override) (roundID roundID' seq seq' : Int)
    (v : Round F) (rs : List (ProbeResult F)) :
    (resultRows overrides roundID v seq rs).map bareRow =
      (resultRows overrides roundID' v seq' rs).map bareRow := by
  induction rs generalizing seq seq' with
  | nil => rfl
  | cons r rs ih =>
    rw [resultRows, resultRows, List.map_cons, List.map_cons, ih (seq + 1) (seq' + 1)]
    rfl

omit [CaseTables] in
theorem buckets_keys (id id' : Int) (rs : List (ProbeResult F)) :
    (buckets id rs).map bucketKey = (buckets id' rs).map bucketKey := by
  simp only [buckets, List.map_map]
  rfl

theorem bundle_newRound (hw : WellFormed db) (ho : Origins db) (v : Round F) :
    bundle (insertRound db v) (newRound db v) =
      ⟨newRound db v, (resultRows db.overrides 0 v 0 v.results).map bareRow,
        (buckets 0 (timed v.results)).map bucketKey⟩ := by
  have hresults : (insertRound db v).results.filter (·.roundID = (newRound db v).id) =
      newResults db v := results_insertRound_new hw v
  have hbuckets : (insertRound db v).latencyBuckets.filter (·.roundID = (newRound db v).id) =
      buckets (newRoundID db) (timed v.results) := by
    apply buckets_insertRound_new
    intro b hb
    obtain ⟨q, hq, hid⟩ := ho.bucket b hb
    have hlt := newRoundID_fresh hq
    omega
  rw [bundle, resultsOf, bucketsOf, hresults, hbuckets, newResults,
    bare_resultRows _ _ 0 _ 0, buckets_keys _ 0]

end

section

variable {F : Type} [GoFloat F] {before : Int} {db settled : DB F}

def Bundle.left (before : Int) (x : Bundle F) : List (ResultRow F) :=
  x.results.filter fun r => !decide (r.timestamp < before)

def Bundle.hasExpired (before : Int) (x : Bundle F) : Bool :=
  x.results.any fun r => r.timestamp < before

def Bundle.settle (before : Int) (x : Bundle F) : Option (Bundle F) :=
  let left := x.left before
  let raw := left.filterMap (·.rawJSON)
  if x.hasExpired before then
    if left = [] then none
    else some ⟨recountedRound left raw x.round, left, (Rounds.buckets 0 (timedRaw raw)).map bucketKey⟩
  else some x

omit [GoFloat F] in
theorem bundle_hasExpired (db : DB F) (q : RoundRow F) :
    (bundle db q).hasExpired before = hasExpired before db q.id := by
  rw [Bundle.hasExpired, hasExpired, bundle, resultsOf, List.any_map, List.any_filter]
  rfl

omit [GoFloat F] in
theorem bundle_left (db : DB F) (q : RoundRow F) :
    (bundle db q).left before = (left before db q.id).map bareRow := by
  rw [Bundle.left, left, bundle, resultsOf, List.filter_map, List.filter_filter]
  congr 1
  apply List.filter_congr
  intro r _
  exact Bool.and_comm _ _

theorem bundle_settle (db : DB F) (q : RoundRow F) : (bundle db q).settle before =
    (settledRound before db q).map fun q' =>
      ⟨q', if hasExpired before db q.id then (left before db q.id).map bareRow
        else resultsOf db q.id, (settledBuckets before db q.id).map bucketKey⟩ := by
  have hraw : ((left before db q.id).map bareRow).filterMap (·.rawJSON) = leftRaw before db q.id := by
    rw [leftRaw, List.filterMap_map]
    rfl
  have hcount : recountedRound ((left before db q.id).map bareRow) (leftRaw before db q.id) q =
      recountedRound (left before db q.id) (leftRaw before db q.id) q := by
    rw [recountedRound, recountedRound, List.length_map, maxOf_map]
    rfl
  simp only [Bundle.settle, bundle_hasExpired, bundle_left, hraw, settledRound, settledBuckets,
    List.map_eq_nil_iff]
  split_ifs
  · rfl
  · rw [Option.map_some, ← hcount, buckets_keys q.id 0]
    rfl
  · rfl

omit [GoFloat F] in
theorem left_of_none {id : Int} (h : hasExpired before db id = false) :
    left before db id = db.results.filter (·.roundID = id) := by
  rw [left]
  apply List.filter_congr
  intro r hr
  rw [hasExpired, List.any_eq_false] at h
  have hnot := h r hr
  by_cases hid : r.roundID = id <;> simp_all

/-- With no result expired any more, every bundle has settled. -/
theorem bundles_settled (h : Settled before db settled) :
    bundles settled = (bundles db).filterMap (Bundle.settle before) := by
  have hkept : ∀ q q', settledRound before db q = some q' →
      q'.id = q.id ∧ q'.auxiliary = q.auxiliary := by
    intro q q' hq
    rw [settledRound] at hq
    split_ifs at hq
    · obtain rfl := Option.some.inj hq
      exact ⟨rfl, rfl⟩
    · obtain rfl := Option.some.inj hq
      exact ⟨rfl, rfl⟩
  have hrounds : scheduled settled.rounds =
      (scheduled db.rounds).filterMap (settledRound before db) := by
    rw [h.rounds, scheduled, scheduled, List.filter_filterMap, List.filterMap_filter]
    apply List.filterMap_congr
    intro q _
    cases hq : settledRound before db q with
    | none => simp
    | some q' => simp [Option.filter, (hkept q q' hq).2]
  apply bundles_filterMap hrounds
  intro q _
  rw [bundle_settle]
  cases hq : settledRound before db q with
  | none => rfl
  | some q' =>
    have hid := (hkept q q' hq).1
    have hresults : settled.results.filter (·.roundID = q'.id) = left before db q.id := by
      rw [h.results, hid, delete, List.filter_filter, left]
    rw [Option.map_some, Option.map_some, bundle, resultsOf, hresults, bucketsOf, hid, h.buckets]
    split_ifs with hexpired
    · rfl
    · rw [left_of_none (Bool.eq_false_iff.mpr hexpired), resultsOf]

end

end DnsMonitor.Store.Bundles

import DnsMonitor.Store.Verdicts

namespace DnsMonitor.Store.Aggregates

open DnsMonitor.Model DnsMonitor.Lib DnsMonitor.Lib.Tables DnsMonitor.Store.Schema
open DnsMonitor.Store.Rounds DnsMonitor.Store.Override DnsMonitor.Store.Cleanup
open DnsMonitor.Store.Servers DnsMonitor.Store.Migration DnsMonitor.Store.Run
open DnsMonitor.Store.WellFormed DnsMonitor.Store.Verdicts
open DnsMonitor.Go.Strings DnsMonitor.Go.Unicode DnsMonitor.Go.Errors DnsMonitor.Go.Float

structure RoundCounts (F : Type) where
  samples : Nat
  received : Nat
  successes : Nat
  latencyCount : Nat
  latencySum : F

structure Measure (F : Type) where
  received : Bool
  success : Bool
  latencyMS : F

section

variable {F : Type}

def roundCounts (q : RoundRow F) : RoundCounts F :=
  ⟨q.samples, q.received, q.successes, q.latencyCount, q.latencySum⟩

def countKey (q : RoundRow F) : Int × RoundCounts F := (q.id, roundCounts q)

def measure (r : ProbeResult F) : Measure F := ⟨r.received, r.success, r.latencyMS⟩

def measureKey (r : ResultRow F) : Int × Option (Measure F) := (r.roundID, r.rawJSON.map measure)

def measures (db : DB F) (id : Int) : List (Option (Measure F)) :=
  ((db.results.map measureKey).filter (·.1 = id)).map (·.2)

def storedBuckets (db : DB F) (id : Int) : List BucketRow := db.latencyBuckets.filter (·.roundID = id)

variable [GoFloat F]

def countResults (raw : List (ProbeResult F)) : RoundCounts F where
  samples := raw.length
  received := received raw
  successes := successes raw
  latencyCount := (timedRaw raw).length
  latencySum := latencySum (timedRaw raw)

/-- Some results say what is stored of a round, and the counts are theirs. -/
def Counted (db : DB F) (id : Int) (c : RoundCounts F) : Prop :=
  ∃ raw : List (ProbeResult F), measures db id = raw.map (fun r => some (measure r)) ∧
    c = countResults raw ∧ storedBuckets db id = buckets id (timedRaw raw)

structure Aggregated (db : DB F) : Prop where
  bucket_round : ∀ b ∈ db.latencyBuckets, b.roundID ∈ db.rounds.map (·.id)
  counts : ∀ p ∈ db.rounds.map countKey, Counted db p.1 p.2

theorem timedRaw_latencies {raw raw' : List (ProbeResult F)}
    (h : raw.map measure = raw'.map measure) :
    (timedRaw raw).map (·.latencyMS) = (timedRaw raw').map (·.latencyMS) := by
  have hkey : ∀ rs : List (ProbeResult F), (timedRaw rs).map (·.latencyMS) =
      (((rs.map measure).filter fun m => m.success && ofInt 0 ≤ m.latencyMS).map (·.latencyMS)) := by
    intro rs
    rw [List.filter_map, List.map_map]
    rfl
  rw [hkey, hkey, h]

theorem latencySum_eq (rs : List (ProbeResult F)) :
    latencySum rs = (rs.map (·.latencyMS)).foldl (fun sum x => sum + x) (ofInt 0) := by
  rw [latencySum, List.foldl_map]

theorem buckets_eq (id : Int) (rs : List (ProbeResult F)) : buckets id rs =
    ((rs.map (·.latencyMS)).map bucketOf).dedup.map fun k =>
      ⟨id, k, ((rs.map (·.latencyMS)).map bucketOf).count k⟩ := by
  rw [List.map_map]
  rfl

theorem countResults_congr {raw raw' : List (ProbeResult F)}
    (h : raw.map measure = raw'.map measure) : countResults raw = countResults raw' := by
  have hlength : raw.length = raw'.length := by simpa using congrArg List.length h
  have hreceived : received raw = received raw' := by
    have hkey : ∀ rs : List (ProbeResult F), received rs =
        ((rs.map measure).filter (·.received)).length := by
      intro rs
      rw [List.filter_map, List.length_map]
      rfl
    rw [hkey, hkey, h]
  have hsuccesses : successes raw = successes raw' := by
    have hkey : ∀ rs : List (ProbeResult F), successes rs =
        ((rs.map measure).filter (·.success)).length := by
      intro rs
      rw [List.filter_map, List.length_map]
      rfl
    rw [hkey, hkey, h]
  have htimed := timedRaw_latencies h
  have hcount : (timedRaw raw).length = (timedRaw raw').length := by
    simpa using congrArg List.length htimed
  rw [countResults, countResults, hlength, hreceived, hsuccesses, hcount, latencySum_eq,
    latencySum_eq, htimed]

theorem buckets_congr {raw raw' : List (ProbeResult F)} (h : raw.map measure = raw'.map measure)
    (id : Int) : buckets id (timedRaw raw) = buckets id (timedRaw raw') := by
  rw [buckets_eq, buckets_eq, timedRaw_latencies h]

theorem sum_buckets (id : Int) (rs : List (ProbeResult F)) :
    ((buckets id rs).map (·.count)).sum = rs.length := by
  rw [buckets, List.map_map]
  have h := List.sum_map_count_dedup_eq_length (rs.map fun r => bucketOf r.latencyMS)
  rw [List.length_map] at h
  exact h

omit [GoFloat F] in
theorem measures_congr {db db' : DB F}
    (h : db'.results.map measureKey = db.results.map measureKey) (id : Int) :
    measures db' id = measures db id := by
  rw [measures, measures, h]

omit [GoFloat F] in
theorem measures_eq (db : DB F) (id : Int) : measures db id =
    (db.results.filter (·.roundID = id)).map fun r => r.rawJSON.map measure := by
  rw [measures, List.filter_map, List.map_map]
  rfl

theorem Counted.congr {db db' : DB F} {id : Int} {c : RoundCounts F} (h : Counted db id c)
    (hm : measures db' id = measures db id) (hb : storedBuckets db' id = storedBuckets db id) :
    Counted db' id c := by
  obtain ⟨raw, hraw, hc, hbuckets⟩ := h
  exact ⟨raw, hm.trans hraw, hc, hb.trans hbuckets⟩

theorem Aggregated.congr {db db' : DB F} (h : Aggregated db)
    (hrounds : db'.rounds.map countKey = db.rounds.map countKey)
    (hresults : db'.results.map measureKey = db.results.map measureKey)
    (hbuckets : db'.latencyBuckets = db.latencyBuckets) : Aggregated db' where
  bucket_round b hb := by
    have hids : db'.rounds.map (·.id) = db.rounds.map (·.id) := by
      have hkey := congrArg (List.map Prod.fst) hrounds
      rw [List.map_map, List.map_map] at hkey
      exact hkey
    rw [hids]
    rw [hbuckets] at hb
    exact h.bucket_round b hb
  counts p hp := by
    rw [hrounds] at hp
    apply (h.counts p hp).congr (measures_congr hresults p.1)
    rw [storedBuckets, storedBuckets, hbuckets]

theorem aggregated_deleteRounds {db : DB F} (hw : WellFormed db) (h : Aggregated db)
    (p : RoundRow F → Bool) : Aggregated (deleteRounds p db) where
  bucket_round b hb := by
    obtain ⟨hb, hgone⟩ := mem_delete.mp hb
    obtain ⟨q, hq, hid⟩ := List.mem_map.mp (h.bucket_round b hb)
    refine List.mem_map.mpr ⟨q, mem_delete.mpr ⟨hq, ?_⟩, hid⟩
    by_contra hp
    rw [List.any_eq_false] at hgone
    exact hgone q hq (by simp [hp, hid])
  counts c hc := by
    obtain ⟨q, hq, rfl⟩ := List.mem_map.mp hc
    obtain ⟨hq, hp⟩ := mem_delete.mp hq
    have hstay : db.rounds.any (fun g => p g && g.id = q.id) = false := by
      rw [List.any_eq_false]
      intro g hg hgone
      simp only [Bool.and_eq_true, decide_eq_true_eq] at hgone
      rw [List.inj_on_of_nodup_map hw.round_ids hg hq hgone.2, hp] at hgone
      exact absurd hgone.1 (by simp)
    apply (h.counts _ (List.mem_map_of_mem hq)).congr
    · rw [measures_eq, measures_eq]
      congr 1
      apply filter_delete
      intro r _ hr
      rw [of_decide_eq_true hr]
      exact hstay
    · apply filter_delete
      intro b _ hb
      rw [of_decide_eq_true hb]
      exact hstay

theorem aggregated_deleteServerRows {db : DB F} (hw : WellFormed db) (h : Aggregated db)
    (id : Int) : Aggregated (deleteServerRows id db) where
  bucket_round := (aggregated_deleteRounds hw h fun r => r.serverID = id).bucket_round
  counts c hc := by
    have hd := aggregated_deleteRounds hw h fun r => r.serverID = id
    refine (hd.counts c hc).congr ?_ rfl
    obtain ⟨q, hq, rfl⟩ := List.mem_map.mp hc
    obtain ⟨hq, hp⟩ := mem_delete.mp hq
    rw [measures_eq, measures_eq]
    congr 1
    apply filter_delete
    intro r hr hid
    rw [owner_of_result hw hq (mem_delete.mp hr).1 (of_decide_eq_true hid)]
    exact hp

theorem aggregated_putOverride {db : DB F} (h : Aggregated db) (v : Override) :
    Aggregated (putOverride db v) :=
  h.congr (putOverride_rounds (fun _ _ => rfl) db v) (putOverride_results (fun _ _ => rfl) db v) rfl

theorem aggregated_migrate {db : DB F} (h : Aggregated db) : Aggregated (migrate db) := by
  apply h.congr
  · simp only [migrate, List.map_map]
    rfl
  · simp only [migrate, List.map_map]
    rfl
  · rfl

theorem timed_eq {rs : List (ProbeResult F)} (h : ∀ r ∈ rs, isFinite r.latencyMS = true) :
    timed rs = timedRaw rs := by
  apply List.filter_congr
  intro r hr
  rw [h r hr, Bool.and_true]

section

variable [CaseTables]

omit [GoFloat F] in
theorem measures_resultRows (overrides : List Override) (roundID seq : Int) (v : Round F)
    (rs : List (ProbeResult F)) :
    (resultRows overrides roundID v seq rs).map (fun r => r.rawJSON.map measure) =
      rs.map fun r => some (measure r) := by
  induction rs generalizing seq with
  | nil => rfl
  | cons r rs ih => rw [resultRows, List.map_cons, List.map_cons, ih]; rfl

theorem counted_newRound {db : DB F} (hw : WellFormed db) (h : Aggregated db) {v : Round F}
    (hv : ∀ r ∈ v.results, isFinite r.latencyMS = true) :
    Counted (insertRound db v) (newRoundID db) (roundCounts (newRound db v)) := by
  refine ⟨v.results, ?_, ?_, ?_⟩
  · rw [measures_eq, results_insertRound_new hw, newResults, measures_resultRows]
  · simp only [roundCounts, newRound, roundRow, countResults, timed_eq hv]
  · rw [storedBuckets, buckets_insertRound_new, timed_eq hv]
    intro b hb
    obtain ⟨q, hq, hid⟩ := List.mem_map.mp (h.bucket_round b hb)
    have hlt := newRoundID_fresh hq
    omega

theorem aggregated_insertRound {db : DB F} (hw : WellFormed db) (h : Aggregated db) {v : Round F}
    (hv : ∀ r ∈ v.results, isFinite r.latencyMS = true) : Aggregated (insertRound db v) where
  bucket_round b hb := by
    have hids : (insertRound db v).rounds.map (·.id) = db.rounds.map (·.id) ++ [newRoundID db] :=
      insertRound_map (fun _ _ => rfl) db v
    rw [hids]
    cases List.mem_append.mp hb with
    | inl hb => exact List.mem_append_left _ (h.bucket_round b hb)
    | inr hb => exact List.mem_append_right _ (List.mem_singleton.mpr (roundID_buckets hb))
  counts c hc := by
    rw [insertRound_map fun _ _ => by rfl] at hc
    cases List.mem_append.mp hc with
    | inl hc =>
      have hne : c.1 ≠ newRoundID db := by
        obtain ⟨q, hq, rfl⟩ := List.mem_map.mp hc
        exact (newRoundID_fresh hq).ne
      apply (h.counts c hc).congr
      · rw [measures_eq, results_insertRound_other v hne, measures_eq]
      · exact buckets_insertRound_other v hne
    | inr hc =>
      rw [List.mem_singleton.mp hc]
      exact counted_newRound hw h hv

end

omit [GoFloat F] in
theorem measure_keepReferences (before : Int) (r : ProbeResult F) :
    measure (keepReferences before r) = measure r := rfl

theorem aggregated_pruneReferences {db db' : DB F} {before : Int} {ids : List Int}
    (h : Aggregated db) (hs : pruneReferences before ids db = .ok db') : Aggregated db' := by
  obtain rfl := pruneReferences_ok hs
  refine h.congr rfl ?_ rfl
  apply map_update
  intro r
  simp only [measureKey, prunedResult, Option.map_map, Function.comp_def, measure_keepReferences]

omit [GoFloat F] in
theorem measures_of_mapM {left : List (ResultRow F)} {raw : List (ProbeResult F)}
    (h : left.mapM (·.rawJSON) = some raw) :
    left.map (fun r => r.rawJSON.map measure) = raw.map fun r => some (measure r) := by
  induction left generalizing raw with
  | nil =>
    obtain rfl : [] = raw := by simpa using h
    rfl
  | cons r left ih =>
    simp only [List.mapM_cons, Option.bind_eq_bind, Option.bind_eq_some_iff, Option.pure_def,
      Option.some.injEq] at h
    obtain ⟨x, hx, xs, hxs, rfl⟩ := h
    rw [List.map_cons, List.map_cons, ih hxs, hx, Option.map_some]

omit [GoFloat F] in
/-- The results of a dropped round go with it, whether or not they were deleted before. -/
theorem deleteRounds_deleted {db : DB F} (hw : WellFormed db) {id : Int} {p : ResultRow F → Bool}
    (hp : ∀ r, p r = true → r.roundID = id) :
    deleteRounds (·.id = id) { db with results := delete p db.results } =
      deleteRounds (·.id = id) db := by
  rw [deleteRounds, deleteRounds]
  congr 1
  apply delete_delete
  intro r hr hpr
  obtain ⟨q, hq, hid, -⟩ := round_of_result hw hr
  rw [List.any_eq_true]
  exact ⟨q, hq, by simp [hid, hp r hpr]⟩

omit [GoFloat F] in
theorem results_deleted_other {id i : Int} (hi : i ≠ id) {p : ResultRow F → Bool}
    (hp : ∀ r, p r = true → r.roundID = id) (rows : List (ResultRow F)) :
    (delete p rows).filter (·.roundID = i) = rows.filter (·.roundID = i) := by
  apply filter_delete
  intro r _ hr
  by_contra hpr
  exact hi ((of_decide_eq_true hr).symm.trans (hp r (by simpa using hpr)))

/-- The counts of one round are wrong until they are made anew. -/
theorem aggregated_rebuildRound {db db' : DB F} {id : Int} {p : ResultRow F → Bool}
    (hw : WellFormed db) (h : Aggregated db) (hp : ∀ r, p r = true → r.roundID = id)
    (hs : rebuildRound id { db with results := delete p db.results } = .ok db') :
    Aggregated db' := by
  cases rebuilt hs with
  | dropped _ =>
    rw [deleteRounds_deleted hw hp]
    exact aggregated_deleteRounds hw h _
  | recounted raw hraw hleft =>
    have hids : (update (·.id = id) (recountedRound ((delete p db.results).filter
        (·.roundID = id)) raw) db.rounds).map (·.id) = db.rounds.map (·.id) :=
      map_update (fun _ => by rfl) _
    constructor
    · intro b hb
      rw [hids]
      cases List.mem_append.mp hb with
      | inl hb => exact h.bucket_round b (mem_delete.mp hb).1
      | inr hb =>
        -- a round that still has results is stored
        obtain ⟨r, hr⟩ := List.exists_mem_of_ne_nil _ hleft
        obtain ⟨hr, hid⟩ := List.mem_filter.mp hr
        obtain ⟨q, hq, he, -⟩ := round_of_result hw (mem_delete.mp hr).1
        rw [roundID_buckets hb]
        exact List.mem_map.mpr ⟨q, hq, he.trans (of_decide_eq_true hid)⟩
    · intro c hc
      obtain ⟨g, hg, rfl⟩ := List.mem_map.mp hc
      obtain ⟨q, hq, rfl⟩ := mem_update.mp hg
      by_cases hid : q.id = id
      · rw [if_pos (by simpa using hid)]
        have hlength := congrArg List.length (measures_of_mapM hraw)
        rw [List.length_map, List.length_map] at hlength
        subst hid
        refine ⟨raw, ?_, ?_, recounted_buckets_self _ _ _⟩
        · rw [measures_eq, ← measures_of_mapM hraw]
          rfl
        · simp only [countKey, roundCounts, recountedRound, countResults, hlength]
      · rw [if_neg (by simpa using hid)]
        apply (h.counts _ (List.mem_map_of_mem hq)).congr
        · rw [measures_eq, measures_eq]
          exact congrArg _ (results_deleted_other hid hp _)
        · exact recounted_buckets_other hid _ _

theorem aggregated_rebuildPartial {db db' : DB F} {before : Int} {ids : List Int}
    (hw : WellFormed db) (h : Aggregated db) (hs : rebuildPartial before ids db = .ok db') :
    Aggregated db' := by
  refine (rebuildPartial_keeps (P := fun d => WellFormed d ∧ Aggregated d) ?_ ⟨hw, h⟩ hs).2
  rintro id - d d' ⟨hw, h⟩ hround
  refine ⟨wellFormed_rebuildRound (wellFormed_deleteResults hw _) hround,
    aggregated_rebuildRound hw h ?_ hround⟩
  intro r hr
  simp only [Bool.and_eq_true, decide_eq_true_eq] at hr
  exact hr.1

theorem aggregated_cleanup {db db' : DB F} {before : Int} {t : CleanupStep} (hw : WellFormed db)
    (h : Aggregated db) (hs : cleanup before t db = .ok db') : Aggregated db' := by
  cases t with
  | pruneObservations =>
    injection hs with hs
    exact hs ▸ h.congr rfl rfl rfl
  | pruneReferences ids => exact aggregated_pruneReferences h hs
  | dropRounds ids =>
    injection hs with hs
    exact hs ▸ aggregated_deleteRounds hw h _
  | pruneResults ids => exact aggregated_rebuildPartial hw h hs
  | dropAudit ids =>
    injection hs with hs
    exact hs ▸ h.congr rfl rfl rfl

variable [CaseTables]

theorem finite_of_saveRound {db db' : DB F} {v : Round F} (hs : saveRound db v = .ok db') :
    ∀ r ∈ v.results, isFinite r.latencyMS = true := by
  simp only [saveRound, bind_eq_ok] at hs
  obtain ⟨_, _, _, _, _, hfinite, _⟩ := hs
  intro r hr
  exact require_eq_ok.mp (forM_eq_ok.mp hfinite r hr)

theorem aggregated_apply {db db' : DB F} {e : Event F} (hw : WellFormed db) (h : Aggregated db)
    (hs : apply db e = .ok db') : Aggregated db' := by
  cases e with
  | saveConfig c =>
    obtain rfl := saveConfig_ok hs
    exact h.congr rfl rfl rfl
  | saveServer now v =>
    cases saveServer_ok hs with
    | inl hi => exact hi.2 ▸ h.congr rfl rfl rfl
    | inr hu => exact hu.2.2 ▸ h.congr rfl rfl rfl
  | deleteServer id => exact deleteServer_ok hs ▸ aggregated_deleteServerRows hw h id
  | importServers now snapshot items =>
    simp only [apply, map_eq_ok] at hs
    obtain ⟨r, hr, rfl⟩ := hs
    exact importServers_invariant (P := Aggregated) (fun _ _ _ h => h.congr rfl rfl rfl)
      (fun _ _ h => h.congr rfl rfl rfl) h hr
  | saveRound v =>
    have hfinite := finite_of_saveRound hs
    obtain ⟨_, _, _, snapshots, rfl⟩ := saveRound_ok hs
    exact (aggregated_insertRound hw h hfinite).congr rfl rfl rfl
  | saveOverride now v => exact (saveOverride_ok hs).2 ▸ aggregated_putOverride h _
  | saveTrustedObservation server result =>
    obtain ⟨rows, rfl⟩ := saveTrustedObservation_ok hs
    exact h.congr rfl rfl rfl
  | pruneTrustedReferences now hours =>
    obtain ⟨rows, rfl⟩ := pruneTrustedReferences_ok hs
    exact h.congr rfl rfl rfl
  | cleanup before t => exact aggregated_cleanup hw h hs

theorem aggregated_run {db : DB F} (hw : WellFormed db) (h : Aggregated db)
    (es : List (Event F)) : Aggregated (Runs.run step db es) := by
  refine (Runs.run_invariant (P := fun db => WellFormed db ∧ Aggregated db) ?_ ⟨hw, h⟩ es).2
  exact step_invariant fun _ _ _ h hs => ⟨wellFormed_apply h.1 hs, aggregated_apply h.1 h.2 hs⟩

end

section

variable {F : Type} [GoFloat F]

theorem aggregated_empty : Aggregated (emptyLegacy (F := F)).db where
  bucket_round b hb := by cases hb
  counts p hp := by cases hp

theorem Counted.stored {db : DB F} {id : Int} {c : RoundCounts F} (h : Counted db id c) :
    ∃ raw : List (ProbeResult F),
      (db.results.filter (·.roundID = id)).map (·.rawJSON) = raw.map some ∧
        c = countResults raw ∧ storedBuckets db id = buckets id (timedRaw raw) := by
  obtain ⟨raw, hraw, hc, hbuckets⟩ := h
  rw [measures_eq] at hraw
  have hstored : ∀ (left : List (ResultRow F)) (raw : List (ProbeResult F)),
      left.map (fun r => r.rawJSON.map measure) = raw.map (fun r => some (measure r)) →
      ∃ raw' : List (ProbeResult F), left.map (·.rawJSON) = raw'.map some ∧
        raw'.map measure = raw.map measure := by
    intro left
    induction left with
    | nil =>
      intro raw h
      cases raw with
      | nil => exact ⟨[], rfl, rfl⟩
      | cons x raw => cases h
    | cons r left ih =>
      intro raw h
      cases raw with
      | nil => cases h
      | cons x raw =>
        obtain ⟨hx, htail⟩ := List.cons.inj h
        obtain ⟨y, hy, hyx⟩ := Option.map_eq_some_iff.mp hx
        obtain ⟨raw', hraw', hmeasure⟩ := ih raw htail
        exact ⟨y :: raw', by simp [hy, hraw'], by simp [hyx, hmeasure]⟩
  obtain ⟨raw', hraw', hmeasure⟩ := hstored _ raw hraw
  exact ⟨raw', hraw', hc.trans (countResults_congr hmeasure.symm),
    hbuckets.trans (buckets_congr hmeasure.symm id)⟩

/-- In every state that calls of the store lead to, transaction by transaction, the counts of a
round and its buckets are the fold over the results that are stored for it. -/
theorem counts_of_results [CaseTables] (legacy : Legacy F) (hlegacy : Aggregated legacy.db)
    (es : List (Event F)) {db : DB F} (hdb : db = Runs.run step (openStore legacy) es) :
    ∀ q ∈ db.rounds, ∃ raw : List (ProbeResult F),
      (db.results.filter (·.roundID = q.id)).map (·.rawJSON) = raw.map some ∧
        q.samples = raw.length ∧ q.received = received raw ∧ q.successes = successes raw ∧
        q.latencyCount = (timedRaw raw).length ∧ q.latencySum = latencySum (timedRaw raw) ∧
        storedBuckets db q.id = buckets q.id (timedRaw raw) ∧
        q.received ≤ q.samples ∧ q.successes ≤ q.samples ∧
        q.latencyCount = ((storedBuckets db q.id).map (·.count)).sum := by
  have h : Aggregated db := by
    rw [hdb]
    exact aggregated_run (wellFormed_migrate legacy.wellFormed) (aggregated_migrate hlegacy) es
  intro q hq
  obtain ⟨raw, hraw, hc, hbuckets⟩ := (h.counts _ (List.mem_map_of_mem hq)).stored
  simp only [countKey, roundCounts, countResults, RoundCounts.mk.injEq] at hc
  obtain ⟨hsamples, hreceived, hsuccesses, hcount, hsum⟩ := hc
  refine ⟨raw, hraw, hsamples, hreceived, hsuccesses, hcount, hsum, hbuckets, ?_, ?_, ?_⟩
  · rw [hreceived, hsamples]
    exact List.length_filter_le _ _
  · rw [hsuccesses, hsamples]
    exact List.length_filter_le _ _
  · have hb : storedBuckets db q.id = buckets q.id (timedRaw raw) := hbuckets
    rw [hb, sum_buckets, hcount]

end

section

local instance : CaseTables := asciiTables

def partialRun : List (Event ℚ) :=
  [.saveServer 900 exampleServer,
    .saveRound (exampleRound 2000 [{ exampleResult true (str "clean") with timestamp := 500 },
      exampleResult false (str "unknown")]),
    .cleanup 1000 (.pruneResults [1])]

theorem counts_of_results_partial : ∃ q ∈ (Runs.run step (openStore emptyLegacy) partialRun).rounds,
    q.samples = 1 ∧ q.received = 0 ∧ ∃ raw : List (ProbeResult ℚ),
      q.samples = raw.length ∧ q.received = received raw := by
  have h : (Runs.run step (openStore emptyLegacy) partialRun).rounds.any
      (fun q => q.samples = 1 && q.received = 0) = true := by decide +kernel
  obtain ⟨q, hq, hcounts⟩ := List.any_eq_true.mp h
  simp only [Bool.and_eq_true, decide_eq_true_eq] at hcounts
  obtain ⟨raw, _, hsamples, hreceived, _⟩ :=
    counts_of_results emptyLegacy aggregated_empty partialRun rfl q hq
  exact ⟨q, hq, hcounts.1, hcounts.2, raw, hsamples, hreceived⟩

end

end DnsMonitor.Store.Aggregates

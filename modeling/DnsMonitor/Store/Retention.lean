import DnsMonitor.Lib.Batches
import DnsMonitor.Store.Partial

namespace DnsMonitor.Store.Retention

open DnsMonitor.Model DnsMonitor.Lib DnsMonitor.Lib.Tables DnsMonitor.Lib.Batches
open DnsMonitor.Store.Schema DnsMonitor.Store.Rounds DnsMonitor.Store.Cleanup
open DnsMonitor.Store.Migration DnsMonitor.Store.Run DnsMonitor.Store.WellFormed
open DnsMonitor.Store.Retained DnsMonitor.Store.Partial
open DnsMonitor.Go.Strings DnsMonitor.Go.Unicode DnsMonitor.Go.Errors DnsMonitor.Go.Float

section

variable {F : Type}

def oldResults (before : Int) (db : DB F) : List Int := (db.results.filter (isOld before)).map (·.id)

def oldRounds (before : Int) (db : DB F) : List Int :=
  (db.rounds.filter (·.finishedAt < before)).map (·.id)

def oldParts (before : Int) (db : DB F) : List Int :=
  ((db.results.filter (·.timestamp < before)).map (·.roundID)).dedup

def oldAudit (before : Int) (db : DB F) : List Int :=
  (db.overrideAudit.filter (·.timestamp < before)).map (·.id)

/-- The orders in which the four queries return their rows. -/
structure Orders where
  references : ScanOrder Int
  rounds : ScanOrder Int
  results : ScanOrder Int
  audit : ScanOrder Int

/-- Every loop may run the given number of passes. -/
def cleanupAll [GoFloat F] (o : Orders) (passes : Nat) (before : Int) (db : DB F) :
    ExceptT StoreError Option (DB F) := do
  let db := pruneObservations before db
  let db ← drain 250 o.references (oldResults before) (pruneReferences before) passes 0 db
  let db ← drain 1000 o.rounds (oldRounds before) (fun ids db => .ok (dropRounds before ids db))
    passes 0 db
  let db ← drain 100 o.results (oldParts before) (pruneResults before) passes 0 db
  drain 1000 o.audit (oldAudit before) (fun ids db => .ok (dropAudit before ids db)) passes 0 db

section

variable {db : DB F} {before : Int}

theorem hasOldReference_eq (ids : List Int) : hasOldReference (F := F) before ids =
    fun r => ids.contains r.id && isOld before r := by
  funext r
  rw [hasOldReference, isOld, Bool.and_assoc]

theorem oldResults_update (h : AllDecode db) (ids : List Int) :
    oldResults before { db with
        results := update (hasOldReference before ids) (prunedResult before) db.results } =
      (oldResults before db).filter (· ∉ ids) := by
  have hrows : ∀ rows : List (ResultRow F), (∀ r ∈ rows, Decodes r) →
      ((update (fun r => ids.contains r.id && isOld before r) (prunedResult before) rows).filter
        (isOld before)).map (·.id) = ((rows.filter (isOld before)).map (·.id)).filter (· ∉ ids) := by
    intro rows
    induction rows with
    | nil => exact fun _ => rfl
    | cons r rows ih =>
      intro hrows
      have htail := ih fun q hq => hrows q (by simp [hq])
      have hpruned := not_old_prunedResult before (hrows r (by simp))
      simp only [update, List.map_cons] at htail ⊢
      by_cases ho : isOld before r = true
      · by_cases hid : r.id ∈ ids
        · rw [if_pos (by simp [hid, ho]), List.filter_cons_of_neg (by simp [hpruned]),
            List.filter_cons_of_pos ho, List.map_cons, List.filter_cons_of_neg (by simp [hid]),
            htail]
        · rw [if_neg (by simp [hid]), List.filter_cons_of_pos ho, List.map_cons,
            List.filter_cons_of_pos ho, List.map_cons, List.filter_cons_of_pos (by simp [hid]),
            htail]
      · rw [if_neg (by simp [ho]), List.filter_cons_of_neg ho, List.filter_cons_of_neg ho, htail]
  rw [oldResults, oldResults, hasOldReference_eq]
  exact hrows db.results h

theorem prunedResult_update (h : AllDecode db) (ids : List Int) :
    update (isOld before) (prunedResult before)
        (update (hasOldReference before ids) (prunedResult before) db.results) =
      update (isOld before) (prunedResult before) db.results := by
  rw [hasOldReference_eq, update, update, update, List.map_map]
  apply List.map_congr_left
  intro r hr
  have hpruned := not_old_prunedResult before (h r hr)
  simp only [Function.comp_apply]
  by_cases ho : isOld before r = true
  · by_cases hid : r.id ∈ ids
    · simp [hid, ho, hpruned]
    · simp [hid]
  · simp [ho]

variable (before) in
theorem drain_references (o : ScanOrder Int) (h : AllDecode db) : ∀ passes,
    (oldResults before db).length < passes →
      drain 250 o (oldResults before) (pruneReferences before) passes 0 db =
        some (.ok { db with results := update (isOld before) (prunedResult before) db.results }) := by
  have hwork : ∀ s batch, (AllDecode s ∧ ∃ rows, s = { db with results := rows } ∧
        update (isOld before) (prunedResult before) rows =
          update (isOld before) (prunedResult before) db.results) →
      batch.Subperm (oldResults before s) → batch.length ≤ 250 →
      ∃ s', pruneReferences before batch s = .ok s' ∧ (AllDecode s' ∧
        ∃ rows, s' = { db with results := rows } ∧
          update (isOld before) (prunedResult before) rows =
            update (isOld before) (prunedResult before) db.results) ∧
        (oldResults before s').length ≤ ((oldResults before s).filter (· ∉ batch)).length := by
    rintro s batch ⟨hdecode, rows, rfl, hrows⟩ _ hlimit
    refine ⟨{ db with results := update (hasOldReference before batch) (prunedResult before) rows },
      ?_, ⟨?_, _, rfl, (prunedResult_update hdecode batch).trans hrows⟩,
      (congrArg List.length (oldResults_update hdecode batch)).le⟩
    · simp only [pruneReferences, List.take_of_length_le hlimit, bind_eq_ok, require_eq_ok,
        pure_eq_ok]
      exact ⟨(), fun r hr _ => hdecode r hr, trivial⟩
    · intro r hr
      obtain ⟨q, hq, rfl⟩ := mem_update.mp hr
      split_ifs
      · exact decodes_prunedResult before (hdecode q hq)
      · exact hdecode q hq
  obtain ⟨db', ⟨_, rows, hdb, hrows⟩, hdone, hend⟩ :=
    drain_ends (o := o) (by decide) hwork 0 ⟨h, db.results, rfl, rfl⟩
  have hsame : update (isOld before) (prunedResult before) rows = rows := by
    apply update_of_none
    intro r hr
    have hmem : r ∈ db'.results := by rwa [hdb]
    rw [oldResults, List.map_eq_nil_iff, List.filter_eq_nil_iff] at hdone
    simpa using hdone r hmem
  rw [← hrows, hsame, ← hdb]
  exact hend

theorem deleteRounds_deleteRounds {p q : RoundRow F → Bool}
    (h : ∀ r ∈ db.rounds, q r = true → p r = true) :
    deleteRounds p (deleteRounds q db) = deleteRounds p db := by
  have hgone : ∀ id, ((delete q db.rounds).any fun r => p r && r.id = id) = true ∨
      (db.rounds.any fun r => q r && r.id = id) = true ↔
      (db.rounds.any fun r => p r && r.id = id) = true := by
    intro id
    simp only [List.any_eq_true, Bool.and_eq_true, decide_eq_true_eq]
    constructor
    · rintro (⟨r, hr, hp⟩ | ⟨r, hr, hq⟩)
      · exact ⟨r, (mem_delete.mp hr).1, hp⟩
      · exact ⟨r, hr, h r hr hq.1, hq.2⟩
    · rintro ⟨r, hr, hp⟩
      cases hq : q r with
      | true => exact .inr ⟨r, hr, hq, hp.2⟩
      | false => exact .inl ⟨r, mem_delete.mpr ⟨hr, hq⟩, hp⟩
  have hdelete : ∀ {β : Type} (key : β → Int) (rows : List β),
      delete (fun b => (delete q db.rounds).any fun r => p r && r.id = key b)
        (delete (fun b => db.rounds.any fun r => q r && r.id = key b) rows) =
      delete (fun b => db.rounds.any fun r => p r && r.id = key b) rows := by
    intro β key rows
    rw [delete, delete, delete, List.filter_filter]
    apply List.filter_congr
    intro b _
    rw [← Bool.not_or, Bool.not_inj_iff, Bool.eq_iff_iff, Bool.or_eq_true]
    exact hgone (key b)
  simp only [deleteRounds, hdelete, delete_delete h]

theorem deleteRounds_none {p : RoundRow F → Bool} (h : ∀ r ∈ db.rounds, p r = false) :
    deleteRounds p db = db := by
  have hgone : ∀ id, (db.rounds.any fun r => p r && r.id = id) = false := by
    intro id
    rw [List.any_eq_false]
    intro r hr
    simp [h r hr]
  have hrounds : delete p db.rounds = db.rounds :=
    filter_every fun r hr => by rw [h r hr]; rfl
  have hkeep : ∀ {β : Type} (rows : List β), delete (fun _ => false) rows = rows :=
    fun rows => filter_every fun _ _ => rfl
  simp only [deleteRounds, hgone, hrounds, hkeep]

theorem oldRounds_dropRounds (db : DB F) {ids : List Int} (h : ids.length ≤ 1000) :
    oldRounds before (dropRounds before ids db) = (oldRounds before db).filter (· ∉ ids) := by
  simp only [oldRounds, dropRounds, deleteRounds, List.take_of_length_le h, delete]
  rw [List.filter_map, List.filter_filter, List.filter_filter]
  congr 1
  apply List.filter_congr
  intro r _
  by_cases hid : r.id ∈ ids <;> by_cases hf : r.finishedAt < before <;> simp [hid, hf]

variable (before) in
theorem drain_rounds (o : ScanOrder Int) (db : DB F) : ∀ passes,
    (oldRounds before db).length < passes →
      drain (ε := StoreError) 1000 o (oldRounds before)
        (fun ids db => .ok (dropRounds before ids db)) passes 0 db =
        some (.ok (deleteRounds (·.finishedAt < before) db)) := by
  have hwork : ∀ s batch, deleteRounds (·.finishedAt < before) s =
        deleteRounds (·.finishedAt < before) db →
      batch.Subperm (oldRounds before s) → batch.length ≤ 1000 →
      ∃ s', (.ok (dropRounds before batch s) : Except StoreError (DB F)) = .ok s' ∧
        deleteRounds (·.finishedAt < before) s' = deleteRounds (·.finishedAt < before) db ∧
        (oldRounds before s').length ≤ ((oldRounds before s).filter (· ∉ batch)).length := by
    intro s batch hs _ hlimit
    refine ⟨_, rfl, ?_, (congrArg List.length (oldRounds_dropRounds s hlimit)).le⟩
    rw [dropRounds, deleteRounds_deleteRounds, hs]
    intro r _ hr
    exact (Bool.and_eq_true_iff.mp hr).2
  obtain ⟨db', hsame, hdone, hend⟩ := drain_ends (o := o) (by decide) hwork 0 rfl
  rw [← hsame, deleteRounds_none]
  · exact hend
  · intro r hr
    rw [oldRounds, List.map_eq_nil_iff, List.filter_eq_nil_iff] at hdone
    simpa using hdone r hr

theorem oldAudit_dropAudit (db : DB F) {ids : List Int} (h : ids.length ≤ 1000) :
    oldAudit before (dropAudit before ids db) = (oldAudit before db).filter (· ∉ ids) := by
  simp only [oldAudit, dropAudit, List.take_of_length_le h, delete]
  rw [List.filter_map, List.filter_filter, List.filter_filter]
  congr 1
  apply List.filter_congr
  intro r _
  by_cases hid : r.id ∈ ids <;> by_cases hf : r.timestamp < before <;> simp [hid, hf]

variable (before) in
theorem drain_audit (o : ScanOrder Int) (db : DB F) : ∀ passes,
    (oldAudit before db).length < passes →
      drain (ε := StoreError) 1000 o (oldAudit before)
        (fun ids db => .ok (dropAudit before ids db)) passes 0 db =
        some (.ok { db with
          overrideAudit := delete (·.timestamp < before) db.overrideAudit }) := by
  have hwork : ∀ s batch, (∃ rows, s = { db with overrideAudit := rows } ∧
        delete (·.timestamp < before) rows = delete (·.timestamp < before) db.overrideAudit) →
      batch.Subperm (oldAudit before s) → batch.length ≤ 1000 →
      ∃ s', (.ok (dropAudit before batch s) : Except StoreError (DB F)) = .ok s' ∧
        (∃ rows, s' = { db with overrideAudit := rows } ∧
          delete (·.timestamp < before) rows = delete (·.timestamp < before) db.overrideAudit) ∧
        (oldAudit before s').length ≤ ((oldAudit before s).filter (· ∉ batch)).length := by
    rintro s batch ⟨rows, rfl, hrows⟩ _ hlimit
    refine ⟨_, rfl, ⟨_, rfl, ?_⟩, (congrArg List.length (oldAudit_dropAudit _ hlimit)).le⟩
    rw [← hrows]
    apply delete_delete
    intro r _ hr
    exact (Bool.and_eq_true_iff.mp hr).2
  obtain ⟨db', ⟨rows, hdb, hrows⟩, hdone, hend⟩ :=
    drain_ends (o := o) (by decide) hwork 0 ⟨db.overrideAudit, rfl, rfl⟩
  have hnone : delete (·.timestamp < before) rows = rows := by
    apply filter_every
    intro r hr
    have hmem : r ∈ db'.overrideAudit := by rwa [hdb]
    rw [oldAudit, List.map_eq_nil_iff, List.filter_eq_nil_iff] at hdone
    simpa using hdone r hmem
  rw [← hrows, hnone, ← hdb]
  exact hend

theorem mem_oldParts {id : Int} : id ∈ oldParts before db ↔ hasExpired before db id = true := by
  rw [oldParts, List.mem_dedup, List.mem_map, hasExpired, List.any_eq_true]
  simp only [List.mem_filter, decide_eq_true_eq, Bool.and_eq_true]
  constructor
  · rintro ⟨r, ⟨hr, ht⟩, hid⟩
    exact ⟨r, hr, hid, ht⟩
  · rintro ⟨r, hr, hid, ht⟩
    exact ⟨r, ⟨hr, ht⟩, hid⟩

def pruned (before : Int) (db : DB F) : DB F :=
  deleteRounds (·.finishedAt < before)
    { pruneObservations before db with
      results := update (isOld before) (prunedResult before) db.results }

theorem wellFormed_prunedResults (hw : WellFormed db) (before : Int) :
    WellFormed { pruneObservations before db with
      results := update (isOld before) (prunedResult before) db.results } := by
  refine { hw with result_round := ?_, result_code := ?_ }
  · change (update (isOld before) (prunedResult before) db.results).map resultOwner ⊆ _
    rw [map_update (f := prunedResult before) fun _ => by rfl]
    exact hw.result_round
  · change ∀ n ∈ (update (isOld before) (prunedResult before) db.results).map _, n ≤ 4
    rw [map_update (f := prunedResult before) fun _ => by rfl]
    exact hw.result_code

theorem wellFormed_pruned (hw : WellFormed db) (before : Int) : WellFormed (pruned before db) :=
  wellFormed_deleteRounds (wellFormed_prunedResults hw before) _

theorem decode_pruned (hs : AllDecode db) (before : Int) : AllDecode (pruned before db) := by
  intro r hr
  obtain ⟨q, hq, rfl⟩ := mem_update.mp (mem_delete.mp hr).1
  split_ifs
  · exact decodes_prunedResult before (hs q hq)
  · exact hs q hq

theorem partialRounds_batch {batch : List Int} (h : batch.Subperm (oldParts before db))
    (hlimit : batch.length ≤ 100) : partialRounds before batch db = batch := by
  obtain ⟨rows, hperm, hsub⟩ := h
  have hnd : batch.Nodup := hperm.nodup_iff.mp ((List.nodup_dedup _).sublist hsub)
  rw [partialRounds, hnd.dedup, filter_every, List.take_of_length_le hlimit]
  intro id hid
  exact mem_oldParts.mp (hsub.subset (hperm.mem_iff.mpr hid))

variable [GoFloat F]

variable (before) in
theorem drain_results (o : ScanOrder Int) (hw : WellFormed db) (hs : AllDecode db) :
    ∃ db', Settled before db db' ∧ ∀ passes, (oldParts before db).length < passes →
      drain 100 o (oldParts before) (pruneResults before) passes 0 db = some (.ok db') := by
  have hwork : ∀ s batch, (WellFormed s ∧ AllDecode s ∧ SameRest before db s) →
      batch.Subperm (oldParts before s) → batch.length ≤ 100 →
      ∃ s', pruneResults before batch s = .ok s' ∧
        (WellFormed s' ∧ AllDecode s' ∧ SameRest before db s') ∧
        (oldParts before s').length ≤ ((oldParts before s).filter (· ∉ batch)).length := by
    rintro s batch ⟨hw, hs, hsame⟩ hsub hlimit
    have hexpired : ∀ id ∈ batch, hasExpired before s id = true :=
      fun id hid => mem_oldParts.mp (hsub.subset hid)
    obtain ⟨rows, hperm, hrows⟩ := hsub
    have hnd : batch.Nodup := hperm.nodup_iff.mp ((List.nodup_dedup _).sublist hrows)
    obtain ⟨s', hok, hrest, hleft⟩ := rebuildPartial_settles hnd hw hs hexpired
    refine ⟨s', ?_, ⟨wellFormed_rebuildPartial hw hok, allRows_rebuildPartial hs hok,
      hsame.trans hrest⟩, ?_⟩
    · rw [pruneResults, partialRounds_batch ⟨rows, hperm, hrows⟩ hlimit]
      exact hok
    · apply ((List.nodup_dedup _).subperm _).length_le
      intro id hid
      have hin := mem_oldParts.mp hid
      rw [hleft, Bool.and_eq_true] at hin
      exact List.mem_filter.mpr ⟨mem_oldParts.mpr hin.1, hin.2⟩
  obtain ⟨db', ⟨_, _, hsame⟩, hdone, hend⟩ :=
    drain_ends (o := o) (by decide) hwork 0 ⟨hw, hs, SameRest.refl before db⟩
  refine ⟨db', hsame.settled ?_, hend⟩
  intro r hr ht
  have hmem : r.roundID ∈ oldParts before db' := by
    rw [mem_oldParts, hasExpired, List.any_eq_true]
    exact ⟨r, hr, by simp [ht]⟩
  rw [hdone] at hmem
  cases hmem

/-- Whatever the orders, all loops end, in the same rest. -/
theorem cleanupAll_ends (o : Orders) (hw : WellFormed db) (hs : AllDecode db) (before : Int) :
    ∃ settled, Settled before (pruned before db) settled ∧
      ∃ bound, ∀ passes, bound < passes → cleanupAll o passes before db =
        some (.ok { settled with
          overrideAudit := delete (·.timestamp < before) db.overrideAudit }) := by
  have hdecode : AllDecode (pruneObservations before db) := hs
  have hfirst := drain_references before o.references hdecode
  have hsecond := drain_rounds before o.rounds
    { pruneObservations before db with results := update (isOld before) (prunedResult before) db.results }
  obtain ⟨settled, hsettled, hthird⟩ := drain_results before o.results
    (wellFormed_pruned hw before) (decode_pruned hs before)
  have hfourth := drain_audit before o.audit settled
  have haudit : settled.overrideAudit = db.overrideAudit := by
    have ho := congrArg DB.overrideAudit hsettled.others
    exact ho
  rw [haudit] at hfourth
  refine ⟨settled, hsettled, (oldResults before (pruneObservations before db)).length +
    (oldRounds before { pruneObservations before db with
      results := update (isOld before) (prunedResult before) db.results }).length +
    (oldParts before (pruned before db)).length + (oldAudit before settled).length, ?_⟩
  intro passes hp
  refine (bind_of_ok (hfirst passes (by omega)) _).trans ?_
  refine (bind_of_ok (hsecond passes (by omega)) _).trans ?_
  refine (bind_of_ok (hthird passes (by omega)) _).trans ?_
  exact hfourth passes (by omega)

end

end

section

variable {F : Type} {before : Int} {db db' settled : DB F}

def survives (before : Int) (db : DB F) (r : ResultRow F) : Bool :=
  before ≤ r.timestamp && db.rounds.any fun q => before ≤ q.finishedAt && q.id = r.roundID

/-- What is kept and how, table by table. -/
structure Retains (before : Int) (db db' : DB F) : Prop where
  results : db'.results = (db.results.filter (survives before db)).map (prunedResult before)
  references : ∀ r ∈ db.results, ∃ raw, r.rawJSON = some raw ∧
    (prunedResult before r).rawJSON =
      some { raw with references := recentReferences before raw.references }
  rounds : ∀ q ∈ db.rounds, (∃ r ∈ db.results, r.roundID = q.id) →
    ((∃ q' ∈ db'.rounds, q'.id = q.id) ↔ ∃ r ∈ db'.results, r.roundID = q.id)
  observations : db'.trustedObservations = db.trustedObservations.filter (before ≤ ·.observedAt)
  audit : db'.overrideAudit = db.overrideAudit.filter (before ≤ ·.timestamp)
  overrides : db'.overrides = db.overrides
  servers : db'.servers = db.servers

theorem update_prunedResult (hs : AllInStep db) :
    update (isOld before) (prunedResult before) db.results = db.results.map (prunedResult before) := by
  rw [update]
  apply List.map_congr_left
  intro r hr
  split_ifs with ho
  · rfl
  · exact (prunedResult_of_not_old (hs r hr) (Bool.eq_false_iff.mpr ho)).symm

theorem results_pruned (hw : WellFormed db) (hs : AllInStep db) : (pruned before db).results =
    (db.results.filter fun r => db.rounds.any fun q =>
      before ≤ q.finishedAt && q.id = r.roundID).map (prunedResult before) := by
  change delete _ (update (isOld before) (prunedResult before) db.results) = _
  rw [update_prunedResult hs, delete, List.filter_map]
  congr 1
  apply List.filter_congr
  intro r hr
  obtain ⟨q, hq, hid, -⟩ := round_of_result hw hr
  have hany : ∀ p : RoundRow F → Bool,
      (db.rounds.any fun q => p q && q.id = r.roundID) = p q := by
    intro p
    rw [Bool.eq_iff_iff, List.any_eq_true]
    simp only [Bool.and_eq_true, decide_eq_true_eq]
    constructor
    · rintro ⟨g, hg, hpg, hgid⟩
      rwa [List.inj_on_of_nodup_map hw.round_ids hg hq (hgid.trans hid.symm)] at hpg
    · exact fun hp => ⟨q, hq, hp, hid⟩
  change (!db.rounds.any fun q => decide (q.finishedAt < before) && q.id = r.roundID) =
    db.rounds.any fun q => decide (before ≤ q.finishedAt) && q.id = r.roundID
  rw [hany fun q => q.finishedAt < before, hany fun q => before ≤ q.finishedAt, ← decide_not]
  simp only [not_lt]

theorem results_settled [GoFloat F] (hw : WellFormed db) (hs : AllInStep db)
    (h : Settled before (pruned before db) settled) :
    settled.results = (db.results.filter (survives before db)).map (prunedResult before) := by
  rw [h.results, results_pruned hw hs, delete, List.filter_map, List.filter_filter]
  congr 1
  apply List.filter_congr
  intro r _
  have htime : (prunedResult before r).timestamp = r.timestamp := rfl
  simp only [Function.comp_apply, survives, htime, ← decide_not, not_lt]

theorem rounds_settled [GoFloat F] (hw : WellFormed db) (hs : AllInStep db)
    (h : Settled before (pruned before db) settled) {q : RoundRow F}
    (hresult : ∃ r ∈ db.results, r.roundID = q.id) :
    (∃ q' ∈ settled.rounds, q'.id = q.id) ↔ ∃ r ∈ settled.results, r.roundID = q.id := by
  have hmem : ∀ r, r ∈ settled.results ↔
      r ∈ (pruned before db).results ∧ decide (r.timestamp < before) = false := by
    intro r
    rw [h.results]
    exact mem_delete
  constructor
  · rintro ⟨q', hq', hid⟩
    rw [h.rounds] at hq'
    obtain ⟨g, hg, hsettled⟩ := List.mem_filterMap.mp hq'
    obtain ⟨hgm, hrecent⟩ := mem_delete.mp hg
    rw [settledRound] at hsettled
    split_ifs at hsettled with hexpired hleft
    · -- one of the results that are left
      obtain rfl := Option.some.inj hsettled
      obtain ⟨r, hr⟩ := List.exists_mem_of_ne_nil _ hleft
      obtain ⟨hr, hthis⟩ := List.mem_filter.mp hr
      simp only [Bool.and_eq_true, decide_eq_true_eq, Bool.not_eq_true'] at hthis
      exact ⟨r, (hmem r).mpr ⟨hr, hthis.2⟩, hthis.1.trans hid⟩
    · -- any result, for none is expired
      obtain rfl := Option.some.inj hsettled
      obtain ⟨r, hr, hrid⟩ := hresult
      have hpruned : prunedResult before r ∈ (pruned before db).results := by
        rw [results_pruned hw hs]
        apply List.mem_map_of_mem
        apply List.mem_filter.mpr
        refine ⟨hr, List.any_eq_true.mpr ⟨g, hgm, ?_⟩⟩
        have hle : before ≤ g.finishedAt := by simpa using hrecent
        simp [hle, hid, hrid]
      refine ⟨_, (hmem _).mpr ⟨hpruned, ?_⟩, hrid⟩
      rw [Bool.not_eq_true, hasExpired, List.any_eq_false] at hexpired
      have hnot := hexpired _ hpruned
      have hrg : (prunedResult before r).roundID = g.id := hrid.trans hid.symm
      simpa [hrg] using hnot
  · rintro ⟨r, hr, hrid⟩
    obtain ⟨hr, htime⟩ := (hmem r).mp hr
    have hw' := wellFormed_pruned hw before
    obtain ⟨g, hg, hgid, -⟩ := round_of_result hw' hr
    have hleft : left before (pruned before db) g.id ≠ [] := by
      apply List.ne_nil_of_mem (a := r)
      apply List.mem_filter.mpr
      exact ⟨hr, by simp [hgid, htime]⟩
    rw [h.rounds]
    cases hexpired : hasExpired before (pruned before db) g.id with
    | false =>
      refine ⟨g, List.mem_filterMap.mpr ⟨g, hg, ?_⟩, hgid.trans hrid⟩
      rw [settledRound, hexpired]
      rfl
    | true =>
      refine ⟨recountedRound (left before (pruned before db) g.id)
        (leftRaw before (pruned before db) g.id) g, List.mem_filterMap.mpr ⟨g, hg, ?_⟩,
        hgid.trans hrid⟩
      rw [settledRound, hexpired, if_pos rfl, if_neg hleft]

variable [GoFloat F] [CaseTables]

/-- In every state, and whatever the orders in which its queries return their rows, `Cleanup`
ends and keeps exactly what is recent, down to the answers in the references of a result. -/
theorem cleanup_retains (legacy : Legacy F) (hl : AllInStep legacy.db) {es : List (Event F)}
    (he : ∀ e ∈ es, BuiltReferences e) (hdb : db = Runs.run step (openStore legacy) es)
    (o : Orders) (before : Int) :
    ∃ db', Retains before db db' ∧
      ∃ bound, ∀ passes, bound < passes → cleanupAll o passes before db = some (.ok db') := by
  have hw : WellFormed db := wellFormed_reachable ⟨legacy, es, hdb⟩
  have hs : AllInStep db := by
    rw [hdb]
    exact inStep_run (allRows_migrate inStep_rule hl) he
  obtain ⟨settled, hsettled, hend⟩ := cleanupAll_ends o hw hs.decode before
  have hothers := hsettled.others
  have hobservations : settled.trustedObservations =
      delete (·.observedAt < before) db.trustedObservations := by
    have hcolumn := congrArg DB.trustedObservations hothers
    exact hcolumn
  have hoverrides : settled.overrides = db.overrides := by
    have hcolumn := congrArg DB.overrides hothers
    exact hcolumn
  have hservers : settled.servers = db.servers := by
    have hcolumn := congrArg DB.servers hothers
    exact hcolumn
  have hretains : Retains before db { settled with
      overrideAudit := delete (·.timestamp < before) db.overrideAudit } := by
    refine ⟨?_, ?_, fun q _ hr => rounds_settled hw hs hsettled hr, ?_, ?_, hoverrides, hservers⟩
    · have hresults := results_settled hw hs hsettled
      exact hresults
    · intro r hr
      obtain ⟨raw, hraw, _, hb⟩ := hs r hr
      exact ⟨raw, hraw, by rw [prunedResult_eq hraw hb]⟩
    · simp only [hobservations, delete, ← decide_not, not_lt]
    · simp only [delete, ← decide_not, not_lt]
  exact ⟨_, hretains, hend⟩

end

section

local instance : CaseTables := asciiTables

def exampleReference : Reference :=
  { records := [⟨str "1.2.3.4", 60, 900, 960⟩, ⟨str "1.2.3.5", 60, 1500, 1560⟩], serverID := 2,
    address := str "udp://9.9.9.9:53", timestamp := 1500, rcode := str "NOERROR",
    answers := [str "1.2.3.4", str "1.2.3.5"], success := true }

theorem exampleReference_built : Built exampleReference where
  timestamp := by decide
  records := by decide
  answers := rfl

/-- A round with a recent result, in whose reference one answer is old, and an expired one. -/
def agedRun : List (Event ℚ) :=
  [.saveServer 900 exampleServer,
    .saveRound (exampleRound 2000 [{ exampleResult true (str "matched") with
      references := [exampleReference] }, { exampleResult false (str "unknown") with
      timestamp := 500 }])]

theorem agedRun_built : ∀ e ∈ agedRun, BuiltReferences e := by
  intro e he v hv r hr ref href
  rw [hv] at he
  have hv : v = exampleRound 2000 [{ exampleResult true (str "matched") with
      references := [exampleReference] }, { exampleResult false (str "unknown") with
      timestamp := 500 }] := by simpa [agedRun] using he
  have href : ref = exampleReference := by
    rw [hv] at hr
    simp only [exampleRound, List.mem_cons, List.not_mem_nil, or_false] at hr
    cases hr with
    | inl hr =>
      rw [hr] at href
      simpa using href
    | inr hr =>
      rw [hr] at href
      simp [exampleResult] at href
  exact href ▸ exampleReference_built

theorem cleanup_retains_recent :
    ∃ db', Retains 1000 (Runs.run step (openStore emptyLegacy) agedRun) db' ∧
      db'.results.length = 1 := by
  obtain ⟨db', h, _⟩ := cleanup_retains (F := ℚ) emptyLegacy (fun _ hr => by cases hr)
    agedRun_built rfl ⟨.table, .table, .table, .table⟩ 1000
  refine ⟨db', h, ?_⟩
  rw [h.results, List.length_map]
  decide +kernel

end

end DnsMonitor.Store.Retention

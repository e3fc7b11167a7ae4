import DnsMonitor.Store.Evidence

namespace DnsMonitor.Store.Reset

open DnsMonitor.Model DnsMonitor.Lib DnsMonitor.Lib.Tables DnsMonitor.Store.Schema
open DnsMonitor.Store.Current DnsMonitor.Store.Rounds DnsMonitor.Store.Override
open DnsMonitor.Store.Cleanup DnsMonitor.Store.Servers DnsMonitor.Store.References
open DnsMonitor.Store.Migration DnsMonitor.Store.Run DnsMonitor.Store.WellFormed
open DnsMonitor.Store.Verdicts DnsMonitor.Store.Evidence
open DnsMonitor.Go.Strings DnsMonitor.Go.Unicode DnsMonitor.Go.Errors DnsMonitor.Go.Float

section

variable {F : Type} {db db' : DB F}

theorem delete_upsertOverride {serverID : Int} {domain type : GoString} {o : Override}
    (h : isAbout serverID domain type o = false) (overrides : List Override) :
    delete (isAbout serverID domain type) (upsertOverride o overrides) =
      upsertOverride o (delete (isAbout serverID domain type) overrides) := by
  have hk : (o.serverID, o.domain, o.type) ≠ (serverID, domain, type) := by
    intro he
    have ho : isAbout serverID domain type o = true := isAbout_iff.mpr he
    rw [h] at ho
    cases ho
  unfold upsertOverride
  rw [any_delete fun _ => isAbout_other hk]
  split_ifs
  · rw [delete_update]
    intro r
    rfl
  · simp [delete, h]

theorem delete_upsert_same (o : Override) (overrides : List Override) :
    delete (isAbout o.serverID o.domain o.type) (upsertOverride o overrides) =
      delete (isAbout o.serverID o.domain o.type) overrides := by
  unfold upsertOverride
  split_ifs
  · rw [delete_update fun _ => by rfl]
    apply update_of_none
    intro p hp
    exact (mem_delete.mp hp).2
  · simp [delete, isAbout]

section

variable [CaseTables]

def speaksOf (serverID : Int) (domain type : GoString) : Event F → Bool
  | .saveOverride now v => isAbout serverID domain type (normalizeOverride now v)
  | _ => false

theorem speaksOf_iff {serverID : Int} {domain type : GoString} {e : Event F} :
    speaksOf serverID domain type e = true ↔ ∃ now v, e = .saveOverride now v ∧
      isAbout serverID domain type (normalizeOverride now v) = true := by
  cases e <;> simp [speaksOf]

def overridesAfter (overrides : List Override) : Event F → List Override
  | .saveOverride now v =>
    let v := normalizeOverride now v
    if v.verdict = str "auto" then delete (isAbout v.serverID v.domain v.type) overrides
    else upsertOverride v overrides
  | .deleteServer id => delete (fun o => o.serverID = id) overrides
  | _ => overrides

theorem overridesAfter_other {serverID : Int} {domain type : GoString} {e : Event F}
    (h : speaksOf serverID domain type e = false) (overrides : List Override) :
    delete (isAbout serverID domain type) (overridesAfter overrides e) =
      overridesAfter (delete (isAbout serverID domain type) overrides) e := by
  cases e with
  | saveOverride now v =>
    simp only [overridesAfter]
    split_ifs
    · exact delete_comm _ _ _
    · exact delete_upsertOverride h overrides
  | deleteServer id => exact delete_comm _ _ _
  | saveRound v => rfl
  | saveConfig c => rfl
  | saveServer now v => rfl
  | importServers now snapshot items => rfl
  | saveTrustedObservation server result => rfl
  | pruneTrustedReferences now hours => rfl
  | cleanup before t => rfl

theorem overridesAfter_same {serverID : Int} {domain type : GoString} {e : Event F}
    (h : speaksOf serverID domain type e = true) (overrides : List Override) :
    delete (isAbout serverID domain type) (overridesAfter overrides e) =
      delete (isAbout serverID domain type) overrides := by
  obtain ⟨now, v, rfl, hv⟩ := speaksOf_iff.mp h
  have hk := isAbout_iff.mp hv
  simp only [overrideKey, Prod.mk.injEq] at hk
  obtain ⟨rfl, rfl, rfl⟩ := hk
  simp only [overridesAfter]
  split_ifs
  · simp only [delete, List.filter_filter, Bool.and_self]
  · exact delete_upsert_same _ _

end

variable [GoFloat F]

theorem rebuildPartial_overrides {before : Int} {ids : List Int}
    (h : rebuildPartial before ids db = .ok db') : db'.overrides = db.overrides := by
  refine rebuildPartial_keeps (P := fun d => d.overrides = db.overrides) ?_ rfl h
  intro id _ d d' hd hround
  cases rebuilt hround with
  | dropped _ => exact hd
  | recounted _ _ _ => exact hd

theorem cleanup_overrides {before : Int} {t : CleanupStep} (h : cleanup before t db = .ok db') :
    db'.overrides = db.overrides := by
  cases t with
  | pruneObservations =>
    injection h with h
    rw [← h]
    rfl
  | pruneReferences ids =>
    obtain rfl := pruneReferences_ok h
    rfl
  | dropRounds ids =>
    injection h with h
    rw [← h]
    rfl
  | pruneResults ids => exact rebuildPartial_overrides h
  | dropAudit ids =>
    injection h with h
    rw [← h]
    rfl

variable [CaseTables]

theorem apply_overrides {e : Event F} (h : apply db e = .ok db') :
    db'.overrides = overridesAfter db.overrides e := by
  cases e with
  | saveConfig c =>
    obtain rfl := saveConfig_ok h
    rfl
  | saveServer now v =>
    cases saveServer_ok h with
    | inl hi =>
      rw [hi.2]
      rfl
    | inr hu =>
      rw [hu.2.2]
      rfl
  | deleteServer id =>
    rw [deleteServer_ok h]
    rfl
  | importServers now snapshot items =>
    simp only [apply, map_eq_ok] at h
    obtain ⟨r, hr, rfl⟩ := h
    exact importServers_invariant (P := fun d => d.overrides = db.overrides) (fun _ _ _ h => h)
      (fun _ _ h => h) rfl hr
  | saveRound v =>
    obtain ⟨_, _, _, snapshots, rfl⟩ := saveRound_ok h
    rfl
  | saveOverride now v =>
    rw [(saveOverride_ok h).2]
    rfl
  | saveTrustedObservation server result =>
    obtain ⟨rows, rfl⟩ := saveTrustedObservation_ok h
    rfl
  | pruneTrustedReferences now hours =>
    obtain ⟨rows, rfl⟩ := pruneTrustedReferences_ok h
    rfl
  | cleanup before t => exact cleanup_overrides h

theorem write_overrides (db : DB F) (e : Event F) :
    (write db e).overrides = overridesAfter db.overrides e := by
  have hstep : ∀ e : Event F, overridesAfter db.overrides e = db.overrides →
      (step db e).overrides = overridesAfter db.overrides e := by
    intro e he
    cases ha : apply db e with
    | error err => rw [step, ha, he]
    | ok db' => rw [step_of_ok ha, apply_overrides ha]
  cases e with
  | saveRound v => rfl
  | saveOverride now v => rfl
  | deleteServer id => rfl
  | saveConfig c => exact hstep _ rfl
  | saveServer now v => exact hstep _ rfl
  | importServers now snapshot items => exact hstep _ rfl
  | saveTrustedObservation server result => exact hstep _ rfl
  | pruneTrustedReferences now hours => exact hstep _ rfl
  | cleanup before t => exact hstep _ rfl

def committed (db : DB F) : List (Event F) → List (Event F)
  | [] => []
  | e :: es =>
    match apply db e with
    | .ok db' => e :: committed db' es
    | .error _ => committed db es

theorem wellFormed_write {e : Event F} (h : WellFormed db)
    (he : ∀ v, e = .saveRound v → 0 < v.finishedAt) : WellFormed (write db e) := by
  apply write_rule
  · exact fun v hv => wellFormed_insertRound h (he v hv)
  · exact fun v => wellFormed_putOverride h v
  · exact fun id => wellFormed_deleteServerRows h id
  · exact step_invariant (fun _ _ _ => wellFormed_apply) db e h

theorem consistent_write (hw : WellFormed db) (h : Consistent db) (e : Event F) :
    Consistent (write db e) := by
  apply write_rule
  · exact fun v _ => consistent_insertRound hw h v
  · exact fun v => consistent_putOverride h v
  · exact fun id => consistent_deleteServerRows hw h id
  · exact (step_invariant consistent_apply db e ⟨hw, h⟩).2

/-- The second database is the first one without what was said about the subject. -/
structure Forgets (serverID : Int) (domain type : GoString) (a b : DB F) : Prop where
  wellFormed : WellFormed b
  consistent : Consistent b
  evidence : evidence a = evidence b
  overrides : b.overrides = delete (isAbout serverID domain type) a.overrides

variable {serverID : Int} {domain type : GoString} {a a' b : DB F}

theorem forgets_apply {e : Event F} (h : Forgets serverID domain type a b)
    (ha : apply a e = .ok a') :
    Forgets serverID domain type a' (if speaksOf serverID domain type e then b else write b e) := by
  obtain ⟨hev, hov⟩ := apply_eq_write ha
  by_cases hs : speaksOf serverID domain type e = true
  · rw [if_pos hs]
    refine ⟨h.wellFormed, h.consistent, ?_, ?_⟩
    · obtain ⟨now, v, rfl, _⟩ := speaksOf_iff.mp hs
      rw [hev, ← h.evidence, write, evidence_putOverride]
    · rw [h.overrides, hov, write_overrides, overridesAfter_same hs]
  · rw [if_neg hs]
    refine ⟨wellFormed_write h.wellFormed ?_, consistent_write h.wellFormed h.consistent e,
      hev.trans (evidence_write h.evidence e), ?_⟩
    · rintro v rfl
      exact (saveRound_ok ha).2.1
    · rw [write_overrides, h.overrides, hov, write_overrides,
        overridesAfter_other (by simpa using hs)]

theorem forgets_run (h : Forgets serverID domain type a b) (es : List (Event F)) :
    Forgets serverID domain type (Runs.run step a es)
      (Runs.run write b ((committed a es).filter (!speaksOf serverID domain type ·))) := by
  induction es generalizing a b with
  | nil => exact h
  | cons e es ih =>
    rw [Runs.run_cons, committed]
    cases ha : apply a e with
    | error err =>
      have hs : step a e = a := by simp [step, ha]
      rw [hs]
      exact ih h
    | ok a' =>
      have hf := ih (forgets_apply h ha)
      rw [step_of_ok ha]
      cases hs : speaksOf serverID domain type e with
      | true => simpa [hs] using hf
      | false => simpa [hs] using hf

/-- The same legacy database without overrides of one subject. -/
def withoutOverride (serverID : Int) (domain type : GoString) (legacy : Legacy F) : Legacy F where
  db :=
    { legacy.db with
      overrides := delete (isAbout serverID domain type) legacy.db.overrides }
  wellFormed :=
    { legacy.wellFormed with
      override_keys := legacy.wellFormed.override_keys.sublist ((delete_sublist _ _).map _) }

omit [GoFloat F] [CaseTables] in
theorem forgets_openStore (serverID : Int) (domain type : GoString) (legacy : Legacy F) :
    Forgets serverID domain type (openStore legacy)
      (openStore (withoutOverride serverID domain type legacy)) where
  wellFormed := wellFormed_migrate (withoutOverride serverID domain type legacy).wellFormed
  consistent := consistent_migrate (withoutOverride serverID domain type legacy).wellFormed
  evidence := by
    simp only [evidence, openStore, migrate, withoutOverride, List.map_map]
    rfl
  overrides := rfl

/-- In every reachable state the verdict of a result is the one of its evidence and of the
override stored for its subject, and a round has the worst verdict of its results. After a reset
of a subject the results and the rounds are those of the same writes, from the same start,
without all that was ever said about the subject. -/
theorem verdicts_follow_overrides (legacy : Legacy F) (es : List (Event F)) :
    (∀ r ∈ (Runs.run step (openStore legacy) es).results, r.effectivePollution =
      effectiveCode r.detectedPollution r.policyVersion
        (verdictOf (Runs.run step (openStore legacy) es).overrides r.serverID r.domain r.type)) ∧
    (∀ q ∈ (Runs.run step (openStore legacy) es).rounds, q.pollution =
      maxOf (·.effectivePollution)
        ((Runs.run step (openStore legacy) es).results.filter (·.roundID = q.id))) ∧
    ∀ now o db', o.verdict = str "auto" →
      saveOverride (Runs.run step (openStore legacy) es) now o = .ok db' →
      let v := normalizeOverride now o
      let never := Runs.run write (openStore (withoutOverride v.serverID v.domain v.type legacy))
        ((committed (openStore legacy) es).filter (!speaksOf v.serverID v.domain v.type ·))
      db'.results = never.results ∧ db'.rounds = never.rounds := by
  have hc := consistent_run legacy es
  refine ⟨hc.result, hc.round, ?_⟩
  intro now o db' ho hs
  have hf := forgets_run (forgets_openStore (normalizeOverride now o).serverID
    (normalizeOverride now o).domain (normalizeOverride now o).type legacy) es
  have hdb := (saveOverride_ok hs).2
  have hreset : Consistent db' := hdb ▸ consistent_putOverride hc _
  apply tables_of_evidence hreset hf.consistent
  · rw [hdb, evidence_putOverride, hf.evidence]
  · rw [hf.overrides, hdb]
    simp only [putOverride]
    rw [if_pos (by exact ho)]

end

section

local instance : CaseTables := asciiTables

def exampleOverride (verdict : GoString) : Override :=
  { serverID := 1, domain := str " example.com", type := str "A", verdict, note := [],
    updatedAt := 0 }

def overriddenRun : List (Event ℚ) :=
  [.saveServer 900 exampleServer,
    .saveRound (exampleRound 1000 [exampleResult true (str "suspicious")]),
    .saveOverride 2000 (exampleOverride (str "clean"))]

theorem verdicts_follow_overrides_reset : ∃ db',
    saveOverride (Runs.run step (openStore emptyLegacy) overriddenRun) 3000
      (exampleOverride (str "auto")) = .ok db' ∧
    let v := normalizeOverride 3000 (exampleOverride (str "auto"))
    let never := Runs.run write (openStore (withoutOverride v.serverID v.domain v.type emptyLegacy))
      ((committed (openStore emptyLegacy) overriddenRun).filter
        (!speaksOf v.serverID v.domain v.type ·))
    db'.results = never.results ∧ db'.rounds = never.rounds := by
  have hok : (saveOverride (Runs.run step (openStore emptyLegacy) overriddenRun) 3000
      (exampleOverride (str "auto"))).toBool = true := by decide +kernel
  cases hs : saveOverride (Runs.run step (openStore emptyLegacy) overriddenRun) 3000
      (exampleOverride (str "auto")) with
  | error e =>
    rw [hs] at hok
    cases hok
  | ok db' =>
    exact ⟨db', rfl, (verdicts_follow_overrides emptyLegacy overriddenRun).2.2 3000 _ db' rfl hs⟩

end

end DnsMonitor.Store.Reset

import DnsMonitor.Store.Verdicts

namespace DnsMonitor.Store.Evidence

open DnsMonitor.Model DnsMonitor.Lib DnsMonitor.Lib.Tables DnsMonitor.Store.Schema
open DnsMonitor.Store.Current DnsMonitor.Store.Rounds DnsMonitor.Store.Override
open DnsMonitor.Store.Cleanup DnsMonitor.Store.Servers DnsMonitor.Store.References
open DnsMonitor.Store.Migration DnsMonitor.Store.Run DnsMonitor.Store.WellFormed
open DnsMonitor.Store.Verdicts
open DnsMonitor.Go.Strings DnsMonitor.Go.Unicode DnsMonitor.Go.Errors DnsMonitor.Go.Float

section

variable {F : Type} {a b db db' : DB F}

def bareRound (q : RoundRow F) : RoundRow F := { q with pollution := 0 }

def bareResult (r : ResultRow F) : ResultRow F := { r with effectivePollution := 0 }

/-- A database without its overrides and all that is derived from them. -/
def evidence (db : DB F) : DB F :=
  { db with
    rounds := db.rounds.map bareRound
    results := db.results.map bareResult
    overrides := []
    overrideAudit := []
    evaluationSnapshots := [] }

theorem results_of_evidence (h : Consistent db) : db.results =
    (evidence db).results.map fun r =>
      { r with effectivePollution := currentCode db.overrides r } := by
  simp only [evidence, List.map_map]
  rw [eq_comm]
  apply (List.map_congr_left _).trans (List.map_id _)
  intro r hr
  simp only [Function.comp_apply, bareResult, id]
  have he := h.result r hr
  rw [currentCode] at he ⊢
  rw [← he]

theorem rounds_of_evidence (h : Consistent db) : db.rounds =
    (evidence db).rounds.map fun q => { q with pollution := worstEffective db.results q.id } := by
  simp only [evidence, List.map_map]
  rw [eq_comm]
  apply (List.map_congr_left _).trans (List.map_id _)
  intro q hq
  simp only [Function.comp_apply, bareRound, id]
  rw [← h.round q hq]

theorem tables_of_evidence (ha : Consistent a) (hb : Consistent b)
    (he : evidence a = evidence b) (ho : a.overrides = b.overrides) :
    a.results = b.results ∧ a.rounds = b.rounds := by
  have hr : a.results = b.results := by
    rw [results_of_evidence ha, results_of_evidence hb, he, ho]
  refine ⟨hr, ?_⟩
  rw [rounds_of_evidence ha, rounds_of_evidence hb, he, hr]

theorem evidence_evidence (db : DB F) : evidence (evidence db) = evidence db := by
  simp only [evidence, List.map_map]
  rfl

theorem evidence_deleteRounds {p : RoundRow F → Bool} (h : ∀ q, p (bareRound q) = p q)
    (db : DB F) : evidence (deleteRounds p db) = deleteRounds p (evidence db) := by
  have hgone : ∀ id, ((db.rounds.map bareRound).any fun q => p q && q.id = id) =
      db.rounds.any fun q => p q && q.id = id := by
    intro id
    rw [List.any_map]
    congr 1
    funext q
    simp only [Function.comp_apply, h]
    rfl
  simp only [evidence, deleteRounds, hgone]
  rw [map_delete h, map_delete
    (q := fun r : ResultRow F => db.rounds.any fun q => p q && q.id = r.roundID) fun _ => by rfl]
  rfl

theorem evidence_deleteServerRows (id : Int) (db : DB F) :
    evidence (deleteServerRows id db) = deleteServerRows id (evidence db) := by
  have hd := evidence_deleteRounds (p := fun q : RoundRow F => q.serverID = id)
    (fun _ => rfl) db
  simp only [deleteServerRows, ← hd]
  simp only [evidence]
  rw [map_delete (q := fun r : ResultRow F => r.serverID = id) fun _ => by rfl]
  rfl

theorem evidence_putOverride (db : DB F) (v : Override) :
    evidence (putOverride db v) = evidence db := by
  simp only [evidence]
  rw [putOverride_rounds fun _ _ => by rfl, putOverride_results fun _ _ => by rfl]
  rfl

theorem bare_formal (serverID : Int) (rounds : List (RoundRow F)) :
    formal serverID (rounds.map bareRound) = (formal serverID rounds).map bareRound := by
  simp only [formal]
  rw [List.filter_map]
  rfl

theorem bare_coveredUntil (rounds : List (RoundRow F)) (v : Round F) :
    coveredUntil (rounds.map bareRound) v = coveredUntil rounds v := by
  simp only [coveredUntil, bare_formal, List.map_map]
  rfl

theorem bare_predecessor (roundID : Int) (v : Round F) (rounds : List (RoundRow F)) :
    predecessor roundID v (rounds.map bareRound) =
      (predecessor roundID v rounds).map bareRound := by
  simp only [predecessor, bare_formal]
  rw [List.filter_map, latest_map (k := timeKey) (m := timeKey) fun _ => by rfl]
  rfl

theorem bare_truncatePredecessor (roundID : Int) (v : Round F) (rounds : List (RoundRow F)) :
    (truncatePredecessor roundID v rounds).map bareRound =
      truncatePredecessor roundID v (rounds.map bareRound) := by
  rw [truncatePredecessor, truncatePredecessor, bare_predecessor]
  cases predecessor roundID v rounds with
  | none => rfl
  | some q =>
    apply map_update_comm
    · intro r
      rfl
    · intro r
      rfl

theorem bare_resultRows [CaseTables] [GoFloat F] (overrides overrides' : List Override)
    (roundID seq : Int) (v : Round F) (rs : List (ProbeResult F)) :
    (resultRows overrides roundID v seq rs).map bareResult =
      (resultRows overrides' roundID v seq rs).map bareResult := by
  induction rs generalizing seq with
  | nil => rfl
  | cons r rs ih =>
    rw [resultRows, resultRows, List.map_cons, List.map_cons, ih]
    rfl

theorem newRoundID_evidence (db : DB F) : newRoundID (evidence db) = newRoundID db := by
  simp only [newRoundID, evidence, List.map_map]
  rfl

/-- Two outcomes that leave the same evidence, or fail alike. -/
def SameOutcome (x y : Except StoreError (DB F)) : Prop := x.map evidence = y.map evidence

theorem sameOutcome_bind {x y : Except StoreError (DB F)} {f g : DB F → Except StoreError (DB F)}
    (h : SameOutcome x y)
    (hf : ∀ a b, evidence a = evidence b → SameOutcome (f a) (g b)) :
    SameOutcome (x >>= f) (y >>= g) := by
  cases x with
  | error e =>
    cases y with
    | error e' => simpa [SameOutcome, Except.map, bind, Except.bind] using h
    | ok b => simp [SameOutcome, Except.map] at h
  | ok a =>
    cases y with
    | error e' => simp [SameOutcome, Except.map] at h
    | ok b => exact hf a b (by simpa [SameOutcome, Except.map] using h)

theorem evidence_pruneReferences (before : Int) (ids : List Int) (db : DB F) :
    (pruneReferences before ids db).map evidence = pruneReferences before ids (evidence db) := by
  have hc : (∀ r ∈ (evidence db).results, hasOldReference before (ids.take 250) r = true →
        r.rawJSON.isSome = true) ↔
      ∀ r ∈ db.results, hasOldReference before (ids.take 250) r = true →
        r.rawJSON.isSome = true := by
    simp only [evidence, List.forall_mem_map]
    rfl
  simp only [pruneReferences, require, hc]
  split_ifs
  · simp only [bind, Except.bind, pure, Except.pure, Except.map, evidence]
    rw [map_update_comm (q := hasOldReference before (ids.take 250)) (u := prunedResult before)
      (fun _ => by rfl) fun _ => by rfl]
  · rfl

theorem evidence_deleteResults {p : ResultRow F → Bool} (h : ∀ r, p (bareResult r) = p r)
    (db : DB F) : evidence { db with results := delete p db.results } =
      { evidence db with results := delete p (evidence db).results } := by
  simp only [evidence]
  rw [map_delete h]

theorem partialRounds_evidence (before : Int) (ids : List Int) (db : DB F) :
    partialRounds before ids (evidence db) = partialRounds before ids db := by
  simp only [partialRounds, evidence, List.any_map]
  rfl

theorem evidence_view : ServerView (evidence (F := F)) where
  servers _ := rfl
  serverSeq _ := rfl
  insert _ _ _ := rfl
  update _ _ := rfl

theorem evidence_saveTrustedObservation [CaseTables] (db : DB F) (server : Server)
    (result : ProbeResult F) : evidence (saveTrustedObservation db server result) =
      saveTrustedObservation (evidence db) server result :=
  saveTrustedObservation_commutes (g := evidence) (fun _ => rfl) (fun _ => rfl) (fun _ _ => rfl)
    db server result

end

section

variable {F : Type} [GoFloat F] {a b db db' : DB F}

theorem evidence_insertRound [CaseTables] (db : DB F) (v : Round F) :
    evidence (insertRound db v) = evidence (insertRound (evidence db) v) := by
  have hid := newRoundID_evidence db
  have hround : bareRound (newRound (evidence db) v) = bareRound (newRound db v) := by
    simp only [newRound, roundRow, bareRound, hid]
    simp only [evidence, bare_coveredUntil]
  have hrounds : (evidence db).rounds.map bareRound = db.rounds.map bareRound := by
    simp only [evidence, List.map_map]
    rfl
  have hresults : (newResults (evidence db) v).map bareResult =
      (newResults db v).map bareResult := by
    rw [newResults, hid]
    exact bare_resultRows _ _ _ _ _ _
  have hold : (evidence db).results.map bareResult = db.results.map bareResult := by
    simp only [evidence, List.map_map]
    rfl
  have hinsert : (insertRound (evidence db) v).rounds.map bareRound =
      (insertRound db v).rounds.map bareRound := by
    simp only [insertRound, hid]
    by_cases ha : v.auxiliary = true
    · rw [if_pos ha, if_pos ha, List.map_append, List.map_append, hrounds]
      simp [hround]
    · rw [if_neg ha, if_neg ha, bare_truncatePredecessor, bare_truncatePredecessor,
        List.map_append, List.map_append, hrounds]
      simp [hround]
  rw [evidence, evidence, hinsert]
  simp only [insertRound, List.map_append, hresults, hold, hid]
  rfl

theorem bare_recountedRound (left : List (ResultRow F)) (raw : List (ProbeResult F))
    (q : RoundRow F) : bareRound (recountedRound (left.map bareResult) raw q) =
      bareRound (recountedRound left raw q) := by
  simp [bareRound, recountedRound]

theorem bare_recount (id : Int) (left : List (ResultRow F)) (raw : List (ProbeResult F))
    (rounds : List (RoundRow F)) :
    (update (·.id = id) (recountedRound left raw) rounds).map bareRound =
      update (·.id = id) (fun q => bareRound (recountedRound left raw q))
        (rounds.map bareRound) := by
  apply map_update_comm
  · intro q
    rfl
  · intro q
    rfl

theorem evidence_rebuildRound (id : Int) (db : DB F) :
    SameOutcome (rebuildRound id db) (rebuildRound id (evidence db)) := by
  have hleft : (evidence db).results.filter (·.roundID = id) =
      (db.results.filter (·.roundID = id)).map bareResult := by
    simp only [evidence]
    rw [List.filter_map]
    rfl
  have hraw : ∀ l : List (ResultRow F), (l.map bareResult).mapM (·.rawJSON) =
      l.mapM (·.rawJSON) := fun _ => List.mapM_map
  simp only [SameOutcome, rebuildRound, hleft, hraw]
  cases (db.results.filter (·.roundID = id)).mapM (·.rawJSON) with
  | none => rfl
  | some raw =>
    simp only [List.map_eq_nil_iff]
    split_ifs
    · simp only [Except.map, evidence_deleteRounds (p := fun q : RoundRow F => q.id = id)
        fun _ => by rfl]
      rw [evidence_evidence]
    · simp only [Except.map, evidence]
      rw [bare_recount, bare_recount, List.map_map, List.map_map]
      simp only [bare_recountedRound]
      rfl

theorem sameOutcome_rebuildRound {id : Int} (h : evidence a = evidence b) :
    SameOutcome (rebuildRound id a) (rebuildRound id b) := by
  have ha := evidence_rebuildRound id a
  have hb := evidence_rebuildRound id b
  rw [h] at ha
  exact ha.trans hb.symm

theorem sameOutcome_rebuildPartial {before : Int} (ids : List Int) (h : evidence a = evidence b) :
    SameOutcome (rebuildPartial before ids a) (rebuildPartial before ids b) := by
  induction ids generalizing a b with
  | nil => simpa [SameOutcome, rebuildPartial, Except.map] using h
  | cons id ids ih =>
    apply sameOutcome_bind
    · apply sameOutcome_rebuildRound
      rw [evidence_deleteResults fun _ => by rfl, h, ← evidence_deleteResults fun _ => by rfl]
    · intro a b h
      exact ih h

theorem sameOutcome_cleanup {before : Int} {t : CleanupStep} (h : evidence a = evidence b) :
    SameOutcome (cleanup before t a) (cleanup before t b) := by
  cases t with
  | pruneObservations =>
    have hp : ∀ db : DB F, evidence (pruneObservations before db) =
        pruneObservations before (evidence db) := fun _ => rfl
    simp only [SameOutcome, cleanup, Except.map, hp, h]
  | pruneReferences ids =>
    simp only [SameOutcome, cleanup, evidence_pruneReferences, h]
  | dropRounds ids =>
    simp only [SameOutcome, cleanup, Except.map, dropRounds]
    rw [evidence_deleteRounds fun _ => by rfl, evidence_deleteRounds fun _ => by rfl, h]
  | pruneResults ids =>
    simp only [cleanup, pruneResults]
    rw [← partialRounds_evidence, h, partialRounds_evidence]
    exact sameOutcome_rebuildPartial _ h
  | dropAudit ids =>
    have hp : ∀ db : DB F, evidence (dropAudit before ids db) = evidence db := fun _ => rfl
    simp only [SameOutcome, cleanup, Except.map, hp, h]

variable [CaseTables]

/-- What a call writes, whether or not its checks would refuse it. The snapshot of a round is
left out: nothing depends on it. -/
def write (db : DB F) : Event F → DB F
  | .saveRound v => insertRound db v
  | .saveOverride now v => putOverride db (normalizeOverride now v)
  | .deleteServer id => deleteServerRows id db
  | e => step db e

theorem write_cases (e : Event F) : (∃ v, e = .saveRound v) ∨ (∃ now v, e = .saveOverride now v) ∨
    (∃ id, e = .deleteServer id) ∨ ∀ db, write db e = step db e := by
  cases e <;> simp [write]

/-- A property that holds after the three writes without a check and after a step. -/
theorem write_rule {P : DB F → Prop} {e : Event F} (hround : ∀ v, e = .saveRound v →
      P (insertRound db v)) (hoverride : ∀ v, P (putOverride db v))
    (hdelete : ∀ id, P (deleteServerRows id db)) (hstep : P (step db e)) : P (write db e) := by
  obtain ⟨v, rfl⟩ | ⟨now, v, rfl⟩ | ⟨id, rfl⟩ | he := write_cases e
  · exact hround v rfl
  · exact hoverride _
  · exact hdelete id
  · exact he db ▸ hstep

theorem evidence_step {e : Event F} (h : evidence a = evidence b)
    (hs : SameOutcome (apply a e) (apply b e)) : evidence (step a e) = evidence (step b e) := by
  simp only [step]
  cases ha : apply a e with
  | error err =>
    cases hb : apply b e with
    | error err' => exact h
    | ok b' => simp [SameOutcome, ha, hb, Except.map] at hs
  | ok a' =>
    cases hb : apply b e with
    | error err' => simp [SameOutcome, ha, hb, Except.map] at hs
    | ok b' => simpa [SameOutcome, ha, hb, Except.map] using hs

theorem evidence_write (h : evidence a = evidence b) (e : Event F) :
    evidence (write a e) = evidence (write b e) := by
  cases e with
  | saveConfig c =>
    apply evidence_step h
    have hp : ∀ db : DB F, (saveConfig db c).map evidence = saveConfig (evidence db) c := by
      intro db
      simp only [saveConfig, exceptMap_bind]
      rfl
    simp only [SameOutcome, apply, hp, h]
  | saveServer now v =>
    apply evidence_step h
    simp only [SameOutcome, apply, saveServer_view evidence_view, h]
  | deleteServer id =>
    simp only [write, evidence_deleteServerRows, h]
  | importServers now snapshot items =>
    apply evidence_step h
    simp only [SameOutcome, apply, importServers_view evidence_view, h]
  | saveRound v =>
    simp only [write]
    rw [evidence_insertRound, h, ← evidence_insertRound]
  | saveOverride now v => simpa only [write, evidence_putOverride] using h
  | saveTrustedObservation server result =>
    apply evidence_step h
    simp only [SameOutcome, apply, Except.map, evidence_saveTrustedObservation, h]
  | pruneTrustedReferences now hours =>
    apply evidence_step h
    have hp : ∀ db : DB F, evidence (pruneTrustedReferences now hours db) =
        pruneTrustedReferences now hours (evidence db) := fun _ => rfl
    simp only [SameOutcome, apply, Except.map, hp, h]
  | cleanup before t =>
    apply evidence_step h
    exact sameOutcome_cleanup h

theorem apply_eq_write {e : Event F} (h : apply db e = .ok db') :
    evidence db' = evidence (write db e) ∧ db'.overrides = (write db e).overrides := by
  obtain ⟨v, rfl⟩ | ⟨now, v, rfl⟩ | ⟨id, rfl⟩ | he := write_cases e
  · obtain ⟨_, _, _, snapshots, rfl⟩ := saveRound_ok h
    exact ⟨rfl, rfl⟩
  · rw [(saveOverride_ok h).2]
    exact ⟨rfl, rfl⟩
  · rw [deleteServer_ok h]
    exact ⟨rfl, rfl⟩
  · rw [he, step_of_ok h]
    exact ⟨rfl, rfl⟩

end

end DnsMonitor.Store.Evidence

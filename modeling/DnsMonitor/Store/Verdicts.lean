import DnsMonitor.Store.WellFormed

namespace DnsMonitor.Store.Verdicts

open DnsMonitor.Model DnsMonitor.Lib DnsMonitor.Lib.Tables DnsMonitor.Store.Schema
open DnsMonitor.Store.Current DnsMonitor.Store.Rounds DnsMonitor.Store.Override
open DnsMonitor.Store.Cleanup DnsMonitor.Store.Servers DnsMonitor.Store.References
open DnsMonitor.Store.Migration DnsMonitor.Store.Run DnsMonitor.Store.WellFormed
open DnsMonitor.Go.Strings DnsMonitor.Go.Unicode DnsMonitor.Go.Errors DnsMonitor.Go.Float

section

variable {serverID s : Int} {domain type d t : GoString} {overrides : List Override}

theorem isAbout_iff {o : Override} : isAbout serverID domain type o = true ↔
    overrideKey o = (serverID, domain, type) := by
  simp [isAbout, overrideKey, and_assoc]

theorem isAbout_other {o : Override} (h : (s, d, t) ≠ (serverID, domain, type))
    (ho : isAbout s d t o = true) : isAbout serverID domain type o = false := by
  rw [isAbout_iff] at ho
  rw [← Bool.not_eq_true, isAbout_iff, ho]
  exact h

theorem verdictOf_delete (serverID : Int) (domain type : GoString) (overrides : List Override) :
    verdictOf (delete (isAbout serverID domain type) overrides) serverID domain type = [] := by
  have hn : (delete (isAbout serverID domain type) overrides).find?
      (isAbout serverID domain type) = none := by
    rw [List.find?_eq_none]
    intro o ho
    simp [(mem_delete.mp ho).2]
  rw [verdictOf, hn]

theorem verdictOf_delete_other (h : (s, d, t) ≠ (serverID, domain, type))
    (overrides : List Override) :
    verdictOf (delete (isAbout serverID domain type) overrides) s d t = verdictOf overrides s d t := by
  rw [verdictOf, find_delete fun _ => isAbout_other h, verdictOf]

theorem verdictOf_deleteServer (h : s ≠ serverID) (overrides : List Override) :
    verdictOf (delete (fun o => o.serverID = serverID) overrides) s d t =
      verdictOf overrides s d t := by
  rw [verdictOf, find_delete, verdictOf]
  intro o ho
  have hs : o.serverID = s := congrArg Prod.fst (isAbout_iff.mp ho)
  simpa [hs] using h

theorem verdictOf_eq (overrides : List Override) : verdictOf overrides serverID domain type =
    ((overrides.find? (isAbout serverID domain type)).map (·.verdict)).getD [] := by
  rw [verdictOf]
  cases overrides.find? (isAbout serverID domain type) <;> rfl

theorem verdictOf_upsert (o : Override) (overrides : List Override) :
    verdictOf (upsertOverride o overrides) o.serverID o.domain o.type = o.verdict := by
  rw [verdictOf_eq, upsertOverride]
  by_cases ha : overrides.any (isAbout o.serverID o.domain o.type) = true
  · rw [if_pos ha, find_update fun _ => by rfl]
    cases hf : overrides.find? (isAbout o.serverID o.domain o.type) with
    | none =>
      obtain ⟨p, hp, hk⟩ := List.any_eq_true.mp ha
      exact absurd hk (List.find?_eq_none.mp hf p hp)
    | some p => simp [List.find?_some hf]
  · rw [if_neg ha, List.find?_append]
    have hn : overrides.find? (isAbout o.serverID o.domain o.type) = none := by
      rw [List.find?_eq_none]
      exact fun p hp hk => ha (List.any_eq_true.mpr ⟨p, hp, hk⟩)
    rw [hn]
    simp [isAbout]

theorem verdictOf_upsert_other {o : Override} (h : (s, d, t) ≠ (o.serverID, o.domain, o.type))
    (overrides : List Override) :
    verdictOf (upsertOverride o overrides) s d t = verdictOf overrides s d t := by
  rw [verdictOf_eq, verdictOf_eq, upsertOverride]
  by_cases ha : overrides.any (isAbout o.serverID o.domain o.type) = true
  · rw [if_pos ha, find_update fun _ => by rfl]
    cases hf : overrides.find? (isAbout s d t) with
    | none => rfl
    | some p => simp [isAbout_other h (List.find?_some hf)]
  · have hn : isAbout s d t o = false := by
      rw [← Bool.not_eq_true, isAbout_iff]
      exact Ne.symm h
    rw [if_neg ha, List.find?_append, List.find?_singleton, hn]
    simp

end

section

variable {F : Type} {db db' : DB F}

/-- The verdict of a result under the overrides stored for its subject. -/
def currentCode (overrides : List Override) (r : ResultRow F) : Nat :=
  effectiveCode r.detectedPollution r.policyVersion
    (verdictOf overrides r.serverID r.domain r.type)

structure Consistent (db : DB F) : Prop where
  result : ∀ r ∈ db.results, r.effectivePollution = currentCode db.overrides r
  round : ∀ q ∈ db.rounds, q.pollution = worstEffective db.results q.id

theorem hasVerdict_iff {overrides : List Override} (h : (overrides.map overrideKey).Nodup)
    {verdict : GoString} (hv : verdict ≠ []) {r : ResultRow F} :
    hasVerdict overrides verdict r = true ↔
      verdictOf overrides r.serverID r.domain r.type = verdict := by
  rw [hasVerdict, List.any_eq_true, verdictOf]
  cases hf : overrides.find? (isAbout r.serverID r.domain r.type) with
  | none =>
    have hn := List.find?_eq_none.mp hf
    constructor
    · rintro ⟨o, ho, hk⟩
      simp only [Bool.and_eq_true] at hk
      exact absurd hk.1 (hn o ho)
    · exact fun he => absurd he.symm hv
  | some p =>
    have hp := List.mem_of_find?_eq_some hf
    have hkp := List.find?_some hf
    constructor
    · rintro ⟨o, ho, hk⟩
      simp only [Bool.and_eq_true, decide_eq_true_eq] at hk
      have he : overrideKey o = overrideKey p :=
        (isAbout_iff.mp hk.1).trans (isAbout_iff.mp hkp).symm
      rw [← List.inj_on_of_nodup_map h ho hp he]
      exact hk.2
    · exact fun he => ⟨p, hp, by simp [hkp, he]⟩

theorem migratedEffective_eq {overrides : List Override}
    (h : (overrides.map overrideKey).Nodup) {r : ResultRow F} (hp : r.policyVersion = 0) :
    migratedEffective overrides r = currentCode overrides r := by
  have hne : str "polluted" ≠ str "clean" := by decide
  simp only [migratedEffective, currentCode, effectiveCode, hp,
    hasVerdict_iff h (by decide : str "polluted" ≠ []),
    hasVerdict_iff h (by decide : str "clean" ≠ [])]
  by_cases hv : verdictOf overrides r.serverID r.domain r.type = str "polluted"
  · simp [hv, hne]
  · simp [hv]

theorem consistent_migrate (h : WellFormed db) : Consistent (migrate db) where
  result r hr := by
    simp only [migrate, List.mem_map] at hr
    obtain ⟨_, ⟨_, ⟨r, _, rfl⟩, rfl⟩, rfl⟩ := hr
    exact migratedEffective_eq h.override_keys rfl
  round q hq := by
    simp only [migrate, List.mem_map] at hq
    obtain ⟨q, _, rfl⟩ := hq
    rfl

theorem worstEffective_congr {results results' : List (ResultRow F)} {id : Int}
    (h : results'.filter (·.roundID = id) = results.filter (·.roundID = id)) :
    worstEffective results' id = worstEffective results id := by
  rw [worstEffective, h, worstEffective]

theorem consistent_deleteRounds (hw : WellFormed db) (h : Consistent db)
    (p : RoundRow F → Bool) : Consistent (deleteRounds p db) where
  result r hr := h.result r (mem_delete.mp hr).1
  round q hq := by
    obtain ⟨hq, hp⟩ := mem_delete.mp hq
    rw [h.round q hq]
    symm
    apply worstEffective_congr
    apply filter_delete
    intro r _ hid
    rw [List.any_eq_false]
    intro g hg hgone
    simp only [Bool.and_eq_true, decide_eq_true_eq] at hgone hid
    have he : g.id = q.id := hgone.2.trans hid
    have hgq := List.inj_on_of_nodup_map hw.round_ids hg hq he
    rw [hgq, hp] at hgone
    simp at hgone

theorem consistent_deleteServerRows (hw : WellFormed db) (h : Consistent db) (id : Int) :
    Consistent (deleteServerRows id db) where
  result r hr := by
    obtain ⟨hr, hid⟩ := mem_delete.mp hr
    rw [h.result r (mem_delete.mp hr).1]
    rw [currentCode, currentCode, deleteServerRows, verdictOf_deleteServer (by simpa using hid)]
    rfl
  round q hq := by
    have hd := consistent_deleteRounds hw h fun r => r.serverID = id
    rw [hd.round q hq]
    symm
    apply worstEffective_congr
    apply filter_delete
    intro r hr hid
    obtain ⟨hq, hp⟩ := mem_delete.mp hq
    rw [owner_of_result hw hq (mem_delete.mp hr).1 (by simpa using hid)]
    exact hp

theorem isOf_iff {serverID : Int} {domain type : GoString} {r : ResultRow F} :
    isOf serverID domain type r = true ↔
      (r.serverID, r.domain, r.type) = (serverID, domain, type) := by
  simp [isOf, and_assoc]

theorem putOverride_verdict (db : DB F) (v : Override) (r : ResultRow F) :
    verdictOf (putOverride db v).overrides r.serverID r.domain r.type =
      if isOf v.serverID v.domain v.type r then if v.verdict = str "auto" then [] else v.verdict
      else verdictOf db.overrides r.serverID r.domain r.type := by
  simp only [putOverride]
  by_cases hr : isOf v.serverID v.domain v.type r = true
  · obtain ⟨hs, hd, ht⟩ : r.serverID = v.serverID ∧ r.domain = v.domain ∧ r.type = v.type := by
      simpa using isOf_iff.mp hr
    rw [if_pos hr, hs, hd, ht]
    by_cases hv : v.verdict = str "auto"
    · rw [if_pos hv, if_pos hv, verdictOf_delete]
    · rw [if_neg hv, if_neg hv, verdictOf_upsert]
  · rw [if_neg hr]
    rw [isOf_iff] at hr
    by_cases hv : v.verdict = str "auto"
    · rw [if_pos hv, verdictOf_delete_other hr]
    · rw [if_neg hv, verdictOf_upsert_other hr]

/-- The statement on the results computes what the function for new results does. -/
theorem overriddenCode_eq (verdict : GoString) (r : ResultRow F) : overriddenCode verdict r =
    effectiveCode r.detectedPollution r.policyVersion
      (if verdict = str "auto" then [] else verdict) := by
  have hclean : str "auto" ≠ str "clean" := by decide
  have hpolluted : str "auto" ≠ str "polluted" := by decide
  have hnone : [] ≠ str "clean" ∧ [] ≠ str "polluted" := by decide
  by_cases hv : verdict = str "auto"
  · simp [overriddenCode, effectiveCode, hv, hclean, hpolluted, hnone]
  · simp [overriddenCode, effectiveCode, hv]

theorem consistent_putOverride (h : Consistent db) (v : Override) :
    Consistent (putOverride db v) where
  result r hr := by
    obtain ⟨q, hq, hqr⟩ := mem_update.mp hr
    rw [currentCode, putOverride_verdict]
    by_cases ho : isOf v.serverID v.domain v.type q = true
    · rw [if_pos ho] at hqr
      subst hqr
      rw [if_pos (by exact ho)]
      exact overriddenCode_eq v.verdict q
    · rw [if_neg ho] at hqr
      subst hqr
      rw [if_neg ho]
      exact h.result q hq
  round q hq := by
    obtain ⟨g, hg, hgq⟩ := mem_update.mp hq
    split_ifs at hgq with hany
    · subst hgq
      rfl
    · subst hgq
      rw [h.round g hg]
      -- none of the round's results is about the subject, so none of them changed
      simp only [putOverride, worstEffective]
      rw [filter_update fun _ => by rfl, update_of_none]
      intro r hr
      obtain ⟨hr, hid⟩ := List.mem_filter.mp hr
      by_contra ho
      apply hany
      rw [List.any_eq_true]
      refine ⟨_, List.mem_map_of_mem hr, ?_⟩
      rw [Bool.not_eq_false] at ho
      rw [if_pos ho, Bool.and_eq_true]
      exact ⟨ho, hid⟩

theorem worstEffective_append (l m : List (ResultRow F)) (id : Int) :
    worstEffective (l ++ m) id = max (worstEffective l id) (worstEffective m id) := by
  rw [worstEffective, List.filter_append, maxOf_append, worstEffective, worstEffective]

theorem worstEffective_none {results : List (ResultRow F)} {id : Int}
    (h : ∀ r ∈ results, r.roundID ≠ id) : worstEffective results id = 0 := by
  have hn : results.filter (·.roundID = id) = [] := by
    rw [List.filter_eq_nil_iff]
    intro r hr
    simpa using h r hr
  rw [worstEffective, hn, maxOf_nil]

theorem worstEffective_all {results : List (ResultRow F)} {id : Int}
    (h : ∀ r ∈ results, r.roundID = id) :
    worstEffective results id = maxOf (·.effectivePollution) results := by
  rw [worstEffective, List.filter_eq_self.mpr]
  intro r hr
  simpa using h r hr

theorem consistent_deleteResults_other (h : Consistent db) (p : ResultRow F → Bool)
    {q : RoundRow F} (hq : q ∈ db.rounds) (hp : ∀ r, p r = true → r.roundID ≠ q.id) :
    q.pollution = worstEffective (delete p db.results) q.id := by
  rw [h.round q hq]
  symm
  apply worstEffective_congr
  apply filter_delete
  intro r _ hid
  cases hpr : p r with
  | false => rfl
  | true => exact absurd (by simpa using hid) (hp r hpr)

theorem consistent_pruneReferences {before : Int} {ids : List Int} (h : Consistent db)
    (hs : pruneReferences before ids db = .ok db') : Consistent db' := by
  obtain rfl := pruneReferences_ok hs
  constructor
  · intro r hr
    obtain ⟨q, hq, rfl⟩ := mem_update.mp hr
    have he := h.result q hq
    split_ifs
    · exact he
    · exact he
  · intro q hq
    rw [h.round q hq]
    exact (maxOf_update (fun _ => by rfl) (fun _ => by rfl) _).symm

end

section

variable {F : Type} [GoFloat F] {db db' : DB F}

theorem consistent_insertRound [CaseTables] (hw : WellFormed db) (h : Consistent db)
    (v : Round F) : Consistent (insertRound db v) where
  result r hr := by
    cases List.mem_append.mp hr with
    | inl hr => exact h.result r hr
    | inr hr =>
      obtain ⟨_, _, _, rfl⟩ := mem_resultRows hr
      rfl
  round q hq := by
    have hnew : ∀ r ∈ newResults db v, r.roundID = newRoundID db := fun r hr =>
      roundID_newResults hr
    have hold : ∀ r ∈ db.results, r.roundID ≠ newRoundID db := fun r hr => roundID_ne_new hw hr
    have hmem : (q.id, q.pollution) ∈ (insertRound db v).rounds.map fun q => (q.id, q.pollution) :=
      List.mem_map_of_mem hq
    rw [insertRound_map fun _ _ => by rfl, List.mem_append, List.mem_singleton] at hmem
    simp only [insertRound]
    rw [worstEffective_append]
    cases hmem with
    | inl hg =>
      obtain ⟨g, hg, he⟩ := List.mem_map.mp hg
      obtain ⟨hid, hp⟩ := Prod.mk.inj he
      have hlt := newRoundID_fresh hg
      have hne : ∀ r ∈ newResults db v, r.roundID ≠ q.id := by
        intro r hr
        rw [hnew r hr]
        omega
      rw [worstEffective_none hne, Nat.max_zero, ← hp, ← hid, h.round g hg]
    | inr he =>
      obtain ⟨hid, hp⟩ := Prod.mk.inj he
      have hid : q.id = newRoundID db := hid
      rw [hp, hid, worstEffective_none hold, worstEffective_all hnew, Nat.zero_max]
      rfl

theorem consistent_rebuildRound {before id : Int} (h : Consistent db)
    (hs : rebuildRound id
      { db with results := delete (fun r => r.roundID = id && r.timestamp < before) db.results } =
        .ok db') : Consistent db' := by
  have hother : ∀ q ∈ db.rounds, q.id ≠ id → q.pollution =
      worstEffective (delete (fun r => r.roundID = id && r.timestamp < before) db.results) q.id := by
    intro q hq hne
    apply consistent_deleteResults_other h _ hq
    intro r hr
    simp only [Bool.and_eq_true, decide_eq_true_eq] at hr
    omega
  cases rebuilt hs with
  | dropped _ =>
    constructor
    · intro r hr
      exact h.result r (mem_delete.mp (mem_delete.mp hr).1).1
    · intro q hq
      obtain ⟨hq, hid⟩ := mem_delete.mp hq
      have hne : q.id ≠ id := by simpa using hid
      rw [hother q hq hne]
      symm
      apply worstEffective_congr
      apply filter_delete
      intro r hr hrid
      rw [List.any_eq_false]
      intro g _ hgone
      simp only [Bool.and_eq_true, decide_eq_true_eq] at hgone hrid
      omega
  | recounted _ _ _ =>
    constructor
    · intro r hr
      exact h.result r (mem_delete.mp hr).1
    · intro q hq
      obtain ⟨g, hg, rfl⟩ := mem_update.mp hq
      split_ifs with hid
      · have hid : g.id = id := by simpa using hid
        rw [← hid]
        rfl
      · exact hother g hg (by simpa using hid)

theorem consistent_rebuildPartial {before : Int} {ids : List Int} (h : Consistent db)
    (hs : rebuildPartial before ids db = .ok db') : Consistent db' :=
  rebuildPartial_keeps (fun _ _ _ _ hd hround => consistent_rebuildRound hd hround) h hs

theorem consistent_cleanup {before : Int} {t : CleanupStep} (hw : WellFormed db)
    (h : Consistent db) (hs : cleanup before t db = .ok db') : Consistent db' := by
  cases t with
  | pruneObservations =>
    injection hs with hs
    exact hs ▸ { h with }
  | pruneReferences ids => exact consistent_pruneReferences h hs
  | dropRounds ids =>
    injection hs with hs
    exact hs ▸ consistent_deleteRounds hw h _
  | pruneResults ids => exact consistent_rebuildPartial h hs
  | dropAudit ids =>
    injection hs with hs
    exact hs ▸ { h with }

theorem consistent_saveRound [CaseTables] {v : Round F} (hw : WellFormed db) (h : Consistent db)
    (hs : saveRound db v = .ok db') : Consistent db' := by
  obtain ⟨_, _, _, snapshots, rfl⟩ := saveRound_ok hs
  exact { consistent_insertRound hw h v with }

theorem consistent_apply [CaseTables] (db db' : DB F) (e : Event F)
    (h : WellFormed db ∧ Consistent db) (hs : apply db e = .ok db') :
    WellFormed db' ∧ Consistent db' := by
  refine ⟨wellFormed_apply h.1 hs, ?_⟩
  obtain ⟨hw, h⟩ := h
  cases e with
  | saveConfig c =>
    obtain rfl := saveConfig_ok hs
    exact { h with }
  | saveServer now v =>
    cases saveServer_ok hs with
    | inl hi => exact hi.2 ▸ { h with }
    | inr hu => exact hu.2.2 ▸ { h with }
  | deleteServer id => exact deleteServer_ok hs ▸ consistent_deleteServerRows hw h id
  | importServers now snapshot items =>
    simp only [apply, map_eq_ok] at hs
    obtain ⟨r, hr, rfl⟩ := hs
    exact importServers_invariant (P := Consistent) (fun _ _ _ h => { h with })
      (fun _ _ h => { h with }) h hr
  | saveRound v => exact consistent_saveRound hw h hs
  | saveOverride now v => exact (saveOverride_ok hs).2 ▸ consistent_putOverride h _
  | saveTrustedObservation server result =>
    obtain ⟨rows, rfl⟩ := saveTrustedObservation_ok hs
    exact { h with }
  | pruneTrustedReferences now hours =>
    obtain ⟨rows, rfl⟩ := pruneTrustedReferences_ok hs
    exact { h with }
  | cleanup before t => exact consistent_cleanup hw h hs

/-- Both columns are right in every state the program can reach. -/
theorem consistent_run [CaseTables] (legacy : Legacy F) (es : List (Event F)) :
    Consistent (Runs.run step (openStore legacy) es) := by
  have hstart : WellFormed (openStore legacy) ∧ Consistent (openStore legacy) :=
    ⟨wellFormed_migrate legacy.wellFormed, consistent_migrate legacy.wellFormed⟩
  exact (Runs.run_invariant (step_invariant consistent_apply) hstart es).2

end

end DnsMonitor.Store.Verdicts

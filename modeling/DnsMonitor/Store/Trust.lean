import DnsMonitor.Store.WellFormed
import Mathlib.Data.Int.ConditionallyCompleteOrder
import Mathlib.Order.WithBot

namespace DnsMonitor.Store.Trust

open DnsMonitor.Model DnsMonitor.Lib DnsMonitor.Lib.Tables DnsMonitor.Store.Schema
open DnsMonitor.Store.Current DnsMonitor.Store.Rounds DnsMonitor.Store.Override
open DnsMonitor.Store.Cleanup DnsMonitor.Store.Servers DnsMonitor.Store.References
open DnsMonitor.Store.Migration DnsMonitor.Store.Run DnsMonitor.Store.WellFormed
open DnsMonitor.Go.Strings DnsMonitor.Go.Unicode DnsMonitor.Go.Errors DnsMonitor.Go.Float

section

variable {F : Type} {db db' db'' : DB F}

/-- What an answer of a server depends on. -/
def sourceOf (id : Int) (db : DB F) : Option (Bool × Bool × GoString) :=
  (findServer db id).map fun s => (s.trusted, s.enabled, s.address)

/-- The epoch of a server: below all numbers before it is created, above them once it is
deleted. Its identifier is never used again. -/
def stampOf (id : Int) (db : DB F) : WithBot (WithTop Int) :=
  if db.serverSeq < id then ⊥
  else
    match findServer db id with
    | some s => ((s.trustEpoch : WithTop Int) : WithBot (WithTop Int))
    | none => ((⊤ : WithTop Int) : WithBot (WithTop Int))

/-- Each observation is one of a stored server that is trusted, enabled and at the address. -/
def Sourced (db : DB F) : Prop :=
  ∀ r ∈ db.trustedObservations, sourceOf r.serverID db = some (true, true, r.address)

/-- What a call that saves no observation does to the epochs and to the observations. -/
structure Evolves (db db' : DB F) : Prop where
  seq : db.serverSeq ≤ db'.serverSeq
  stamp : ∀ id, stampOf id db ≤ stampOf id db'
  source : ∀ id, stampOf id db' = stampOf id db → sourceOf id db' = sourceOf id db
  rows : ∀ r ∈ db'.trustedObservations, r ∈ db.trustedObservations ∧
    (r.serverID ≤ db.serverSeq → stampOf r.serverID db' = stampOf r.serverID db)

theorem Evolves.refl (db : DB F) : Evolves db db :=
  ⟨le_rfl, fun _ => le_rfl, fun _ _ => rfl, fun _ hr => ⟨hr, fun _ => rfl⟩⟩

theorem Evolves.trans (h : Evolves db db') (h' : Evolves db' db'') : Evolves db db'' where
  seq := h.seq.trans h'.seq
  stamp id := (h.stamp id).trans (h'.stamp id)
  source id he := by
    have hmid : stampOf id db' = stampOf id db :=
      le_antisymm (he ▸ h'.stamp id) (h.stamp id)
    rw [h'.source id (he.trans hmid.symm), h.source id hmid]
  rows r hr := by
    obtain ⟨hr', hs'⟩ := h'.rows r hr
    obtain ⟨hr, hs⟩ := h.rows r hr'
    exact ⟨hr, fun hid => (hs' (hid.trans h.seq)).trans (hs hid)⟩

theorem evolves_of_servers (hs : db'.servers = db.servers) (hq : db'.serverSeq = db.serverSeq)
    (ho : db'.trustedObservations ⊆ db.trustedObservations) : Evolves db db' := by
  have hstamp : ∀ id, stampOf id db' = stampOf id db := by
    intro id
    simp only [stampOf, findServer, hs, hq]
  refine ⟨hq.ge, fun id => (hstamp id).ge, ?_, fun r hr => ⟨ho hr, fun _ => hstamp _⟩⟩
  intro id _
  simp only [sourceOf, findServer, hs]

theorem stampOf_new {id : Int} (h : db.serverSeq < id) : stampOf id db = ⊥ := if_pos h

theorem stampOf_stored {id : Int} {s : Server} (hw : WellFormed db)
    (h : findServer db id = some s) :
    stampOf id db = ((s.trustEpoch : WithTop Int) : WithBot (WithTop Int)) := by
  obtain ⟨hs, hid⟩ := findServer_some h
  have hseq := (hw.server_seq s.id (List.mem_map_of_mem hs)).2
  rw [stampOf, if_neg (by omega), h]

theorem findServer_new {id : Int} (hw : WellFormed db) (h : db.serverSeq < id) :
    findServer db id = none := by
  apply List.find?_eq_none.mpr
  intro s hs hid
  have hseq := (hw.server_seq s.id (List.mem_map_of_mem hs)).2
  have hid : s.id = id := of_decide_eq_true hid
  omega

theorem sourced_evolves (hw : WellFormed db) (hs : Sourced db) (h : Evolves db db') :
    Sourced db' := by
  intro r hr
  obtain ⟨hr, hstamp⟩ := h.rows r hr
  have hsource := hs r hr
  have hid : r.serverID ≤ db.serverSeq := by
    by_contra hid
    rw [sourceOf, findServer_new hw (by omega)] at hsource
    cases hsource
  rw [h.source _ (hstamp hid), hsource]

theorem stampOf_eq_bot {id : Int} : stampOf id db = ⊥ ↔ db.serverSeq < id := by
  unfold stampOf
  split_ifs with h
  · simp [h]
  · cases findServer db id with
    | none => simp [h]
    | some s => simp [h]

theorem evolves_insertServer (hw : WellFormed db) (now : Int) (v : Server) :
    Evolves db (insertServer db now v) := by
  have hseq : (insertServer db now v).serverSeq = db.serverSeq + 1 := rfl
  have hfind : ∀ id ≤ db.serverSeq,
      findServer (insertServer db now v) id = findServer db id := by
    intro id hid
    have hne : ¬ db.serverSeq + 1 = id := by omega
    simp [findServer, insertServer, List.find?_append, hne]
  have hold : ∀ id ≤ db.serverSeq, stampOf id (insertServer db now v) = stampOf id db := by
    intro id hid
    rw [stampOf, stampOf, hfind id hid, hseq, if_neg (by omega), if_neg (by omega)]
  refine ⟨by omega, ?_, ?_, fun r hr => ⟨hr, hold _⟩⟩
  · intro id
    by_cases hid : id ≤ db.serverSeq
    · exact (hold id hid).ge
    · rw [stampOf_new (Int.not_le.mp hid)]
      exact bot_le
  · intro id he
    by_cases hid : id ≤ db.serverSeq
    · rw [sourceOf, sourceOf, hfind id hid]
    · have hnew := Int.not_le.mp hid
      rw [stampOf_new hnew, stampOf_eq_bot] at he
      rw [sourceOf, findServer_new (wellFormed_insertServer hw now v) he, sourceOf,
        findServer_new hw hnew]

theorem findServer_update (db : DB F) (v : Server) (id : Int) :
    findServer (updateServer db v) id =
      (findServer db id).map fun s => if s.id = v.id then updatedServer v s else s := by
  rw [findServer, updateServer, find_update fun _ => by rfl]
  simp only [decide_eq_true_eq]
  rfl

/-- The trigger deletes the observations of a server whose epoch it raises. -/
theorem evolves_updateServer (hw : WellFormed db) (v : Server) :
    Evolves db (updateServer db v) := by
  have hseq : (updateServer db v).serverSeq = db.serverSeq := rfl
  have hsame : ∀ id, (∀ s, findServer db id = some s → s.id = v.id → sameSource s v = true) →
      stampOf id (updateServer db v) = stampOf id db := by
    intro id h
    rw [stampOf, stampOf, hseq, findServer_update]
    cases hs : findServer db id with
    | none => rfl
    | some s =>
      by_cases hid : s.id = v.id
      · simp [hid, updatedServer, h s hs hid]
      · simp [hid]
  refine ⟨hseq.ge, ?_, ?_, ?_⟩
  · intro id
    by_cases hnew : db.serverSeq < id
    · rw [stampOf_new hnew]
      exact bot_le
    · rw [stampOf, stampOf, hseq, if_neg hnew, if_neg hnew, findServer_update]
      cases findServer db id with
      | none => exact le_rfl
      | some s =>
        simp only [Option.map_some, WithBot.coe_le_coe, WithTop.coe_le_coe]
        by_cases hid : s.id = v.id
        · simp only [hid, if_true, updatedServer]
          split_ifs <;> omega
        · simp [hid]
  · intro id he
    rw [sourceOf, sourceOf, findServer_update]
    by_cases hnew : db.serverSeq < id
    · rw [findServer_new hw hnew]
      rfl
    · rw [stampOf, stampOf, hseq, if_neg hnew, if_neg hnew, findServer_update] at he
      cases hs : findServer db id with
      | none => rfl
      | some s =>
        rw [hs] at he
        simp only [Option.map_some, WithBot.coe_inj, WithTop.coe_inj] at he
        simp only [Option.map_some]
        by_cases hid : s.id = v.id
        · simp only [hid, if_true, updatedServer] at he ⊢
          have hsource : sameSource s v = true := by
            by_contra hne
            rw [if_neg hne] at he
            omega
          simp only [sameSource, Bool.and_eq_true, decide_eq_true_eq] at hsource
          simp [hsource]
        · simp [hid]
  · intro r hr
    obtain ⟨hr, hkept⟩ := mem_delete.mp hr
    refine ⟨hr, fun _ => hsame _ ?_⟩
    intro s hs hid
    obtain ⟨hmem, hsid⟩ := findServer_some hs
    by_contra hchanged
    have hany : db.servers.any (fun s => s.id = v.id && !sameSource s v) = true :=
      List.any_eq_true.mpr ⟨s, hmem, by simp [hid, hchanged]⟩
    rw [hany, ← hsid, hid] at hkept
    simp at hkept

theorem evolves_deleteServer (hw : WellFormed db) (id : Int) :
    Evolves db (deleteServerRows id db) := by
  have hseq : (deleteServerRows id db).serverSeq = db.serverSeq := rfl
  have hother : ∀ i, i ≠ id → findServer (deleteServerRows id db) i = findServer db i := by
    intro i hi
    apply find_delete
    intro s hs
    have hs : s.id = i := of_decide_eq_true hs
    simp [hs, hi]
  have hgone : findServer (deleteServerRows id db) id = none := by
    apply List.find?_eq_none.mpr
    intro s hs
    simpa using (mem_delete.mp hs).2
  have hstamp : ∀ i, i ≠ id → stampOf i (deleteServerRows id db) = stampOf i db := by
    intro i hi
    rw [stampOf, stampOf, hseq, hother i hi]
  refine ⟨hseq.ge, ?_, ?_, ?_⟩
  · intro i
    by_cases hi : i = id
    · subst hi
      rw [stampOf, stampOf, hseq, hgone]
      split_ifs
      · exact le_rfl
      · exact le_top
    · exact (hstamp i hi).ge
  · intro i he
    by_cases hi : i = id
    · subst hi
      rw [sourceOf, sourceOf, hgone]
      cases hs : findServer db i with
      | none => rfl
      | some s =>
        have hold : ¬ db.serverSeq < i := by
          intro hnew
          rw [findServer_new hw hnew] at hs
          cases hs
        rw [stampOf, stampOf, hseq, hgone, hs, if_neg hold, if_neg hold] at he
        simp at he
    · rw [sourceOf, sourceOf, hother i hi]
  · intro r hr
    obtain ⟨hr, hkept⟩ := mem_delete.mp hr
    exact ⟨hr, fun _ => hstamp _ (of_decide_eq_false hkept)⟩

end

section

variable {F : Type} [GoFloat F] {db db' : DB F}

omit [GoFloat F] in
theorem evolves_deleteRounds (p : RoundRow F → Bool) (db : DB F) : Evolves db (deleteRounds p db) :=
  evolves_of_servers rfl rfl (List.Subset.refl _)

theorem evolves_rebuildRound {id : Int} (h : rebuildRound id db = .ok db') : Evolves db db' := by
  cases rebuilt h with
  | dropped _ => exact evolves_deleteRounds _ db
  | recounted _ _ _ => exact evolves_of_servers rfl rfl (List.Subset.refl _)

theorem evolves_rebuildPartial {before : Int} {ids : List Int}
    (h : rebuildPartial before ids db = .ok db') : Evolves db db' := by
  refine rebuildPartial_keeps (P := Evolves db) ?_ (Evolves.refl db) h
  intro id _ d d' hd hround
  have hdelete (results : List (ResultRow F)) : Evolves d { d with results } :=
    evolves_of_servers rfl rfl (List.Subset.refl _)
  exact (hd.trans (hdelete _)).trans (evolves_rebuildRound hround)

theorem evolves_cleanup {before : Int} {t : CleanupStep} (h : cleanup before t db = .ok db') :
    Evolves db db' := by
  cases t with
  | pruneObservations =>
    injection h with h
    exact h ▸ evolves_of_servers rfl rfl (delete_sublist _ _).subset
  | pruneReferences ids =>
    obtain rfl := pruneReferences_ok h
    exact evolves_of_servers rfl rfl (List.Subset.refl _)
  | dropRounds ids =>
    injection h with h
    exact h ▸ evolves_deleteRounds _ db
  | pruneResults ids => exact evolves_rebuildPartial h
  | dropAudit ids =>
    injection h with h
    exact h ▸ evolves_of_servers rfl rfl (List.Subset.refl _)

def isObservation : Event F → Bool
  | .saveTrustedObservation _ _ => true
  | _ => false

variable [CaseTables]

theorem evolves_apply {e : Event F} (hw : WellFormed db) (he : isObservation e = false)
    (h : apply db e = .ok db') : Evolves db db' := by
  cases e with
  | saveConfig c =>
    obtain rfl := saveConfig_ok h
    exact evolves_of_servers rfl rfl (List.Subset.refl _)
  | saveServer now v =>
    cases saveServer_ok h with
    | inl hi => exact hi.2 ▸ evolves_insertServer hw now v
    | inr hu => exact hu.2.2 ▸ evolves_updateServer hw v
  | deleteServer id => exact deleteServer_ok h ▸ evolves_deleteServer hw id
  | importServers now snapshot items =>
    simp only [apply, map_eq_ok] at h
    obtain ⟨r, hr, rfl⟩ := h
    exact (importServers_invariant (P := fun db' => WellFormed db' ∧ Evolves db db')
      (fun _ now v h => ⟨wellFormed_insertServer h.1 now v, h.2.trans (evolves_insertServer h.1 now v)⟩)
      (fun _ v h => ⟨wellFormed_updateServer h.1 v, h.2.trans (evolves_updateServer h.1 v)⟩)
      ⟨hw, Evolves.refl db⟩ hr).2
  | saveRound v =>
    obtain ⟨_, _, _, snapshots, rfl⟩ := saveRound_ok h
    exact evolves_of_servers rfl rfl (List.Subset.refl _)
  | saveOverride now v =>
    exact (saveOverride_ok h).2 ▸ evolves_of_servers rfl rfl (List.Subset.refl _)
  | saveTrustedObservation server result => cases he
  | pruneTrustedReferences now hours =>
    injection h with h
    exact h ▸ evolves_of_servers rfl rfl (delete_sublist _ _).subset
  | cleanup before t => exact evolves_cleanup h

theorem evolves_step {e : Event F} (hw : WellFormed db) (he : isObservation e = false) :
    Evolves db (Run.step db e) := by
  cases h : apply db e with
  | error err =>
    rw [show Run.step db e = db by simp [Run.step, h]]
    exact Evolves.refl db
  | ok db' =>
    rw [step_of_ok h]
    exact evolves_apply hw he h

end

section

variable {F : Type} {db : DB F}

theorem mem_saveRecords {current : Server} {domain type : GoString} {records : List AnswerRecord}
    {rows : List ObservationRow} {q : ObservationRow}
    (h : q ∈ saveRecords current domain type records rows) :
    q ∈ rows ∨ q.serverID = current.id ∧ q.address = current.address ∧ 0 < q.observedAt := by
  have h := (mem_delete.mp (mem_delete.mp h).1).1
  clear * - h
  induction records generalizing rows with
  | nil => exact .inl h
  | cons record records ih =>
    cases ih h with
    | inr h => exact .inr h
    | inl h =>
      unfold saveRecord at h
      split at h
      · split_ifs at h with hskip
        · exact .inl h
        · cases mem_upsert h with
          | inl h => exact .inl h
          | inr h =>
            subst h
            exact .inr ⟨rfl, rfl, not_le.mp fun hle => hskip (.inl hle)⟩
      · exact .inl h

/-- It adds or refreshes only rows of a source that is as the lookup knows it. -/
theorem saveTrustedObservation_cases [CaseTables] (db : DB F) (server : Server)
    (result : ProbeResult F) :
    saveTrustedObservation db server result = db ∨
      ∃ current, findServer db server.id = some current ∧ isCurrent current server = true ∧
        ∃ rows, saveTrustedObservation db server result = { db with trustedObservations := rows } ∧
          ∀ r ∈ rows, r ∈ db.trustedObservations ∨
            r.serverID = server.id ∧ r.address = current.address ∧ 0 < r.observedAt := by
  unfold saveTrustedObservation
  dsimp only
  split_ifs with hsubject
  · exact .inl rfl
  · cases hf : findServer db server.id with
    | none => exact .inl rfl
    | some current =>
      dsimp only
      by_cases hc : isCurrent current server = true
      · rw [if_pos hc]
        refine .inr ⟨current, rfl, hc, _, rfl, ?_⟩
        intro r hr
        have hid := (findServer_some hf).2
        exact hid ▸ mem_saveRecords hr
      · rw [if_neg hc]
        exact .inl rfl

theorem sourced_saveTrustedObservation [CaseTables] (hs : Sourced db) (server : Server)
    (result : ProbeResult F) : Sourced (saveTrustedObservation db server result) := by
  cases saveTrustedObservation_cases db server result with
  | inl h => rwa [h]
  | inr h =>
    obtain ⟨current, hf, hc, rows, he, hrows⟩ := h
    rw [he]
    intro r hr
    cases hrows r hr with
    | inl hr => exact hs r hr
    | inr hr =>
      simp only [isCurrent, Bool.and_eq_true, decide_eq_true_eq] at hc
      have hf' : findServer { db with trustedObservations := rows } r.serverID = some current := by
        rw [hr.1]
        exact hf
      rw [sourceOf, hf', hr.2.1]
      simp [hc]

end

end DnsMonitor.Store.Trust

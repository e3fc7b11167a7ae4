import DnsMonitor.Store.Retained
import DnsMonitor.Store.Schedule

namespace DnsMonitor.Store.Owners

open DnsMonitor.Model DnsMonitor.Lib.Tables DnsMonitor.Store.Schema
open DnsMonitor.Store.Current DnsMonitor.Store.Rounds DnsMonitor.Store.Override
open DnsMonitor.Store.Cleanup DnsMonitor.Store.Servers DnsMonitor.Store.References
open DnsMonitor.Store.Migration DnsMonitor.Store.Run DnsMonitor.Store.WellFormed
open DnsMonitor.Store.Retained
open DnsMonitor.Go.Strings DnsMonitor.Go.Unicode DnsMonitor.Go.Errors DnsMonitor.Go.Float

section

variable {F : Type}

def scheduled (rounds : List (RoundRow F)) : List (RoundRow F) := rounds.filter (!·.auxiliary)

def roundTag (q : RoundRow F) : Int × Bool := (q.id, q.auxiliary)

/-- A bucket belongs to a round, a snapshot to a scheduled one. -/
structure Origins (db : DB F) : Prop where
  bucket : ∀ b ∈ db.latencyBuckets, ∃ q ∈ db.rounds, q.id = b.roundID
  snapshot : ∀ s ∈ db.evaluationSnapshots, ∃ q ∈ scheduled db.rounds, q.id = s.roundID

variable {db db' : DB F}

theorem mem_scheduled {q : RoundRow F} {rounds : List (RoundRow F)} :
    q ∈ scheduled rounds ↔ q ∈ rounds ∧ q.auxiliary = false := by
  simp [scheduled]

theorem formal_scheduled (serverID : Int) (rounds : List (RoundRow F)) :
    formal serverID rounds = (scheduled rounds).filter (·.serverID = serverID) := by
  rw [formal, scheduled, List.filter_filter]

theorem scheduled_append (rows more : List (RoundRow F)) :
    scheduled (rows ++ more) = scheduled rows ++ scheduled more := List.filter_append rows more

theorem tag_of_map {rows rows' : List (RoundRow F)} (h : rows.map roundTag ⊆ rows'.map roundTag)
    {q : RoundRow F} (hq : q ∈ rows) :
    ∃ q' ∈ rows', q'.id = q.id ∧ q'.auxiliary = q.auxiliary := by
  obtain ⟨q', hq', ht⟩ := List.mem_map.mp (h (List.mem_map_of_mem hq))
  exact ⟨q', hq', congrArg Prod.fst ht, congrArg Prod.snd ht⟩

theorem Origins.frame (h : Origins db) (hr : db.rounds.map roundTag ⊆ db'.rounds.map roundTag)
    (hb : ∀ b ∈ db'.latencyBuckets, b ∈ db.latencyBuckets ∨ ∃ q ∈ db'.rounds, q.id = b.roundID)
    (hs : ∀ s ∈ db'.evaluationSnapshots,
      s ∈ db.evaluationSnapshots ∨ ∃ q ∈ scheduled db'.rounds, q.id = s.roundID) :
    Origins db' where
  bucket b hmem := by
    cases hb b hmem with
    | inr hnew => exact hnew
    | inl hold =>
      obtain ⟨q, hq, hid⟩ := h.bucket b hold
      obtain ⟨q', hq', hid', _⟩ := tag_of_map hr hq
      exact ⟨q', hq', hid'.trans hid⟩
  snapshot s hmem := by
    cases hs s hmem with
    | inr hnew => exact hnew
    | inl hold =>
      obtain ⟨q, hq, hid⟩ := h.snapshot s hold
      obtain ⟨hq, ha⟩ := mem_scheduled.mp hq
      obtain ⟨q', hq', hid', ha'⟩ := tag_of_map hr hq
      exact ⟨q', mem_scheduled.mpr ⟨hq', ha'.trans ha⟩, hid'.trans hid⟩

theorem Origins.same (h : Origins db) (hr : db'.rounds.map roundTag = db.rounds.map roundTag)
    (hb : db'.latencyBuckets ⊆ db.latencyBuckets)
    (hs : db'.evaluationSnapshots ⊆ db.evaluationSnapshots) : Origins db' :=
  h.frame (hr ▸ List.Subset.refl _) (fun _ hmem => .inl (hb hmem)) fun _ hmem => .inl (hs hmem)

theorem gone_of_round {p : RoundRow F → Bool} {rounds : List (RoundRow F)} {id : Int}
    {q : RoundRow F} (hq : q ∈ rounds) (hid : q.id = id)
    (hn : (rounds.any fun q => p q && q.id = id) = false) : p q = false := by
  rw [List.any_eq_false] at hn
  have hnot := hn q hq
  cases hp : p q with
  | false => rfl
  | true => exact absurd (by simp [hp, hid]) hnot

theorem origins_deleteRounds (h : Origins db) (p : RoundRow F → Bool) :
    Origins (deleteRounds p db) where
  bucket b hmem := by
    obtain ⟨hold, hn⟩ := mem_delete.mp hmem
    obtain ⟨q, hq, hid⟩ := h.bucket b hold
    exact ⟨q, mem_delete.mpr ⟨hq, gone_of_round hq hid hn⟩, hid⟩
  snapshot s hmem := by
    obtain ⟨hold, hn⟩ := mem_delete.mp hmem
    obtain ⟨q, hq, hid⟩ := h.snapshot s hold
    obtain ⟨hq, ha⟩ := mem_scheduled.mp hq
    exact ⟨q, mem_scheduled.mpr ⟨mem_delete.mpr ⟨hq, gone_of_round hq hid hn⟩, ha⟩, hid⟩

theorem origins_migrate (h : Origins db) : Origins (migrate db) := by
  apply h.same
  · simp only [migrate, List.map_map]
    rfl
  · exact List.Subset.refl _
  · exact List.Subset.refl _

/-- What the tables of a database keep, whatever is called. -/
structure Tidy (db : DB F) : Prop where
  wellFormed : WellFormed db
  decode : AllDecode db
  origins : Origins db

theorem tidy_migrate (h : Tidy db) : Tidy (migrate db) :=
  ⟨wellFormed_migrate h.wellFormed, allRows_migrate decodes_rule h.decode,
    origins_migrate h.origins⟩

end

section

variable {F : Type} [GoFloat F] {db db' : DB F}

theorem origins_rebuildRound (hw : WellFormed db) (h : Origins db) {id : Int}
    (hs : rebuildRound id db = .ok db') : Origins db' := by
  cases rebuilt hs with
  | dropped _ => exact origins_deleteRounds h _
  | recounted _ _ hleft =>
    -- a result that is left refers to the round
    obtain ⟨r, hr⟩ := List.exists_mem_of_ne_nil _ hleft
    obtain ⟨hr, hid⟩ := List.mem_filter.mp hr
    obtain ⟨q, hq, hqid, -⟩ := round_of_result hw hr
    have hqid : q.id = id := hqid.trans (of_decide_eq_true hid)
    have htags : ∀ (p : RoundRow F → Bool) left raw,
        (update p (recountedRound left raw) db.rounds).map roundTag = db.rounds.map roundTag :=
      fun p left raw => map_update (fun _ => by rfl) _
    apply h.frame
    · rw [htags]
      exact List.Subset.refl _
    · intro b hb
      cases List.mem_append.mp hb with
      | inl hold => exact .inl (mem_delete.mp hold).1
      | inr hnew =>
        have hmem : roundTag q ∈ db.rounds.map roundTag := List.mem_map_of_mem hq
        rw [← htags] at hmem
        obtain ⟨q', hq', ht⟩ := List.mem_map.mp hmem
        rw [roundID_buckets hnew]
        exact .inr ⟨q', hq', (congrArg Prod.fst ht).trans hqid⟩
    · exact fun s hmem => .inl hmem

theorem origins_rebuildPartial {before : Int} {ids : List Int} (hw : WellFormed db)
    (h : Origins db) (hs : rebuildPartial before ids db = .ok db') : Origins db' := by
  refine (rebuildPartial_keeps (P := fun d => WellFormed d ∧ Origins d) ?_ ⟨hw, h⟩ hs).2
  rintro id - d d' ⟨hw, h⟩ hround
  have hw₁ := wellFormed_deleteResults hw fun r => r.roundID = id && r.timestamp < before
  exact ⟨wellFormed_rebuildRound hw₁ hround,
    origins_rebuildRound hw₁ (h.same rfl (List.Subset.refl _) (List.Subset.refl _)) hround⟩

theorem origins_cleanup {before : Int} {t : CleanupStep} (hw : WellFormed db) (h : Origins db)
    (hs : cleanup before t db = .ok db') : Origins db' := by
  cases t with
  | pruneObservations =>
    injection hs with hs
    exact hs ▸ h.same rfl (List.Subset.refl _) (List.Subset.refl _)
  | pruneReferences ids =>
    obtain rfl := pruneReferences_ok hs
    exact h.same rfl (List.Subset.refl _) (List.Subset.refl _)
  | dropRounds ids =>
    injection hs with hs
    exact hs ▸ origins_deleteRounds h _
  | pruneResults ids => exact origins_rebuildPartial hw h hs
  | dropAudit ids =>
    injection hs with hs
    exact hs ▸ h.same rfl (List.Subset.refl _) (List.Subset.refl _)

variable [CaseTables]

theorem insertRound_tags (db : DB F) (v : Round F) : (insertRound db v).rounds.map roundTag =
    db.rounds.map roundTag ++ [(newRoundID db, v.auxiliary)] := by
  rw [insertRound_map fun _ _ => by rfl]
  rfl

theorem origins_saveRound {v : Round F} (h : Origins db) (hs : saveRound db v = .ok db') :
    Origins db' := by
  simp only [saveRound, bind_eq_ok] at hs
  obtain ⟨_, _, _, _, _, _, hs⟩ := hs
  have hnew : ∃ q ∈ (insertRound db v).rounds,
      q.id = newRoundID db ∧ q.auxiliary = v.auxiliary := by
    have hmem : (newRoundID db, v.auxiliary) ∈ (insertRound db v).rounds.map roundTag := by
      rw [insertRound_tags]
      simp
    obtain ⟨q, hq, ht⟩ := List.mem_map.mp hmem
    exact ⟨q, hq, congrArg Prod.fst ht, congrArg Prod.snd ht⟩
  have hinsert : Origins (insertRound db v) := by
    apply h.frame
    · rw [insertRound_tags]
      exact List.subset_append_left _ _
    · intro b hb
      cases List.mem_append.mp hb with
      | inl hold => exact .inl hold
      | inr hb =>
        obtain ⟨q, hq, hid, _⟩ := hnew
        exact .inr ⟨q, hq, hid.trans (roundID_buckets hb).symm⟩
    · exact fun s hmem => .inl hmem
  split_ifs at hs with ha
  · rw [pure_eq_ok] at hs
    exact hs ▸ hinsert
  · obtain ⟨-, -, row, hrow, rfl⟩ := saveEvaluationSnapshot_ok hs
    refine hinsert.frame (List.Subset.refl _) (fun b hmem => .inl hmem) ?_
    intro s hmem
    cases List.mem_append.mp hmem with
    | inl hold => exact .inl hold
    | inr hmem =>
      obtain ⟨q, hq, hid, haux⟩ := hnew
      rw [List.mem_singleton.mp hmem, hrow]
      exact .inr ⟨q, mem_scheduled.mpr ⟨hq, haux.trans (by simpa using ha)⟩, hid⟩

theorem origins_apply {e : Event F} (hw : WellFormed db) (h : Origins db)
    (hs : apply db e = .ok db') : Origins db' := by
  cases e with
  | saveConfig c =>
    obtain rfl := saveConfig_ok hs
    exact h.same rfl (List.Subset.refl _) (List.Subset.refl _)
  | saveServer now v =>
    cases saveServer_ok hs with
    | inl hi => exact hi.2 ▸ h.same rfl (List.Subset.refl _) (List.Subset.refl _)
    | inr hu => exact hu.2.2 ▸ h.same rfl (List.Subset.refl _) (List.Subset.refl _)
  | deleteServer id =>
    exact deleteServer_ok hs ▸ (origins_deleteRounds h fun r => r.serverID = id).same rfl
      (List.Subset.refl _) (delete_sublist _ _).subset
  | importServers now snapshot items =>
    simp only [apply, map_eq_ok] at hs
    obtain ⟨r, hr, rfl⟩ := hs
    exact importServers_invariant (P := Origins)
      (fun _ _ _ h => h.same rfl (List.Subset.refl _) (List.Subset.refl _))
      (fun _ _ h => h.same rfl (List.Subset.refl _) (List.Subset.refl _)) h hr
  | saveRound v => exact origins_saveRound h hs
  | saveOverride now v =>
    rw [(saveOverride_ok hs).2]
    exact h.same (putOverride_rounds (g := roundTag) (fun _ _ => rfl) db _) (List.Subset.refl _)
      (List.Subset.refl _)
  | saveTrustedObservation server result =>
    obtain ⟨rows, rfl⟩ := saveTrustedObservation_ok hs
    exact h.same rfl (List.Subset.refl _) (List.Subset.refl _)
  | pruneTrustedReferences now hours =>
    obtain ⟨rows, rfl⟩ := pruneTrustedReferences_ok hs
    exact h.same rfl (List.Subset.refl _) (List.Subset.refl _)
  | cleanup before t => exact origins_cleanup hw h hs

theorem tidy_apply {e : Event F} (h : Tidy db) (hs : apply db e = .ok db') : Tidy db' :=
  ⟨wellFormed_apply h.wellFormed hs, decode_apply h.decode hs, origins_apply h.wellFormed h.origins hs⟩

end

end DnsMonitor.Store.Owners

import DnsMonitor.Store.Run

namespace DnsMonitor.Store.WellFormed

open DnsMonitor.Model DnsMonitor.Lib DnsMonitor.Lib.Tables DnsMonitor.Store.Schema
open DnsMonitor.Store.Current DnsMonitor.Store.Rounds DnsMonitor.Store.Override
open DnsMonitor.Store.Cleanup DnsMonitor.Store.Servers DnsMonitor.Store.References
open DnsMonitor.Store.Migration DnsMonitor.Store.Run
open DnsMonitor.Go.Strings DnsMonitor.Go.Unicode DnsMonitor.Go.Errors DnsMonitor.Go.Float

section

variable {F : Type} {db db' : DB F}

theorem migrate_owners (db : DB F) :
    (migrate db).results.map resultOwner = db.results.map resultOwner ∧
      (migrate db).rounds.map roundOwner = db.rounds.map roundOwner := by
  simp only [migrate, List.map_map]
  exact ⟨rfl, rfl⟩

theorem migratedDetected_le (n : Nat) : migratedDetected n ≤ 4 := by
  unfold migratedDetected
  split <;> omega

theorem wellFormed_migrate (h : WellFormed db) : WellFormed (migrate db) where
  serverSeq := h.serverSeq
  server_seq := by simpa [migrate] using h.server_seq
  server_ids := by simpa [migrate, Function.comp_def] using h.server_ids
  round_ids := by simpa [migrate, Function.comp_def] using h.round_ids
  round_time := by simpa [migrate] using h.round_time
  result_round := by
    rw [(migrate_owners db).1, (migrate_owners db).2]
    exact h.result_round
  result_code := by
    intro n hn
    simp only [migrate, List.map_map, List.mem_map] at hn
    obtain ⟨r, _, rfl⟩ := hn
    exact migratedDetected_le r.detectedPollution
  override_keys := h.override_keys

theorem wellFormed_insertServer (h : WellFormed db) (now : Int) (v : Server) :
    WellFormed (insertServer db now v) where
  serverSeq := by have := h.serverSeq; simp only [insertServer]; omega
  server_seq := by
    intro id hid
    have := h.serverSeq
    simp only [insertServer, List.map_append, List.map_cons, List.map_nil, List.mem_append,
      List.mem_singleton] at hid ⊢
    cases hid with
    | inl hid =>
      have := h.server_seq id hid
      omega
    | inr hid => omega
  server_ids := by
    simp only [insertServer, List.map_append, List.map_cons, List.map_nil]
    apply h.server_ids.append (by simp)
    intro id hid hnew
    have := h.server_seq id hid
    have := List.mem_singleton.mp hnew
    omega
  round_ids := h.round_ids
  round_time := h.round_time
  result_round := h.result_round
  result_code := h.result_code
  override_keys := h.override_keys

theorem updateServer_ids (db : DB F) (v : Server) :
    (updateServer db v).servers.map (·.id) = db.servers.map (·.id) := by
  apply map_update
  intro s
  rfl

theorem wellFormed_updateServer (h : WellFormed db) (v : Server) :
    WellFormed (updateServer db v) where
  serverSeq := h.serverSeq
  server_seq := by
    rw [updateServer_ids]
    exact h.server_seq
  server_ids := by
    rw [updateServer_ids]
    exact h.server_ids
  round_ids := h.round_ids
  round_time := h.round_time
  result_round := h.result_round
  result_code := h.result_code
  override_keys := h.override_keys

theorem round_of_result (h : WellFormed db) {r : ResultRow F} (hr : r ∈ db.results) :
    ∃ q ∈ db.rounds, q.id = r.roundID ∧ q.serverID = r.serverID := by
  obtain ⟨q, hq, howner⟩ := List.mem_map.mp (h.result_round (List.mem_map_of_mem hr))
  exact ⟨q, hq, congrArg Prod.fst howner, congrArg Prod.snd howner⟩

theorem owner_of_result (hw : WellFormed db) {q : RoundRow F} (hq : q ∈ db.rounds)
    {r : ResultRow F} (hr : r ∈ db.results) (hid : r.roundID = q.id) :
    r.serverID = q.serverID := by
  obtain ⟨g, hg, hgid, hserver⟩ := round_of_result hw hr
  rw [← List.inj_on_of_nodup_map hw.round_ids hg hq (hgid.trans hid)]
  exact hserver.symm

theorem wellFormed_deleteRounds (h : WellFormed db) (p : RoundRow F → Bool) :
    WellFormed (deleteRounds p db) where
  serverSeq := h.serverSeq
  server_seq := h.server_seq
  server_ids := h.server_ids
  round_ids := h.round_ids.sublist ((delete_sublist p db.rounds).map _)
  round_time t ht := h.round_time t (((delete_sublist p db.rounds).map _).subset ht)
  result_round := by
    intro k hk
    obtain ⟨r, hr, rfl⟩ := List.mem_map.mp hk
    obtain ⟨hr, hgone⟩ := mem_delete.mp hr
    obtain ⟨q, hq, hid, hserver⟩ := round_of_result h hr
    refine List.mem_map.mpr ⟨q, mem_delete.mpr ⟨hq, ?_⟩, Prod.ext hid hserver⟩
    have := List.any_eq_false.mp hgone q hq
    simpa [hid] using this
  result_code n hn := h.result_code n (((delete_sublist _ _).map _).subset hn)
  override_keys := h.override_keys

theorem wellFormed_deleteServerRows (h : WellFormed db) (id : Int) :
    WellFormed (deleteServerRows id db) where
  serverSeq := h.serverSeq
  server_seq i hi := h.server_seq i (((delete_sublist _ _).map _).subset hi)
  server_ids := h.server_ids.sublist ((delete_sublist _ _).map _)
  round_ids := (wellFormed_deleteRounds h _).round_ids
  round_time := (wellFormed_deleteRounds h _).round_time
  result_round := fun _ hk =>
    (wellFormed_deleteRounds h _).result_round (((delete_sublist _ _).map _).subset hk)
  result_code n hn :=
    (wellFormed_deleteRounds h _).result_code n (((delete_sublist _ _).map _).subset hn)
  override_keys := h.override_keys.sublist ((delete_sublist _ _).map _)

theorem nodup_upsertOverride {overrides : List Override} (h : (overrides.map overrideKey).Nodup)
    (o : Override) : ((upsertOverride o overrides).map overrideKey).Nodup := by
  unfold upsertOverride
  by_cases ha : overrides.any (isAbout o.serverID o.domain o.type) = true
  · rw [if_pos ha, map_update fun _ => by rfl]
    exact h
  · rw [if_neg ha, List.map_append]
    apply h.append (by simp)
    intro k hk hnew
    obtain ⟨p, hp, rfl⟩ := List.mem_map.mp hk
    have he : overrideKey p = overrideKey o := by simpa using hnew
    apply ha
    rw [List.any_eq_true]
    refine ⟨p, hp, ?_⟩
    simp only [overrideKey, Prod.mk.injEq] at he
    simp [isAbout, he]

theorem putOverride_rounds {β : Type} {g : RoundRow F → β}
    (h : ∀ q n, g { q with pollution := n } = g q) (db : DB F) (v : Override) :
    (putOverride db v).rounds.map g = db.rounds.map g := by
  apply map_update
  intro q
  exact h q _

theorem putOverride_results {β : Type} {g : ResultRow F → β}
    (h : ∀ r n, g { r with effectivePollution := n } = g r) (db : DB F) (v : Override) :
    (putOverride db v).results.map g = db.results.map g := by
  apply map_update
  intro r
  exact h r _

theorem wellFormed_putOverride (h : WellFormed db) (v : Override) :
    WellFormed (putOverride db v) where
  serverSeq := h.serverSeq
  server_seq := h.server_seq
  server_ids := h.server_ids
  round_ids := by
    rw [putOverride_rounds fun _ _ => rfl]
    exact h.round_ids
  round_time := by
    rw [putOverride_rounds fun _ _ => rfl]
    exact h.round_time
  result_round := by
    rw [putOverride_rounds fun _ _ => rfl, putOverride_results fun _ _ => rfl]
    exact h.result_round
  result_code := by
    rw [putOverride_results fun _ _ => rfl]
    exact h.result_code
  override_keys := by
    simp only [putOverride]
    by_cases hv : v.verdict = str "auto"
    · rw [if_pos hv]
      exact h.override_keys.sublist ((delete_sublist _ _).map _)
    · rw [if_neg hv]
      exact nodup_upsertOverride h.override_keys v

theorem truncatePredecessor_map {β : Type} {g : RoundRow F → β}
    (h : ∀ q n, g { q with coveredUntil := n } = g q) (roundID : Int) (v : Round F)
    (rounds : List (RoundRow F)) :
    (truncatePredecessor roundID v rounds).map g = rounds.map g := by
  unfold truncatePredecessor
  split
  · apply map_update
    intro q
    exact h q _
  · rfl

theorem newRoundID_fresh {db : DB F} {q : RoundRow F} (h : q ∈ db.rounds) : q.id < newRoundID db :=
  lt_nextID (List.mem_map_of_mem h)

theorem roundID_ne_new (h : WellFormed db) {r : ResultRow F} (hr : r ∈ db.results) :
    r.roundID ≠ newRoundID db := by
  obtain ⟨q, hq, hid, -⟩ := round_of_result h hr
  have hlt := newRoundID_fresh hq
  omega

theorem mem_resultRows [CaseTables] {overrides : List Override} {roundID seq : Int} {v : Round F}
    {rs : List (ProbeResult F)} {q : ResultRow F}
    (h : q ∈ resultRows overrides roundID v seq rs) :
    ∃ r ∈ rs, ∃ id, q = resultRow overrides roundID id v r := by
  induction rs generalizing seq with
  | nil => simp [resultRows] at h
  | cons r rs ih =>
    cases List.mem_cons.mp h with
    | inl h => exact ⟨r, by simp, seq + 1, h⟩
    | inr h =>
      obtain ⟨p, hp, id, hq⟩ := ih h
      exact ⟨p, by simp [hp], id, hq⟩

theorem wellFormed_pruneReferences {before : Int} {ids : List Int} (h : WellFormed db)
    (hs : pruneReferences before ids db = .ok db') : WellFormed db' := by
  obtain rfl := pruneReferences_ok hs
  refine { h with result_round := ?_, result_code := ?_ }
  · rw [map_update fun _ => by rfl]
    exact h.result_round
  · rw [map_update fun _ => by rfl]
    exact h.result_code

theorem wellFormed_deleteResults (h : WellFormed db) (p : ResultRow F → Bool) :
    WellFormed { db with results := delete p db.results } :=
  { h with
    result_round := fun _ hk => h.result_round (((delete_sublist _ _).map _).subset hk)
    result_code := fun n hn => h.result_code n (((delete_sublist _ _).map _).subset hn) }

end

section

variable {F : Type} [GoFloat F] {db db' : DB F}

section

variable [CaseTables]

theorem insertRound_map {β : Type} {g : RoundRow F → β}
    (h : ∀ q n, g { q with coveredUntil := n } = g q) (db : DB F) (v : Round F) :
    (insertRound db v).rounds.map g = db.rounds.map g ++ [g (newRound db v)] := by
  rw [← List.map_singleton, ← List.map_append]
  simp only [insertRound]
  by_cases ha : v.auxiliary = true
  · rw [if_pos ha]
  · rw [if_neg ha]
    exact truncatePredecessor_map h _ _ _

omit [GoFloat F] in
theorem roundID_newResults {v : Round F} {r : ResultRow F} (hr : r ∈ newResults db v) :
    r.roundID = newRoundID db := by
  obtain ⟨_, _, _, rfl⟩ := mem_resultRows hr
  rfl

omit [CaseTables] in
theorem roundID_buckets {id : Int} {rs : List (ProbeResult F)} {b : BucketRow}
    (hb : b ∈ buckets id rs) : b.roundID = id := by
  obtain ⟨_, _, rfl⟩ := List.mem_map.mp hb
  rfl

theorem results_insertRound_other (v : Round F) {id : Int} (hid : id ≠ newRoundID db) :
    (insertRound db v).results.filter (·.roundID = id) = db.results.filter (·.roundID = id) := by
  change (db.results ++ newResults db v).filter (·.roundID = id) = _
  rw [List.filter_append, @filter_none _ _ (newResults db v), List.append_nil]
  intro r hr
  rw [roundID_newResults hr]
  exact decide_eq_false hid.symm

theorem results_insertRound_new (h : WellFormed db) (v : Round F) :
    (insertRound db v).results.filter (·.roundID = newRoundID db) = newResults db v := by
  change (db.results ++ newResults db v).filter (·.roundID = newRoundID db) = _
  rw [List.filter_append, @filter_none _ _ db.results, List.nil_append, filter_every]
  · exact fun r hr => decide_eq_true (roundID_newResults hr)
  · exact fun r hr => decide_eq_false (roundID_ne_new h hr)

theorem buckets_insertRound_other (v : Round F) {id : Int} (hid : id ≠ newRoundID db) :
    (insertRound db v).latencyBuckets.filter (·.roundID = id) =
      db.latencyBuckets.filter (·.roundID = id) := by
  change (db.latencyBuckets ++ buckets (newRoundID db) (timed v.results)).filter
    (·.roundID = id) = _
  rw [List.filter_append, @filter_none _ _ (buckets _ _), List.append_nil]
  intro b hb
  rw [roundID_buckets hb]
  exact decide_eq_false hid.symm

theorem buckets_insertRound_new (h : ∀ b ∈ db.latencyBuckets, b.roundID ≠ newRoundID db)
    (v : Round F) : (insertRound db v).latencyBuckets.filter (·.roundID = newRoundID db) =
      buckets (newRoundID db) (timed v.results) := by
  change (db.latencyBuckets ++ buckets (newRoundID db) (timed v.results)).filter
    (·.roundID = newRoundID db) = _
  rw [List.filter_append, @filter_none _ _ db.latencyBuckets, List.nil_append, filter_every]
  · exact fun b hb => decide_eq_true (roundID_buckets hb)
  · exact fun b hb => decide_eq_false (h b hb)

omit [CaseTables] in
theorem recounted_buckets_self (id : Int) (rows : List BucketRow) (rs : List (ProbeResult F)) :
    (delete (·.roundID = id) rows ++ buckets id rs).filter (·.roundID = id) = buckets id rs := by
  rw [List.filter_append, @filter_none _ _ (delete _ _), List.nil_append, filter_every]
  · exact fun b hb => decide_eq_true (roundID_buckets hb)
  · exact fun b hb => (mem_delete.mp hb).2

omit [CaseTables] in
theorem recounted_buckets_other {id i : Int} (hi : i ≠ id) (rows : List BucketRow)
    (rs : List (ProbeResult F)) :
    (delete (·.roundID = id) rows ++ buckets id rs).filter (·.roundID = i) =
      rows.filter (·.roundID = i) := by
  rw [List.filter_append, @filter_none _ _ (buckets _ _), List.append_nil]
  · apply filter_delete
    intro b _ hb
    rw [of_decide_eq_true hb]
    exact decide_eq_false hi
  · intro b hb
    rw [roundID_buckets hb]
    exact decide_eq_false hi.symm

theorem wellFormed_insertRound (h : WellFormed db) {v : Round F} (hv : 0 < v.finishedAt) :
    WellFormed (insertRound db v) where
  serverSeq := h.serverSeq
  server_seq := h.server_seq
  server_ids := h.server_ids
  round_ids := by
    rw [insertRound_map fun _ _ => by rfl]
    apply h.round_ids.append (by simp)
    intro id hid hnew
    obtain ⟨q, hq, rfl⟩ := List.mem_map.mp hid
    have hlt := newRoundID_fresh hq
    have he : q.id = newRoundID db := List.mem_singleton.mp hnew
    omega
  round_time := by
    rw [insertRound_map fun _ _ => by rfl]
    intro t ht
    cases List.mem_append.mp ht with
    | inl ht => exact h.round_time t ht
    | inr ht =>
      have he : t = v.finishedAt := List.mem_singleton.mp ht
      omega
  result_round := by
    rw [insertRound_map fun _ _ => by rfl]
    intro k hk
    simp only [insertRound, List.map_append, List.mem_append] at hk
    cases hk with
    | inl hk => exact List.mem_append_left _ (h.result_round hk)
    | inr hk =>
      obtain ⟨q, hq, rfl⟩ := List.mem_map.mp hk
      obtain ⟨r, hr, id, rfl⟩ := mem_resultRows hq
      exact List.mem_append_right _ (List.mem_singleton.mpr rfl)
  result_code := by
    intro n hn
    simp only [insertRound, List.map_append, List.mem_append] at hn
    cases hn with
    | inl hn => exact h.result_code n hn
    | inr hn =>
      obtain ⟨q, hq, rfl⟩ := List.mem_map.mp hn
      obtain ⟨r, hr, id, rfl⟩ := mem_resultRows hq
      exact pollutionCode_le _
  override_keys := h.override_keys

theorem wellFormed_saveRound {v : Round F} (h : WellFormed db) (hs : saveRound db v = .ok db') :
    WellFormed db' := by
  obtain ⟨_, ht, _, snapshots, rfl⟩ := saveRound_ok hs
  exact { wellFormed_insertRound h ht with }

end

theorem wellFormed_rebuildRound {id : Int} (h : WellFormed db)
    (hs : rebuildRound id db = .ok db') : WellFormed db' := by
  cases rebuilt hs with
  | dropped _ => exact wellFormed_deleteRounds h _
  | recounted _ _ _ =>
    refine { h with round_ids := ?_, round_time := ?_, result_round := ?_ }
    · rw [map_update fun _ => by rfl]
      exact h.round_ids
    · rw [map_update fun _ => by rfl]
      exact h.round_time
    · rw [map_update (g := roundOwner) fun _ => by rfl]
      exact h.result_round

theorem wellFormed_rebuildPartial {before : Int} {ids : List Int} (h : WellFormed db)
    (hs : rebuildPartial before ids db = .ok db') : WellFormed db' :=
  rebuildPartial_keeps (fun _ _ _ _ hd hround =>
    wellFormed_rebuildRound (wellFormed_deleteResults hd _) hround) h hs

theorem wellFormed_cleanup {before : Int} {t : CleanupStep} (h : WellFormed db)
    (hs : cleanup before t db = .ok db') : WellFormed db' := by
  cases t with
  | pruneObservations =>
    injection hs with hs
    exact hs ▸ { h with }
  | pruneReferences ids => exact wellFormed_pruneReferences h hs
  | dropRounds ids =>
    injection hs with hs
    exact hs ▸ wellFormed_deleteRounds h _
  | pruneResults ids => exact wellFormed_rebuildPartial h hs
  | dropAudit ids =>
    injection hs with hs
    exact hs ▸ { h with }

variable [CaseTables]

theorem wellFormed_apply {e : Event F} (h : WellFormed db) (hs : apply db e = .ok db') :
    WellFormed db' := by
  cases e with
  | saveConfig c =>
    obtain rfl := saveConfig_ok hs
    exact { h with }
  | saveServer now v =>
    cases saveServer_ok hs with
    | inl hi => exact hi.2 ▸ wellFormed_insertServer h now v
    | inr hu => exact hu.2.2 ▸ wellFormed_updateServer h v
  | deleteServer id => exact deleteServer_ok hs ▸ wellFormed_deleteServerRows h id
  | importServers now snapshot items =>
    simp only [apply, map_eq_ok] at hs
    obtain ⟨r, hr, rfl⟩ := hs
    exact importServers_invariant (P := WellFormed) (fun _ now v h => wellFormed_insertServer h now v)
      (fun _ v h => wellFormed_updateServer h v) h hr
  | saveRound v => exact wellFormed_saveRound h hs
  | saveOverride now v => exact (saveOverride_ok hs).2 ▸ wellFormed_putOverride h _
  | saveTrustedObservation server result =>
    obtain ⟨rows, rfl⟩ := saveTrustedObservation_ok hs
    exact { h with }
  | pruneTrustedReferences now hours =>
    obtain ⟨rows, rfl⟩ := pruneTrustedReferences_ok hs
    exact { h with }
  | cleanup before t => exact wellFormed_cleanup h hs

theorem wellFormed_run (h : WellFormed db) (es : List (Event F)) :
    WellFormed (Runs.run step db es) :=
  Runs.run_invariant (step_invariant fun _ _ _ => wellFormed_apply) h es

theorem wellFormed_reachable (h : Reachable db) : WellFormed db := by
  obtain ⟨legacy, es, rfl⟩ := h
  exact wellFormed_run (wellFormed_migrate legacy.wellFormed) es

end

end DnsMonitor.Store.WellFormed

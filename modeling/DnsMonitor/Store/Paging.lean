import DnsMonitor.Lib.Pages
import DnsMonitor.Store.Owners

namespace DnsMonitor.Store.Paging

open DnsMonitor.Model DnsMonitor.Lib DnsMonitor.Lib.Tables DnsMonitor.Lib.Pages
open DnsMonitor.Store.Schema DnsMonitor.Store.Rounds DnsMonitor.Store.Override
open DnsMonitor.Store.Cleanup DnsMonitor.Store.Servers DnsMonitor.Store.References
open DnsMonitor.Store.Migration DnsMonitor.Store.Run DnsMonitor.Store.WellFormed
open DnsMonitor.Go.Strings DnsMonitor.Go.Unicode DnsMonitor.Go.Errors DnsMonitor.Go.Float

def maxInt64 : Int := 2 ^ 63 - 1

section

variable {F : Type}

structure StoredResult (F : Type) where
  id : Int
  result : ProbeResult F
  override : GoString
  effectivePollution : GoString
deriving DecidableEq

/-- One row of `resultSelect`, with the verdict it joins. -/
def decodeResult (db : DB F) (row : ResultRow F × Server) : Except StoreError (StoredResult F) :=
  let (r, server) := row
  match r.rawJSON with
  | none => .error .json
  | some raw => .ok
    { id := r.id
      result := { raw with trusted := server.trusted }
      override := verdictOf db.overrides r.serverID r.domain r.type
      effectivePollution :=
        if server.trusted then str "matched" else pollutionName r.effectivePollution }

/-- The order `timestamp, id` of the results. -/
def resultKey (r : ResultRow F) : Int ×ₗ Int := toLex (r.timestamp, r.id)

/-- `results r JOIN servers s ON s.id=r.server_id`. -/
def joinedResults (db : DB F) : List (ResultRow F × Server) :=
  db.results.filterMap fun r => (findServer db r.serverID).map fun s => (r, s)

/-- `resultSelect` with a condition, from the last result on. -/
def selectResults (db : DB F) (condition : ResultRow F → Bool) (limit : Nat) :
    Except StoreError (List (StoredResult F)) :=
  (top (fun row => resultKey row.1) limit
    ((joinedResults db).filter fun row => condition row.1)).mapM (decodeResult db)

def isBelow (before beforeID : Int) (r : ResultRow F) : Bool :=
  r.timestamp < before || r.timestamp = before && r.id < beforeID

def pageLimit (limit : Int) : Int :=
  let limit := if limit < 1 then 100 else limit
  if 200 < limit then 200 else limit

def resultsPage (db : DB F) (serverID limit before beforeID : Int) :
    Except StoreError (List (StoredResult F)) :=
  let before := if before ≤ 0 then maxInt64 else before
  selectResults db (fun r => r.serverID = serverID &&
    if 0 < beforeID then isBelow before beforeID r else r.timestamp < before)
    (pageLimit limit).toNat

/-- How a call has ended. -/
inductive WalkEnd where
  | done
  | failed (err : StoreError)
  /-- The callback returned an error. -/
  | stopped
deriving DecidableEq

inductive WalkPhase where
  | start
  | paging (snapshotID before beforeID : Int)
  | returned (how : WalkEnd)
deriving DecidableEq

/-- A call of `WalkResults` beside the database, with what its callback has been given. -/
structure Walk (F : Type) where
  db : DB F
  phase : WalkPhase
  delivered : List (StoredResult F)

/-- What comes next in a walk: a call of another method, the query for the snapshot, or a page.
The callback may fail at one of its rows. -/
inductive WalkAction (F : Type) where
  | store (e : Event F)
  | snapshot
  | page (failsAt : Option Nat)

def maxResultID (db : DB F) : Int := (db.results.map (·.id)).max?.getD 0

def walkCondition (serverID since snapshotID before beforeID : Int) (r : ResultRow F) : Bool :=
  since ≤ r.timestamp && r.id ≤ snapshotID && isBelow before beforeID r &&
    (serverID ≤ 0 || r.serverID = serverID)

def nextPhase (snapshotID : Int) (batch : List (StoredResult F)) : WalkPhase :=
  if batch.length < 200 then .returned .done
  else
    match batch.getLast? with
    | some last => .paging snapshotID last.result.timestamp last.id
    | none => .returned .done

def walkPage (serverID since snapshotID before beforeID : Int) (failsAt : Option Nat) (w : Walk F) :
    Walk F :=
  match selectResults w.db (walkCondition serverID since snapshotID before beforeID) 200 with
  | .error err => { w with phase := .returned (.failed err) }
  | .ok batch =>
    match failsAt.filter (· < batch.length) with
    | some k =>
      { w with phase := .returned .stopped, delivered := w.delivered ++ batch.take (k + 1) }
    | none => { w with phase := nextPhase snapshotID batch, delivered := w.delivered ++ batch }

structure Client (F : Type) where
  db : DB F
  before : Int
  beforeID : Int
  received : List (StoredResult F)
  /-- A page had fewer rows than its limit. -/
  finished : Bool

inductive ClientAction (F : Type) where
  | store (e : Event F)
  | page (limit : Int)

def clientPage (serverID limit : Int) (c : Client F) : Client F :=
  match resultsPage c.db serverID limit c.before c.beforeID with
  | .error _ => c
  | .ok page =>
    let c := { c with
      received := c.received ++ page
      finished := c.finished || page.length < pageLimit limit }
    match page.getLast? with
    | some last => { c with before := last.result.timestamp, beforeID := last.id }
    | none => c

section

variable [GoFloat F] [CaseTables]

def walkStep (serverID since : Int) (w : Walk F) (a : WalkAction F) : Walk F :=
  match a with
  | .store e => { w with db := step w.db e }
  | .snapshot =>
    match w.phase with
    | .start => { w with phase := .paging (maxResultID w.db) maxInt64 maxInt64 }
    | _ => w
  | .page failsAt =>
    match w.phase with
    | .paging snapshotID before beforeID =>
      walkPage serverID since snapshotID before beforeID failsAt w
    | _ => w

def clientStep (serverID : Int) (c : Client F) : ClientAction F → Client F
  | .store e => { c with db := step c.db e }
  | .page limit => clientPage serverID limit c

end

end

section

variable {F : Type} {db db' : DB F}

/-- What paging reads of a result. -/
structure Mark where
  id : Int
  serverID : Int
  timestamp : Int
  /-- The time in the JSON, from which the next page starts. -/
  decoded : Option Int

def mark (r : ResultRow F) : Mark := ⟨r.id, r.serverID, r.timestamp, r.rawJSON.map (·.timestamp)⟩

/-- Numbers are given once and in order, a result decodes to the time of its column, and its
server is stored. -/
structure Listed (db : DB F) : Prop where
  counter : 0 ≤ db.resultSeq
  ids : (db.results.map (·.id)).Nodup
  seq : ∀ r ∈ db.results, 0 < r.id ∧ r.id ≤ db.resultSeq
  decoded : ∀ r ∈ db.results, r.rawJSON.map (·.timestamp) = some r.timestamp
  server : ∀ r ∈ db.results, r.serverID ∈ db.servers.map (·.id)

/-- What the results of a later database are to those of an earlier one. -/
structure Later (db db' : DB F) : Prop where
  seq : db.resultSeq ≤ db'.resultSeq
  rows : ∀ q ∈ db'.results, q.id ≤ db.resultSeq →
    ∃ r ∈ db.results, r.id = q.id ∧ r.serverID = q.serverID ∧ r.timestamp = q.timestamp

theorem Later.refl (db : DB F) : Later db db := ⟨le_rfl, fun q hq _ => ⟨q, hq, rfl, rfl, rfl⟩⟩

theorem Later.trans {db'' : DB F} (h : Later db db') (h' : Later db' db'') : Later db db'' := by
  refine ⟨h.seq.trans h'.seq, fun q hq hid => ?_⟩
  obtain ⟨p, hp, hpid, hps, hpt⟩ := h'.rows q hq (hid.trans h.seq)
  obtain ⟨r, hr, hrid, hrs, hrt⟩ := h.rows p hp (hpid ▸ hid)
  exact ⟨r, hr, hrid.trans hpid, hrs.trans hps, hrt.trans hpt⟩

theorem mark_of_sublist (h : (db'.results.map mark).Sublist (db.results.map mark)) {q : ResultRow F}
    (hq : q ∈ db'.results) : ∃ r ∈ db.results, r.id = q.id ∧ r.serverID = q.serverID ∧
      r.timestamp = q.timestamp ∧ r.rawJSON.map (·.timestamp) = q.rawJSON.map (·.timestamp) := by
  obtain ⟨r, hr, hm⟩ := List.mem_map.mp (h.subset (List.mem_map_of_mem hq))
  exact ⟨r, hr, congrArg Mark.id hm, congrArg Mark.serverID hm, congrArg Mark.timestamp hm,
    congrArg Mark.decoded hm⟩

theorem Listed.shrink (h : Listed db) (hm : (db'.results.map mark).Sublist (db.results.map mark))
    (hseq : db'.resultSeq = db.resultSeq)
    (hserver : ∀ r ∈ db'.results, r.serverID ∈ db.servers.map (·.id) →
      r.serverID ∈ db'.servers.map (·.id)) : Listed db' ∧ Later db db' := by
  have hids : (db'.results.map (·.id)).Sublist (db.results.map (·.id)) := by
    have hs := hm.map Mark.id
    rwa [List.map_map, List.map_map] at hs
  refine ⟨⟨hseq ▸ h.counter, h.ids.sublist hids, ?_, ?_, ?_⟩, hseq.ge, ?_⟩
  · intro q hq
    obtain ⟨r, hr, hid, -⟩ := mark_of_sublist hm hq
    rw [hseq, ← hid]
    exact h.seq r hr
  · intro q hq
    obtain ⟨r, hr, -, -, ht, hd⟩ := mark_of_sublist hm hq
    rw [← ht, ← hd]
    exact h.decoded r hr
  · intro q hq
    obtain ⟨r, hr, -, hs, -⟩ := mark_of_sublist hm hq
    exact hserver q hq (hs ▸ h.server r hr)
  · intro q hq _
    obtain ⟨r, hr, hid, hs, ht, -⟩ := mark_of_sublist hm hq
    exact ⟨r, hr, hid, hs, ht⟩

theorem Listed.same (h : Listed db) (hm : (db'.results.map mark).Sublist (db.results.map mark))
    (hseq : db'.resultSeq = db.resultSeq)
    (hserver : db.servers.map (·.id) ⊆ db'.servers.map (·.id)) : Listed db' ∧ Later db db' :=
  h.shrink hm hseq fun _ _ hs => hserver hs

theorem listed_deleteRounds (h : Listed db) (p : RoundRow F → Bool) :
    Listed (deleteRounds p db) ∧ Later db (deleteRounds p db) :=
  h.same ((delete_sublist _ _).map mark) rfl (List.Subset.refl _)

theorem listed_deleteResults (h : Listed db) (p : ResultRow F → Bool) :
    Listed { db with results := delete p db.results } ∧
      Later db { db with results := delete p db.results } :=
  h.same ((delete_sublist _ _).map mark) rfl (List.Subset.refl _)

theorem listed_deleteServerRows (h : Listed db) (id : Int) :
    Listed (deleteServerRows id db) ∧ Later db (deleteServerRows id db) := by
  refine h.shrink (((delete_sublist _ _).trans (delete_sublist _ _)).map mark) rfl ?_
  intro r hr hs
  obtain ⟨-, hn⟩ := mem_delete.mp hr
  obtain ⟨s, hs, hid⟩ := List.mem_map.mp hs
  have hsn : (decide (s.id = id)) = false := by
    rw [hid]
    exact hn
  exact List.mem_map.mpr ⟨s, mem_delete.mpr ⟨hs, hsn⟩, hid⟩

theorem listed_insertServer (h : Listed db) (now : Int) (v : Server) :
    Listed (insertServer db now v) ∧ Later db (insertServer db now v) := by
  refine h.same (List.Sublist.refl _) rfl ?_
  rw [insertServer, List.map_append]
  exact List.subset_append_left _ _

theorem listed_updateServer (h : Listed db) (v : Server) :
    Listed (updateServer db v) ∧ Later db (updateServer db v) := by
  refine h.same (List.Sublist.refl _) rfl ?_
  rw [updateServer_ids]
  exact List.Subset.refl _

theorem listed_migrate (h : Listed db) : Listed (migrate db) := by
  have hm : (migrate db).results.map mark = db.results.map mark := by
    simp only [migrate, List.map_map]
    rfl
  have hs : (migrate db).servers.map (·.id) = db.servers.map (·.id) := by
    simp only [migrate, List.map_map]
    rfl
  have hseq : (migrate db).resultSeq = db.resultSeq := rfl
  refine (h.same ?_ hseq ?_).1
  · rw [hm]
  · rw [hs]
    exact List.Subset.refl _

theorem mark_prunedResult (before : Int) (r : ResultRow F) : mark (prunedResult before r) = mark r := by
  cases hr : r.rawJSON <;> simp [mark, prunedResult, hr, keepReferences]

end

section

variable {F : Type} [GoFloat F] {db db' : DB F}

theorem listed_rebuildRound {id : Int} (h : Listed db) (hs : rebuildRound id db = .ok db') :
    Listed db' ∧ Later db db' := by
  cases rebuilt hs with
  | dropped _ => exact listed_deleteRounds h _
  | recounted _ _ _ => exact h.same (List.Sublist.refl _) rfl (List.Subset.refl _)

theorem listed_cleanup {before : Int} {t : CleanupStep} (h : Listed db)
    (hs : cleanup before t db = .ok db') : Listed db' ∧ Later db db' := by
  cases t with
  | pruneObservations =>
    injection hs with hs
    exact hs ▸ h.same (List.Sublist.refl _) rfl (List.Subset.refl _)
  | pruneReferences ids =>
    obtain rfl := pruneReferences_ok hs
    refine h.same ?_ rfl (List.Subset.refl _)
    rw [map_update (mark_prunedResult before)]
  | dropRounds ids =>
    injection hs with hs
    exact hs ▸ listed_deleteRounds h _
  | pruneResults ids =>
    refine rebuildPartial_keeps (P := fun d => Listed d ∧ Later db d) ?_ ⟨h, Later.refl db⟩ hs
    intro id _ d d' hd hround
    obtain ⟨hrows, hlater⟩ := listed_deleteResults hd.1
      fun r => r.roundID = id && r.timestamp < before
    have hnew := listed_rebuildRound hrows hround
    exact ⟨hnew.1, (hd.2.trans hlater).trans hnew.2⟩
  | dropAudit ids =>
    injection hs with hs
    exact hs ▸ h.same (List.Sublist.refl _) rfl (List.Subset.refl _)

variable [CaseTables]

omit [GoFloat F] in
theorem mem_resultRows_id {overrides : List Override} {roundID seq : Int} {v : Round F}
    {rs : List (ProbeResult F)} {q : ResultRow F}
    (h : q ∈ resultRows overrides roundID v seq rs) : seq < q.id ∧ q.id ≤ seq + rs.length := by
  induction rs generalizing seq with
  | nil => cases h
  | cons r rs ih =>
    rw [List.length_cons]
    cases List.mem_cons.mp h with
    | inl h =>
      have hid : q.id = seq + 1 := congrArg (·.id) h
      omega
    | inr h =>
      have hlt := ih h
      omega

omit [GoFloat F] in
theorem nodup_resultRows (overrides : List Override) (roundID : Int) (v : Round F) (seq : Int)
    (rs : List (ProbeResult F)) : ((resultRows overrides roundID v seq rs).map (·.id)).Nodup := by
  induction rs generalizing seq with
  | nil => exact List.nodup_nil
  | cons r rs ih =>
    rw [resultRows, List.map_cons, List.nodup_cons]
    refine ⟨fun hm => ?_, ih (seq + 1)⟩
    obtain ⟨q, hq, hid⟩ := List.mem_map.mp hm
    have hlt := (mem_resultRows_id hq).1
    have hnew : (resultRow overrides roundID (seq + 1) v r).id = seq + 1 := rfl
    omega

theorem listed_insertRound (h : Listed db) {v : Round F}
    (hv : (findServer db v.serverID).isSome = true) :
    Listed (insertRound db v) ∧ Later db (insertRound db v) := by
  have hseq : ∀ q ∈ newResults db v, db.resultSeq < q.id ∧
      q.id ≤ db.resultSeq + v.results.length := fun q hq => mem_resultRows_id hq
  refine ⟨⟨?_, ?_, ?_, ?_, ?_⟩, ?_, ?_⟩
  · have hpos := h.counter
    change 0 ≤ db.resultSeq + v.results.length
    omega
  · change ((db.results ++ newResults db v).map (·.id)).Nodup
    rw [List.map_append]
    apply h.ids.append (nodup_resultRows _ _ _ _ _)
    intro id hold hnew
    obtain ⟨r, hr, rfl⟩ := List.mem_map.mp hold
    obtain ⟨q, hq, hid⟩ := List.mem_map.mp hnew
    have hlast := (h.seq r hr).2
    have hfirst := (hseq q hq).1
    omega
  · intro q hq
    change 0 < q.id ∧ q.id ≤ db.resultSeq + v.results.length
    cases List.mem_append.mp hq with
    | inl hq =>
      have hold := h.seq q hq
      omega
    | inr hq =>
      have hnew := hseq q hq
      have hpos := h.counter
      omega
  · intro q hq
    cases List.mem_append.mp hq with
    | inl hq => exact h.decoded q hq
    | inr hq =>
      obtain ⟨r, -, id, rfl⟩ := mem_resultRows hq
      rfl
  · intro q hq
    cases List.mem_append.mp hq with
    | inl hq => exact h.server q hq
    | inr hq =>
      obtain ⟨r, -, id, rfl⟩ := mem_resultRows hq
      obtain ⟨s, hs⟩ := Option.isSome_iff_exists.mp hv
      exact List.mem_map.mpr ⟨s, findServer_some hs⟩
  · change db.resultSeq ≤ db.resultSeq + v.results.length
    omega
  · intro q hq hid
    cases List.mem_append.mp hq with
    | inl hq => exact ⟨q, hq, rfl, rfl, rfl⟩
    | inr hq =>
      have hnew := (hseq q hq).1
      omega

theorem listed_apply {e : Event F} (h : Listed db) (hs : apply db e = .ok db') :
    Listed db' ∧ Later db db' := by
  have hsame : ∀ {d : DB F}, d.results = db.results → d.resultSeq = db.resultSeq →
      db.servers.map (·.id) ⊆ d.servers.map (·.id) → Listed d ∧ Later db d := by
    intro d hr hseq hservers
    exact h.same (hr ▸ List.Sublist.refl _) hseq hservers
  cases e with
  | saveConfig c =>
    obtain rfl := saveConfig_ok hs
    exact hsame rfl rfl (List.Subset.refl _)
  | saveServer now v =>
    cases saveServer_ok hs with
    | inl hi => exact hi.2 ▸ listed_insertServer h now v
    | inr hu => exact hu.2.2 ▸ listed_updateServer h v
  | deleteServer id => exact deleteServer_ok hs ▸ listed_deleteServerRows h id
  | importServers now snapshot items =>
    simp only [apply, map_eq_ok] at hs
    obtain ⟨r, hr, rfl⟩ := hs
    refine importServers_invariant (P := fun d => Listed d ∧ Later db d) ?_ ?_
      ⟨h, Later.refl db⟩ hr
    · intro d now v hd
      have hnew := listed_insertServer hd.1 now v
      exact ⟨hnew.1, hd.2.trans hnew.2⟩
    · intro d v hd
      have hnew := listed_updateServer hd.1 v
      exact ⟨hnew.1, hd.2.trans hnew.2⟩
  | saveRound v =>
    have hserver : (findServer db v.serverID).isSome = true := by
      simp only [saveRound, apply, bind_eq_ok, require_eq_ok] at hs
      obtain ⟨_, _, _, hserver, _⟩ := hs
      exact hserver
    obtain ⟨_, _, _, snapshots, rfl⟩ := saveRound_ok hs
    obtain ⟨hl, ha⟩ := listed_insertRound h hserver
    exact ⟨⟨hl.counter, hl.ids, hl.seq, hl.decoded, hl.server⟩, ⟨ha.seq, ha.rows⟩⟩
  | saveOverride now v =>
    rw [(saveOverride_ok hs).2]
    refine h.same ?_ rfl (List.Subset.refl _)
    rw [putOverride_results fun _ _ => rfl]
  | saveTrustedObservation server result =>
    obtain ⟨rows, rfl⟩ := saveTrustedObservation_ok hs
    exact hsame rfl rfl (List.Subset.refl _)
  | pruneTrustedReferences now hours =>
    obtain ⟨rows, rfl⟩ := pruneTrustedReferences_ok hs
    exact hsame rfl rfl (List.Subset.refl _)
  | cleanup before t => exact listed_cleanup h hs

theorem listed_step (h : Listed db) (e : Event F) : Listed (step db e) ∧ Later db (step db e) := by
  cases ha : apply db e with
  | error err => simpa [step, ha] using ⟨h, Later.refl db⟩
  | ok db' => simpa [step, ha] using listed_apply h ha

theorem listed_run (h : Listed db) (es : List (Event F)) : Listed (Runs.run step db es) :=
  Runs.run_invariant (P := Listed) (fun _ e h => (listed_step h e).1) h es

end

section

variable {F : Type} {db : DB F}

def storedKey (r : StoredResult F) : Int ×ₗ Int := toLex (r.result.timestamp, r.id)

theorem joinedResults_fst (h : Listed db) : (joinedResults db).map (·.1) = db.results := by
  have hall : ∀ rows : List (ResultRow F), (∀ r ∈ rows, r.serverID ∈ db.servers.map (·.id)) →
      (rows.filterMap fun r => (findServer db r.serverID).map fun s => (r, s)).map (·.1) = rows := by
    intro rows hrows
    induction rows with
    | nil => rfl
    | cons r rows ih =>
      obtain ⟨s, hs, hid⟩ := List.mem_map.mp (hrows r (by simp))
      have hsome : (findServer db r.serverID).isSome = true :=
        List.find?_isSome.mpr ⟨s, hs, decide_eq_true hid⟩
      obtain ⟨t, ht⟩ := Option.isSome_iff_exists.mp hsome
      rw [List.filterMap_cons, ht]
      exact congrArg (r :: ·) (ih fun q hq => hrows q (by simp [hq]))
  exact hall db.results h.server

theorem decodeResult_key (db : DB F) {row : ResultRow F × Server}
    (h : row.1.rawJSON.map (·.timestamp) = some row.1.timestamp) :
    ∃ v, decodeResult db row = .ok v ∧ storedKey v = resultKey row.1 := by
  obtain ⟨raw, hraw, ht⟩ := Option.map_eq_some_iff.mp h
  unfold decodeResult
  dsimp only
  rw [hraw]
  refine ⟨_, rfl, ?_⟩
  rw [storedKey, resultKey, ← ht]

theorem mapM_decodeResult (db : DB F) {rows : List (ResultRow F × Server)}
    (h : ∀ row ∈ rows, row.1.rawJSON.map (·.timestamp) = some row.1.timestamp) :
    ∃ page, rows.mapM (decodeResult db) = .ok page ∧
      page.map storedKey = rows.map fun row => resultKey row.1 := by
  induction rows with
  | nil => exact ⟨[], rfl, rfl⟩
  | cons row rows ih =>
    obtain ⟨v, hv, hk⟩ := decodeResult_key db (h row (by simp))
    obtain ⟨page, hp, hks⟩ := ih fun q hq => h q (by simp [hq])
    refine ⟨v :: page, ?_, by rw [List.map_cons, List.map_cons, hk, hks]⟩
    rw [List.mapM_cons, hv, hp]
    rfl

theorem selectResults_ok (h : Listed db) (condition : ResultRow F → Bool) (limit : Nat) :
    ∃ page, selectResults db condition limit = .ok page ∧
      page.map storedKey = (top resultKey limit (db.results.filter condition)).map resultKey := by
  have hmap : (top (fun row : ResultRow F × Server => resultKey row.1) limit
      ((joinedResults db).filter fun row => condition row.1)).map (·.1) =
      top resultKey limit (db.results.filter condition) := by
    rw [top_map, ← joinedResults_fst h, List.filter_map]
    rfl
  have hdecoded : ∀ row ∈ top (fun row : ResultRow F × Server => resultKey row.1) limit
      ((joinedResults db).filter fun row => condition row.1),
      row.1.rawJSON.map (·.timestamp) = some row.1.timestamp := by
    intro row hrow
    have hm : row.1 ∈ db.results := by
      rw [← joinedResults_fst h]
      exact List.mem_map_of_mem (List.mem_of_mem_filter (mem_of_top hrow))
    exact h.decoded row.1 hm
  obtain ⟨page, hpage, hk⟩ := mapM_decodeResult db hdecoded
  refine ⟨page, hpage, ?_⟩
  rw [hk, ← hmap, List.map_map]
  rfl

theorem storedKey_eq {v : StoredResult F} {r : ResultRow F} (h : storedKey v = resultKey r) :
    v.result.timestamp = r.timestamp ∧ v.id = r.id := by
  simpa [storedKey, resultKey] using h

theorem isBelow_iff {before beforeID : Int} {r : ResultRow F} :
    isBelow before beforeID r = true ↔ resultKey r < toLex (before, beforeID) := by
  simp [isBelow, resultKey, Prod.Lex.toLex_lt_toLex]

theorem nodup_keys (h : Listed db) (p : ResultRow F → Bool) :
    ((db.results.filter p).map resultKey).Nodup := by
  have hids : ((db.results.map resultKey).map fun k => (ofLex k).2).Nodup := by
    rw [List.map_map]
    exact h.ids
  exact (List.Nodup.of_map _ hids).sublist (List.filter_sublist.map resultKey)

def Survives (r : ResultRow F) (db : DB F) : Prop := ∃ q ∈ db.results, q.id = r.id

end

end DnsMonitor.Store.Paging

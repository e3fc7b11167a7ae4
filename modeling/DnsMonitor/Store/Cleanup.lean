import DnsMonitor.Store.Rounds

namespace DnsMonitor.Store.Cleanup

open DnsMonitor.Model DnsMonitor.Lib.Tables DnsMonitor.Store.Schema DnsMonitor.Store.Rounds
open DnsMonitor.Go.Errors DnsMonitor.Go.Float

variable {F : Type} [GoFloat F]

def pruneObservations (before : Int) (db : DB F) : DB F :=
  { db with trustedObservations := delete (·.observedAt < before) db.trustedObservations }

/-- The part of a reference that is recent enough to be kept. -/
def keepReference (before : Int) (ref : Reference) : Option Reference :=
  let records := ref.records.filter (before ≤ ·.observedAt)
  let pruned := { ref with records, answers := records.map (·.value) }
  if ref.records ≠ [] ∧ records = [] then none
  else if ref.timestamp < before then none
  else if ref.records ≠ [] then some pruned
  else some ref

def keepReferences (before : Int) (r : ProbeResult F) : ProbeResult F :=
  { r with references := r.references.filterMap (keepReference before) }

def hasOldReference (before : Int) (ids : List Int) (r : ResultRow F) : Bool :=
  ids.contains r.id && 0 < r.oldestReference && r.oldestReference < before

def prunedResult (before : Int) (r : ResultRow F) : ResultRow F :=
  let raw := r.rawJSON.map (keepReferences before)
  { r with
    rawJSON := raw
    oldestReference := match raw with
      | some raw => oldestReference raw.references
      | none => r.oldestReference }

def pruneReferences (before : Int) (ids : List Int) (db : DB F) : Except StoreError (DB F) := do
  let ids := ids.take 250
  require (∀ r ∈ db.results, hasOldReference before ids r = true → r.rawJSON.isSome = true) .json
  return { db with results := update (hasOldReference before ids) (prunedResult before) db.results }

omit [GoFloat F] in
theorem pruneReferences_ok {before : Int} {ids : List Int} {db db' : DB F}
    (h : pruneReferences before ids db = .ok db') :
    db' = { db with
      results := update (hasOldReference before (ids.take 250)) (prunedResult before)
        db.results } := by
  simp only [pruneReferences, bind_eq_ok, pure_eq_ok] at h
  obtain ⟨_, _, h⟩ := h
  exact h.symm

def dropRounds (before : Int) (ids : List Int) (db : DB F) : DB F :=
  let ids := ids.take 1000
  deleteRounds (fun r => ids.contains r.id && r.finishedAt < before) db

/-- The results whose latency counts; every number in JSON is finite. -/
def timedRaw (rs : List (ProbeResult F)) : List (ProbeResult F) :=
  rs.filter fun r => r.success && ofInt 0 ≤ r.latencyMS

def recountedRound (left : List (ResultRow F)) (raw : List (ProbeResult F)) (q : RoundRow F) :
    RoundRow F :=
  { q with
    samples := left.length
    received := received raw
    successes := successes raw
    latencyCount := (timedRaw raw).length
    latencySum := latencySum (timedRaw raw)
    pollution := maxOf (·.effectivePollution) left }

/-- Count the results a round still has, or drop the round when none is left. -/
def rebuildRound (id : Int) (db : DB F) : Except StoreError (DB F) :=
  let left := db.results.filter (·.roundID = id)
  match left.mapM (·.rawJSON) with
  | none => .error .json
  | some raw =>
    if left = [] then .ok (deleteRounds (·.id = id) db)
    else .ok { db with
      rounds := update (·.id = id) (recountedRound left raw) db.rounds
      latencyBuckets := delete (·.roundID = id) db.latencyBuckets ++ buckets id (timedRaw raw) }

inductive Rebuilt (id : Int) (db : DB F) : DB F → Prop where
  | dropped (hleft : db.results.filter (·.roundID = id) = []) :
    Rebuilt id db (deleteRounds (·.id = id) db)
  | recounted (raw : List (ProbeResult F))
      (hraw : (db.results.filter (·.roundID = id)).mapM (·.rawJSON) = some raw)
      (hleft : db.results.filter (·.roundID = id) ≠ []) :
    Rebuilt id db { db with
      rounds := update (·.id = id)
        (recountedRound (db.results.filter (·.roundID = id)) raw) db.rounds
      latencyBuckets := delete (·.roundID = id) db.latencyBuckets ++ buckets id (timedRaw raw) }

theorem rebuilt {id : Int} {db db' : DB F} (h : rebuildRound id db = .ok db') :
    Rebuilt id db db' := by
  unfold rebuildRound at h
  dsimp only at h
  split at h
  · cases h
  · rename_i raw hraw
    split_ifs at h with hleft
    · injection h with h
      exact h ▸ .dropped hleft
    · injection h with h
      exact h ▸ .recounted raw hraw hleft

def rebuildPartial (before : Int) : List Int → DB F → Except StoreError (DB F)
  | [], db => .ok db
  | id :: ids, db => do
    let db ← rebuildRound id
      { db with results := delete (fun r => r.roundID = id && r.timestamp < before) db.results }
    rebuildPartial before ids db

theorem rebuildPartial_keeps {P : DB F → Prop} {before : Int} {ids : List Int} {db db' : DB F}
    (hround : ∀ id ∈ ids, ∀ d d', P d → rebuildRound id
      { d with results := delete (fun r => r.roundID = id && r.timestamp < before) d.results } =
        .ok d' → P d')
    (h : P db) (hs : rebuildPartial before ids db = .ok db') : P db' := by
  induction ids generalizing db with
  | nil =>
    injection hs with hs
    exact hs ▸ h
  | cons id ids ih =>
    rw [rebuildPartial, bind_eq_ok] at hs
    obtain ⟨db₁, h₁, hs⟩ := hs
    exact ih (fun i hi => hround i (List.mem_cons_of_mem _ hi))
      (hround id List.mem_cons_self db db₁ h h₁) hs

/-- The rounds with an expired result, among the given ones and at most 100. -/
def partialRounds (before : Int) (ids : List Int) (db : DB F) : List Int :=
  (ids.dedup.filter fun id => db.results.any fun r => r.roundID = id && r.timestamp < before).take 100

def pruneResults (before : Int) (ids : List Int) (db : DB F) : Except StoreError (DB F) :=
  rebuildPartial before (partialRounds before ids db) db

def dropAudit (before : Int) (ids : List Int) (db : DB F) : DB F :=
  let ids := ids.take 1000
  { db with
    overrideAudit := delete (fun a => ids.contains a.id && a.timestamp < before) db.overrideAudit }

/-- One transaction of `Cleanup(before)`. Where a query has a limit and no order, the rows it returns
are a parameter: the transaction works on those of them that meet its condition. -/
inductive CleanupStep where
  | pruneObservations
  | pruneReferences (ids : List Int)
  | dropRounds (ids : List Int)
  | pruneResults (ids : List Int)
  | dropAudit (ids : List Int)

def cleanup (before : Int) (t : CleanupStep) (db : DB F) : Except StoreError (DB F) :=
  match t with
  | .pruneObservations => .ok (pruneObservations before db)
  | .pruneReferences ids => pruneReferences before ids db
  | .dropRounds ids => .ok (dropRounds before ids db)
  | .pruneResults ids => pruneResults before ids db
  | .dropAudit ids => .ok (dropAudit before ids db)

end DnsMonitor.Store.Cleanup

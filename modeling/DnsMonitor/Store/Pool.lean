import DnsMonitor.Store.Run

namespace DnsMonitor.Store.Pool

open DnsMonitor.Model DnsMonitor.Lib DnsMonitor.Lib.Tables DnsMonitor.Store.Schema
open DnsMonitor.Store.References DnsMonitor.Store.Migration
open DnsMonitor.Go.Strings DnsMonitor.Go.Unicode DnsMonitor.Go.Net DnsMonitor.Go.Float

section

variable {current : Server} {domain type : GoString} {q r : ObservationRow}
  {rs rows : List ObservationRow}

def newRow (current : Server) (domain type : GoString) (record : AnswerRecord) :
    Option ObservationRow :=
  match parseIP (trimSpace record.value) with
  | some (.v4 ip) =>
    if record.observedAt ≤ 0 ∨ record.ttlSeconds < 0 then none
    else some
      { serverID := current.id, address := current.address, domain, type, value := ip.string,
        ttlSeconds := record.ttlSeconds, observedAt := record.observedAt,
        expiresAt := expires record }
  | _ => none

def upsertAll (rs rows : List ObservationRow) : List ObservationRow :=
  rs.foldl (fun rows r => upsertObservation r rows) rows

theorem upsertAll_cons (r : ObservationRow) (rs rows : List ObservationRow) :
    upsertAll (r :: rs) rows = upsertAll rs (upsertObservation r rows) := rfl

theorem saveRecord_eq (rows : List ObservationRow) (record : AnswerRecord) :
    saveRecord current domain type rows record =
      (newRow current domain type record).elim rows fun r => upsertObservation r rows := by
  unfold saveRecord newRow
  cases parseIP (trimSpace record.value) with
  | none => rfl
  | some address =>
    cases address with
    | v4 ip =>
      dsimp only
      split_ifs
      · rfl
      · rfl
    | _ => rfl

theorem saveRecord_foldl (current : Server) (domain type : GoString)
    (records : List AnswerRecord) (rows : List ObservationRow) :
    records.foldl (saveRecord current domain type) rows =
      upsertAll (records.filterMap (newRow current domain type)) rows := by
  induction records generalizing rows with
  | nil => rfl
  | cons record records ih =>
    rw [List.foldl_cons, ih, saveRecord_eq]
    cases h : newRow current domain type record with
    | none => rw [List.filterMap_cons_none h, Option.elim_none]
    | some r => rw [List.filterMap_cons_some h, Option.elim_some, upsertAll_cons]

structure RowOf (current : Server) (domain type : GoString) (record : AnswerRecord)
    (r : ObservationRow) : Prop where
  serverID : r.serverID = current.id
  address : r.address = current.address
  domain : r.domain = domain
  type : r.type = type
  value : ∃ ip, parseIP (trimSpace record.value) = some (.v4 ip) ∧ r.value = ip.string
  ttlSeconds : r.ttlSeconds = record.ttlSeconds ∧ 0 ≤ r.ttlSeconds
  observedAt : r.observedAt = record.observedAt ∧ 0 < r.observedAt
  expiresAt : r.expiresAt = expires record

theorem newRow_eq_some {record : AnswerRecord} (h : newRow current domain type record = some r) :
    RowOf current domain type record r := by
  unfold newRow at h
  split at h
  · rename_i ip hip
    split_ifs at h with hskip
    obtain ⟨hobserved, httl⟩ := not_or.mp hskip
    obtain rfl := Option.some.inj h
    exact ⟨rfl, rfl, rfl, rfl, ⟨ip, hip, rfl⟩, ⟨rfl, by simpa using httl⟩,
      ⟨rfl, by simpa using hobserved⟩, rfl⟩
  · cases h

theorem mem_upsertAll (h : q ∈ upsertAll rs rows) : q ∈ rows ∨ q ∈ rs := by
  induction rs generalizing rows with
  | nil => exact .inl h
  | cons r rs ih =>
    cases ih h with
    | inl h =>
      cases mem_upsert h with
      | inl h => exact .inl h
      | inr h => exact .inr (h ▸ List.mem_cons_self)
    | inr h => exact .inr (List.mem_cons_of_mem _ h)

theorem mem_evict {inGroup : ObservationRow → Bool}
    {before : ObservationRow → ObservationRow → Bool} {limit : Nat} :
    r ∈ evict inGroup before limit rows ↔ r ∈ rows ∧
      (inGroup r = true → ((rows.filter inGroup).filter fun q => before q r).length < limit) := by
  rw [evict, mem_delete]
  cases h : inGroup r <;> simp

end

section

variable {F : Type} [CaseTables] {db : DB F} {server : Server} {result : ProbeResult F}
  {r : ObservationRow}

/-- The rows that a call brings, of a source that is as the caller knows it. -/
def contributed (db : DB F) (server : Server) (result : ProbeResult F) : List ObservationRow :=
  let subject := normalizeSubject result.domain result.type
  if !result.success ∨ subject.2 ≠ str "A" ∨ subject.1 = [] then []
  else
    match findServer db server.id with
    | none => []
    | some current =>
      if isCurrent current server then
        result.records.filterMap (newRow current subject.1 subject.2)
      else []

structure Accepted (db : DB F) (server : Server) (result : ProbeResult F) (current : Server) :
    Prop where
  success : result.success = true
  type : (normalizeSubject result.domain result.type).2 = str "A"
  domain : (normalizeSubject result.domain result.type).1 ≠ []
  found : findServer db server.id = some current
  current : isCurrent current server = true

theorem contributed_eq {current : Server} (h : Accepted db server result current) :
    contributed db server result = result.records.filterMap
      (newRow current (normalizeSubject result.domain result.type).1
        (normalizeSubject result.domain result.type).2) := by
  simp [contributed, h.success, h.type, h.domain, h.found, h.current]

theorem saveTrustedObservation_eq {current : Server} (h : Accepted db server result current)
    (hr : result.records ≠ []) : (saveTrustedObservation db server result).trustedObservations =
      saveRecords current (normalizeSubject result.domain result.type).1
        (normalizeSubject result.domain result.type).2 result.records db.trustedObservations := by
  simp [saveTrustedObservation, h.success, h.type, h.domain, h.found, h.current, hr]

theorem accepted_cases (db : DB F) (server : Server) (result : ProbeResult F) :
    (contributed db server result = [] ∧ saveTrustedObservation db server result = db) ∨
      result.records ≠ [] ∧ ∃ current, Accepted db server result current := by
  unfold contributed saveTrustedObservation
  dsimp only
  by_cases hr : result.records = []
  · left
    refine ⟨?_, if_pos (.inr (.inr (.inr hr)))⟩
    split_ifs
    · rfl
    · split
      · rfl
      · simp [hr]
  · by_cases hsubject : !result.success ∨
        (normalizeSubject result.domain result.type).2 ≠ str "A" ∨
        (normalizeSubject result.domain result.type).1 = []
    · rw [if_pos hsubject, if_pos (by tauto)]
      exact .inl ⟨rfl, rfl⟩
    · rw [if_neg hsubject, if_neg (by tauto)]
      cases hf : findServer db server.id with
      | none => exact .inl ⟨rfl, rfl⟩
      | some current =>
        dsimp only
        by_cases hc : isCurrent current server = true
        · simp only [not_or, Bool.not_eq_true, Bool.not_eq_false', ne_eq, not_not] at hsubject
          exact .inr ⟨hr, current, hsubject.1, hsubject.2.1, hsubject.2.2, hf, hc⟩
        · rw [if_neg hc, if_neg hc]
          exact .inl ⟨rfl, rfl⟩

theorem mem_saveTrustedObservation
    (h : r ∈ (saveTrustedObservation db server result).trustedObservations) :
    r ∈ db.trustedObservations ∨ r ∈ contributed db server result := by
  obtain ⟨_, he⟩ | ⟨hr, current, ha⟩ := accepted_cases db server result
  · exact .inl (he ▸ h)
  · rw [saveTrustedObservation_eq ha hr, saveRecords, saveRecord_foldl] at h
    rw [contributed_eq ha]
    exact mem_upsertAll (mem_evict.mp (mem_evict.mp h).1).1

end

section

local instance : CaseTables := asciiTables

def poolSource : Server :=
  { Run.exampleServer with id := 1, trusted := true, createdAt := 900 }

def poolDB : DB ℚ :=
  Runs.run Run.step (openStore emptyLegacy) [.saveServer 900 { poolSource with id := 0 }]

def poolResult (now ttl : Int) (values : List GoString) : ProbeResult ℚ :=
  { Run.exampleResult true (str "clean") with
    timestamp := now
    answers := values
    records := values.map fun value => ⟨value, ttl, now, now + ttl * 1000⟩ }

def poolDomain : Domain := ⟨str "example.com", str "A"⟩

end

end DnsMonitor.Store.Pool

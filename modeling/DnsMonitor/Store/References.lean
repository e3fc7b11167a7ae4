import DnsMonitor.Go.Net
import DnsMonitor.Store.Schema
import Mathlib.Data.List.Sort

namespace DnsMonitor.Store.References

open DnsMonitor.Model DnsMonitor.Lib.Tables DnsMonitor.Store.Schema
open DnsMonitor.Go.Strings DnsMonitor.Go.Unicode DnsMonitor.Go.Net DnsMonitor.Go.Float

variable {F : Type}

def maxTrustedSubjectAddresses : Nat := 256

def maxTrustedAddresses : Nat := 16384

def sameKey (q r : ObservationRow) : Bool :=
  q.serverID = r.serverID && q.domain = r.domain && q.type = r.type && q.value = r.value

theorem sameKey_iff {q r : ObservationRow} : sameKey q r = true ↔
    q.serverID = r.serverID ∧ q.domain = r.domain ∧ q.type = r.type ∧ q.value = r.value := by
  simp [sameKey, and_assoc]

/-- Insert a row, or refresh the row of its key unless that one was observed later. -/
def upsertObservation (r : ObservationRow) (rows : List ObservationRow) : List ObservationRow :=
  if rows.any (sameKey r) then
    update (fun q => sameKey r q && q.observedAt ≤ r.observedAt)
      (fun q => { q with
        address := r.address, ttlSeconds := r.ttlSeconds, observedAt := r.observedAt,
        expiresAt := r.expiresAt }) rows
  else rows ++ [r]

theorem mem_upsert {q r : ObservationRow} {rows : List ObservationRow}
    (h : q ∈ upsertObservation r rows) : q ∈ rows ∨ q = r := by
  unfold upsertObservation at h
  split_ifs at h
  · obtain ⟨p, hp, rfl⟩ := mem_update.mp h
    split_ifs with hkey
    · right
      rw [Bool.and_eq_true, sameKey_iff] at hkey
      obtain ⟨⟨hid, hdomain, htype, hvalue⟩, -⟩ := hkey
      rw [← hid, ← hdomain, ← htype, ← hvalue]
    · exact .inl hp
  · cases List.mem_append.mp h with
    | inl h => exact .inl h
    | inr h => exact .inr (List.mem_singleton.mp h)

def expires (record : AnswerRecord) : Int :=
  max record.observedAt (min record.expiresAt (record.observedAt + retention))

def saveRecord (current : Server) (domain type : GoString) (rows : List ObservationRow)
    (record : AnswerRecord) : List ObservationRow :=
  match parseIP (trimSpace record.value) with
  | some (.v4 ip) =>
    if record.observedAt ≤ 0 ∨ record.ttlSeconds < 0 then rows
    else upsertObservation
      { serverID := current.id, address := current.address, domain, type, value := ip.string,
        ttlSeconds := record.ttlSeconds, observedAt := record.observedAt,
        expiresAt := expires record } rows
  | _ => rows

/-- The order of one subject's rows: the last observed first, then by value. -/
def precedesInSubject (q r : ObservationRow) : Bool :=
  r.observedAt < q.observedAt || q.observedAt = r.observedAt && decide (q.value < r.value)

/-- The order of all rows: the last observed first, then by primary key. -/
def precedes (q r : ObservationRow) : Bool :=
  r.observedAt < q.observedAt || q.observedAt = r.observedAt &&
    (q.serverID < r.serverID || q.serverID = r.serverID &&
      (decide (q.domain < r.domain) || q.domain = r.domain &&
        (decide (q.type < r.type) || q.type = r.type && decide (q.value < r.value))))

def evict (inGroup : ObservationRow → Bool) (before : ObservationRow → ObservationRow → Bool)
    (limit : Nat) (rows : List ObservationRow) : List ObservationRow :=
  delete (fun r => inGroup r &&
    limit ≤ ((rows.filter inGroup).filter fun q => before q r).length) rows

def isCurrent (current server : Server) : Bool :=
  current.enabled && current.trusted && current.address = server.address &&
    current.trustEpoch = server.trustEpoch

def saveRecords (current : Server) (domain type : GoString) (records : List AnswerRecord)
    (rows : List ObservationRow) : List ObservationRow :=
  let rows := records.foldl (saveRecord current domain type) rows
  let rows := evict (fun r => r.serverID = current.id && r.domain = domain && r.type = type)
    precedesInSubject maxTrustedSubjectAddresses rows
  evict (fun _ => true) precedes maxTrustedAddresses rows

def saveTrustedObservation [CaseTables] (db : DB F) (server : Server) (result : ProbeResult F) :
    DB F :=
  let subject := normalizeSubject result.domain result.type
  if !result.success ∨ subject.2 ≠ str "A" ∨ subject.1 = [] ∨ result.records = [] then db
  else
    match findServer db server.id with
    | none => db
    | some current =>
      if isCurrent current server then
        { db with trustedObservations :=
            saveRecords current subject.1 subject.2 result.records db.trustedObservations }
      else db

section

variable [GoFloat F]

def referenceCutoff (now : Int) (historyHours : F) : Int :=
  if GoFloat.isNaN historyHours ∨ historyHours ≤ ofInt 0 then now
  else
    let hours :=
      if GoFloat.isInf historyHours ∨ ofInt 720 < historyHours then ofInt 720 else historyHours
    now - GoFloat.trunc (hours * ofInt 3600000)

def pruneTrustedReferences (now : Int) (historyHours : F) (db : DB F) : DB F :=
  { db with
    trustedObservations := delete (fun r => r.observedAt < now - retention ||
      r.expiresAt ≤ now && (historyHours ≤ ofInt 0 ||
        r.observedAt ≤ referenceCutoff now historyHours)) db.trustedObservations }

def extendReference (ref : Reference) (record : AnswerRecord) : Reference :=
  { ref with
    timestamp := max ref.timestamp record.observedAt
    answers := ref.answers ++ [record.value]
    records := ref.records ++ [record] }

/-- Add an answer to the last reference when it has the same source, else to a new one. -/
def addObservation (refs : List Reference) (o : ObservationRow) : List Reference :=
  let record : AnswerRecord :=
    { value := o.value, ttlSeconds := o.ttlSeconds, observedAt := o.observedAt,
      expiresAt := o.expiresAt }
  let first : Reference :=
    { records := [], serverID := o.serverID, address := o.address, timestamp := 0,
      rcode := str "NOERROR", answers := [], success := true }
  match refs.getLast? with
  | some last =>
    if last.serverID = o.serverID then refs.dropLast ++ [extendReference last record]
    else refs ++ [extendReference first record]
  | none => refs ++ [extendReference first record]

/-- The answers of trusted sources that are fresh or within the history. -/
def trustedReferences [CaseTables] (db : DB F) (domain : Domain) (now : Int) (historyHours : F) :
    List Reference :=
  let subject := normalizeSubject domain.name domain.type
  let rows := db.trustedObservations.filter fun o =>
    o.domain = subject.1 && o.type = subject.2 &&
      db.servers.any (fun s => s.id = o.serverID && s.trusted && s.enabled &&
        o.address = s.address) &&
      now - retention ≤ o.observedAt &&
      (now < o.expiresAt ||
        ofInt 0 < historyHours && referenceCutoff now historyHours < o.observedAt)
  let rows := rows.insertionSort fun q r =>
    q.serverID < r.serverID ∨ q.serverID = r.serverID ∧ ¬ r.value < q.value
  rows.foldl addObservation []

end

end DnsMonitor.Store.References

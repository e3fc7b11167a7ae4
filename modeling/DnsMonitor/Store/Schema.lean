import DnsMonitor.Go.Errors
import DnsMonitor.Go.Unicode
import DnsMonitor.Lib.Tables
import DnsMonitor.Model

namespace DnsMonitor.Store.Schema

open DnsMonitor.Model DnsMonitor.Lib.Tables
open DnsMonitor.Go.Strings DnsMonitor.Go.Unicode DnsMonitor.Go.Float

/-- An error the store returns: one of its own, or one of `database/sql`, of a violated
constraint or of `encoding/json`. -/
inductive StoreError where
  | text (message : String)
  | noRows
  | constraint
  | json
deriving DecidableEq

structure RoundRow (F : Type) where
  id : Int
  serverID : Int
  startedAt : Int
  finishedAt : Int
  nextDue : Int
  coveredUntil : Int
  auxiliary : Bool
  samples : Nat
  received : Nat
  successes : Nat
  latencyCount : Nat
  latencySum : F
  pollution : Nat
deriving DecidableEq

/-- The column `raw_json` holds the probe result it encodes, if it decodes at all. -/
structure ResultRow (F : Type) where
  id : Int
  roundID : Int
  serverID : Int
  timestamp : Int
  domain : GoString
  type : GoString
  detectedPollution : Nat
  effectivePollution : Nat
  oldestReference : Int
  rawJSON : Option (ProbeResult F)
  policyVersion : Int
deriving DecidableEq

structure BucketRow where
  roundID : Int
  bucketMS : Int
  count : Nat
deriving DecidableEq

structure AuditRow where
  id : Int
  serverID : Int
  domain : GoString
  type : GoString
  verdict : GoString
  note : GoString
  timestamp : Int
deriving DecidableEq

structure SnapshotRow (F : Type) where
  roundID : Int
  serverID : Int
  timestamp : Int
  pollution : GoString
  grade : Grade
  trusted : Bool
  evaluation : CurrentEvaluation F
deriving DecidableEq

structure ObservationRow where
  serverID : Int
  address : GoString
  domain : GoString
  type : GoString
  value : GoString
  ttlSeconds : Int
  observedAt : Int
  expiresAt : Int
deriving DecidableEq

/-- The tables, and the counters behind the two AUTOINCREMENT columns. -/
structure DB (F : Type) where
  config : Config F
  servers : List Server
  serverSeq : Int
  rounds : List (RoundRow F)
  results : List (ResultRow F)
  resultSeq : Int
  latencyBuckets : List BucketRow
  overrides : List Override
  overrideAudit : List AuditRow
  evaluationSnapshots : List (SnapshotRow F)
  trustedObservations : List ObservationRow
deriving DecidableEq

def normalizeSubject [CaseTables] (domain type : GoString) : GoString × GoString :=
  (trimSuffix (toLower (trimSpace domain)) (str "."), toUpper (trimSpace type))

def pollutionCode (v : GoString) : Nat :=
  if v = str "matched" then 1
  else if v = str "clean" then 2
  else if v = str "suspicious" then 3
  else if v = str "polluted" then 4
  else 0

def pollutionName (code : Nat) : GoString :=
  match code with
  | 1 => str "matched"
  | 2 => str "clean"
  | 3 => str "suspicious"
  | 4 => str "polluted"
  | _ => str "unknown"

/-- An automatic conviction under a policy before version 2 does not count. -/
def effectiveCode (detected : Nat) (policy : Int) (override : GoString) : Nat :=
  if override = str "clean" then 2
  else if override = str "polluted" then 4
  else if policy < 2 ∧ detected = 4 then 0
  else detected

theorem pollutionCode_le (v : GoString) : pollutionCode v ≤ 4 := by
  unfold pollutionCode
  split_ifs <;> omega

theorem effectiveCode_le {detected : Nat} (h : detected ≤ 4) (policy : Int) (override : GoString) :
    effectiveCode detected policy override ≤ 4 := by
  unfold effectiveCode
  split_ifs <;> omega

section

variable {F : Type}

def findServer (db : DB F) (id : Int) : Option Server := db.servers.find? (·.id = id)

theorem findServer_some {db : DB F} {id : Int} {s : Server} (h : findServer db id = some s) :
    s ∈ db.servers ∧ s.id = id :=
  ⟨List.mem_of_find?_eq_some h, by simpa using List.find?_some h⟩

def isAbout (serverID : Int) (domain type : GoString) (o : Override) : Bool :=
  o.serverID = serverID && o.domain = domain && o.type = type

def verdictOf (overrides : List Override) (serverID : Int) (domain type : GoString) : GoString :=
  match overrides.find? (isAbout serverID domain type) with
  | some o => o.verdict
  | none => []

/-- The scheduled rounds of a server, without the auxiliary reference lookups. -/
def formal (serverID : Int) (rounds : List (RoundRow F)) : List (RoundRow F) :=
  rounds.filter fun r => r.serverID = serverID && !r.auxiliary

theorem mem_formal {serverID : Int} {rounds : List (RoundRow F)} {r : RoundRow F} :
    r ∈ formal serverID rounds ↔ r ∈ rounds ∧ r.serverID = serverID ∧ r.auxiliary = false := by
  simp [formal]

/-- The order `finished_at, id` in which the queries take the last of several rounds. -/
def timeKey (r : RoundRow F) : Int ×ₗ Int := toLex (r.finishedAt, r.id)

theorem timeKey_le {q r : RoundRow F} : timeKey q ≤ timeKey r ↔
    q.finishedAt < r.finishedAt ∨ q.finishedAt = r.finishedAt ∧ q.id ≤ r.id := by
  simp [timeKey, Prod.Lex.toLex_le_toLex]

theorem timeKey_lt {q r : RoundRow F} : timeKey q < timeKey r ↔
    q.finishedAt < r.finishedAt ∨ q.finishedAt = r.finishedAt ∧ q.id < r.id := by
  simp [timeKey, Prod.Lex.toLex_lt_toLex]

/-- `DELETE FROM rounds WHERE p`, with the rows that reference a deleted round. -/
def deleteRounds (p : RoundRow F → Bool) (db : DB F) : DB F :=
  let isGone (id : Int) : Bool := db.rounds.any fun r => p r && r.id = id
  { db with
    rounds := delete p db.rounds
    results := delete (fun r => isGone r.roundID) db.results
    latencyBuckets := delete (fun b => isGone b.roundID) db.latencyBuckets
    evaluationSnapshots := delete (fun s => isGone s.roundID) db.evaluationSnapshots }

/-- `DELETE FROM servers WHERE id=?`, with all rows that reference the server. -/
def deleteServerRows (id : Int) (db : DB F) : DB F :=
  let db := deleteRounds (fun r => r.serverID = id) db
  { db with
    servers := delete (fun s => s.id = id) db.servers
    results := delete (fun r => r.serverID = id) db.results
    overrides := delete (fun o => o.serverID = id) db.overrides
    overrideAudit := delete (fun a => a.serverID = id) db.overrideAudit
    evaluationSnapshots := delete (fun s => s.serverID = id) db.evaluationSnapshots
    trustedObservations := delete (fun o => o.serverID = id) db.trustedObservations }

end

end DnsMonitor.Store.Schema

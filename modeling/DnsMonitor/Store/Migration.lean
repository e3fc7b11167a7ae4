import DnsMonitor.Store.Override

namespace DnsMonitor.Store.Migration

open DnsMonitor.Model DnsMonitor.Lib.Tables DnsMonitor.Store.Schema DnsMonitor.Store.Override
open DnsMonitor.Go.Strings DnsMonitor.Go.Float

variable {F : Type}

def overrideKey (o : Override) : Int × GoString × GoString := (o.serverID, o.domain, o.type)

def roundOwner (q : RoundRow F) : Int × Int := (q.id, q.serverID)

def resultOwner (r : ResultRow F) : Int × Int := (r.roundID, r.serverID)

/-- What every table keeps: its primary key, the counters, and the references between rows.
A result carries the server of its round and one of the codes, and a round is finished after
the epoch. -/
structure WellFormed (db : DB F) : Prop where
  serverSeq : 0 ≤ db.serverSeq
  server_seq : ∀ id ∈ db.servers.map (·.id), 0 < id ∧ id ≤ db.serverSeq
  server_ids : (db.servers.map (·.id)).Nodup
  round_ids : (db.rounds.map (·.id)).Nodup
  round_time : ∀ t ∈ db.rounds.map (·.finishedAt), 0 < t
  result_round : db.results.map resultOwner ⊆ db.rounds.map roundOwner
  result_code : ∀ n ∈ db.results.map (·.detectedPollution), n ≤ 4
  override_keys : (db.overrides.map overrideKey).Nodup

/-- A database of version 0, as the program of that version leaves it. What that version does
not have yet (two columns and the trusted observations) is not read. -/
structure Legacy (F : Type) where
  db : DB F
  wellFormed : WellFormed db

/-- The legacy codes were unknown=0, clean=1, polluted=2. -/
def migratedDetected (code : Nat) : Nat :=
  match code with
  | 1 => 2
  | 2 => 4
  | _ => 0

def hasVerdict (overrides : List Override) (verdict : GoString) (r : ResultRow F) : Bool :=
  overrides.any fun o => isAbout r.serverID r.domain r.type o && o.verdict = verdict

def migratedEffective (overrides : List Override) (r : ResultRow F) : Nat :=
  if hasVerdict overrides (str "polluted") r then 4
  else if hasVerdict overrides (str "clean") r then 2
  else if r.detectedPollution = 4 then 0
  else r.detectedPollution

/-- The five statements that lead from version 0 to version 2. -/
def migrate (db : DB F) : DB F :=
  let results := db.results.map fun r => { r with policyVersion := 0 }
  let results := results.map fun r =>
    { r with detectedPollution := migratedDetected r.detectedPollution }
  let results := results.map fun r =>
    { r with effectivePollution := migratedEffective db.overrides r }
  { db with
    servers := db.servers.map fun s => { s with trustEpoch := 0 }
    results
    rounds := db.rounds.map fun q => { q with pollution := worstEffective results q.id }
    trustedObservations := [] }

def emptyDB [GoFloat F] : DB F where
  config := defaultConfig
  servers := []
  serverSeq := 0
  rounds := []
  results := []
  resultSeq := 0
  latencyBuckets := []
  overrides := []
  overrideAudit := []
  evaluationSnapshots := []
  trustedObservations := []

def emptyLegacy [GoFloat F] : Legacy F where
  db := emptyDB
  wellFormed := by constructor <;> simp [emptyDB]

def openStore (legacy : Legacy F) : DB F := migrate legacy.db

end DnsMonitor.Store.Migration

import DnsMonitor.Store.Schema

namespace DnsMonitor.Store.Override

open DnsMonitor.Model DnsMonitor.Lib.Tables DnsMonitor.Store.Schema
open DnsMonitor.Go.Strings DnsMonitor.Go.Unicode DnsMonitor.Go.Errors

variable {F : Type} [CaseTables]

def errTrustedOverride : StoreError := .text "可信 DNS 不允许手动定罪；请先取消可信标记"

def isOf (serverID : Int) (domain type : GoString) (r : ResultRow F) : Bool :=
  r.serverID = serverID && r.domain = domain && r.type = type

/-- `INSERT ... ON CONFLICT DO UPDATE`. -/
def upsertOverride (o : Override) (overrides : List Override) : List Override :=
  if overrides.any (isAbout o.serverID o.domain o.type) then
    update (isAbout o.serverID o.domain o.type)
      (fun p => { p with verdict := o.verdict, note := o.note, updatedAt := o.updatedAt }) overrides
  else overrides ++ [o]

/-- The verdict of a result after a manual one, as the statement computes it. -/
def overriddenCode (verdict : GoString) (r : ResultRow F) : Nat :=
  if verdict = str "clean" then 2
  else if verdict = str "polluted" then 4
  else if r.policyVersion < 2 ∧ r.detectedPollution = 4 then 0
  else r.detectedPollution

/-- `COALESCE((SELECT MAX(effective_pollution) FROM results WHERE round_id=rounds.id),0)`. -/
def worstEffective (results : List (ResultRow F)) (roundID : Int) : Nat :=
  maxOf (·.effectivePollution) (results.filter (·.roundID = roundID))

def normalizeOverride (now : Int) (v : Override) : Override :=
  let subject := normalizeSubject v.domain v.type
  { v with domain := subject.1, type := subject.2, updatedAt := now }

/-- What a transaction writes that is not refused. -/
def putOverride (db : DB F) (v : Override) : DB F :=
  let audit : AuditRow :=
    { id := nextID (db.overrideAudit.map (·.id)), serverID := v.serverID, domain := v.domain,
      type := v.type, verdict := v.verdict, note := v.note, timestamp := v.updatedAt }
  let results := update (isOf v.serverID v.domain v.type)
    (fun r => { r with effectivePollution := overriddenCode v.verdict r }) db.results
  { db with
    overrideAudit := db.overrideAudit ++ [audit]
    overrides :=
      if v.verdict = str "auto" then delete (isAbout v.serverID v.domain v.type) db.overrides
      else upsertOverride v db.overrides
    results
    rounds := update
      (fun q => results.any fun r => isOf v.serverID v.domain v.type r && r.roundID = q.id)
      (fun q => { q with pollution := worstEffective results q.id }) db.rounds }

def checkTrusted (db : DB F) (v : Override) : Except StoreError Unit :=
  if v.verdict = str "polluted" then
    match findServer db v.serverID with
    | none => .error .noRows
    | some server => require (server.trusted = false) errTrustedOverride
  else .ok ()

def saveOverride (db : DB F) (now : Int) (v : Override) : Except StoreError (DB F) := do
  require (¬ (v.verdict ≠ str "auto" ∧ v.verdict ≠ str "clean" ∧ v.verdict ≠ str "polluted"))
    (.text "invalid verdict")
  let v := normalizeOverride now v
  require (¬ (v.domain = [] ∨ v.type = [])) (.text "domain and type are required")
  checkTrusted db v
  require ((findServer db v.serverID).isSome) .constraint
  return putOverride db v

end DnsMonitor.Store.Override

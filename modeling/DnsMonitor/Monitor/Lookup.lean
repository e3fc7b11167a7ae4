import DnsMonitor.Monitor.Probe
import DnsMonitor.Store.References

namespace DnsMonitor.Monitor.Lookup

open DnsMonitor.Model DnsMonitor.Store.Schema DnsMonitor.Store.References
open DnsMonitor.Monitor.Probe
open DnsMonitor.Go.Strings DnsMonitor.Go.Unicode DnsMonitor.Go.Float

variable {F : Type} [GoFloat F] [CaseTables]

/-- Bound the lifetime of a record and date it. -/
def stampRecord (now : Int) (record : AnswerRecord) : AnswerRecord :=
  let ttl := max 0 (min record.ttlSeconds 86400)
  { record with ttlSeconds := ttl, observedAt := now, expiresAt := now + ttl * 1000 }

def stampResult (domain : Domain) (now : Int) (result : ProbeResult F) : ProbeResult F :=
  let records :=
    if result.records = [] then
      (result.answers.filterMap fun value =>
        let normalized := normalizeAnswer domain.type value
        if normalized = [] then none else some ⟨normalized, 0, 0, 0⟩)
    else result.records
  { result with
    policyVersion := 2, timestamp := now, records := records.map (stampRecord now) }

def trustResult (result : ProbeResult F) : ProbeResult F :=
  { result with
    trusted := true
    pollution := str "clean"
    reason := utf8 "用户可信 DNS，不参与污染定罪" }

/-- Is the server, as it was read before, still the trusted source the store knows? -/
def isSource (db : DB F) (server : Server) : Bool :=
  match findServer db server.id with
  | some current => isCurrent current server
  | none => false

inductive Slot where
  | granted
  | paused
  | cancelled
deriving DecidableEq

/-- What the clock, the store and the other goroutines show to one lookup, in the order in
which it looks. -/
structure Turn (F : Type) where
  slot : Slot
  /-- The context is done when the slot is granted. -/
  cancelled : Bool
  /-- The store before the probe. -/
  before : DB F
  run : DoggoRun F
  now : Int
  /-- The store after the probe. -/
  after : DB F
  /-- The error of saving the observation, empty when there is none. -/
  saveErr : GoString

def noResult : ProbeResult F where
  comparedAt := 0
  records := []
  policyVersion := 0
  trusted := false
  serverID := 0
  timestamp := 0
  domain := []
  type := []
  received := false
  success := false
  latencyMS := ofInt 0
  rcode := []
  answers := []
  pollution := []
  reason := []
  references := []

def canceledErr : GoString := str "context canceled"

def Turn.probes (turn : Turn F) (server : Server) : Bool :=
  turn.slot = .granted && !turn.cancelled && (!server.trusted || isSource turn.before server)

def Turn.earlyErr (turn : Turn F) : GoString :=
  match turn.slot with
  | .paused => utf8 "探测已暂停"
  | .cancelled => canceledErr
  | .granted =>
    if turn.cancelled then canceledErr else utf8 "可信来源配置已变化，需重新采集"

/-- A lookup that is no reference lookup: it asks no cache. The error is empty when there is none. -/
def lookup (server : Server) (domain : Domain) (turn : Turn F) : ProbeResult F × GoString :=
  if !turn.probes server then (noResult, turn.earlyErr)
  else
    let result := stampResult domain turn.now (runDoggo server domain turn.run)
    if !server.trusted then (result, [])
    else if !isSource turn.after server then
      (result, utf8 "可信来源配置已变化，丢弃在途参考")
    else if turn.saveErr ≠ [] then
      (trustResult result, utf8 "保存可信参考失败: " ++ turn.saveErr)
    else (trustResult result, [])

theorem lookup_probed {server : Server} {turn : Turn F} (h : turn.probes server = true)
    (domain : Domain) : (lookup server domain turn).1.serverID = server.id ∧
      (lookup server domain turn).1.received = (runDoggo server domain turn.run).received ∧
      (lookup server domain turn).1.success = (runDoggo server domain turn.run).success := by
  have hid := runDoggo_serverID server domain turn.run
  unfold lookup
  simp only [h, Bool.not_true, Bool.false_eq_true, if_false]
  split_ifs
  · exact ⟨hid, rfl, rfl⟩
  · exact ⟨hid, rfl, rfl⟩
  · exact ⟨hid, rfl, rfl⟩
  · exact ⟨hid, rfl, rfl⟩

theorem lookup_early {server : Server} {domain : Domain} {turn : Turn F}
    (h : turn.probes server = false) : lookup server domain turn = (noResult, turn.earlyErr) := by
  simp [lookup, h]

end DnsMonitor.Monitor.Lookup

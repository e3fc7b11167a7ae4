import DnsMonitor.Go.Time
import DnsMonitor.Go.Unicode
import DnsMonitor.Model
import DnsMonitor.Monitor.Stamp
import Mathlib.Data.List.Destutter
import Mathlib.Data.List.Sort

namespace DnsMonitor.Monitor.Probe

open DnsMonitor.Model DnsMonitor.Monitor.Stamp
open DnsMonitor.Go.Strings DnsMonitor.Go.Unicode DnsMonitor.Go.Net DnsMonitor.Go.Time
open DnsMonitor.Go.Float

/-- The raw JSON of a TTL: missing, a string (`null` reads as the empty one), or other text. -/
inductive RawTTL where
  | absent
  | string (value : GoString)
  | other (raw : GoString)
deriving DecidableEq

structure DoggoRecord where
  name : GoString
  type : GoString
  address : GoString
  status : GoString
  rtt : GoString
  ttl : RawTTL
deriving DecidableEq

structure DoggoQuestion where
  name : GoString
  type : GoString
deriving DecidableEq

structure DoggoResponse where
  answers : List DoggoRecord
  authorities : List DoggoRecord
  additional : List DoggoRecord
  questions : List DoggoQuestion
deriving DecidableEq

structure DoggoOutput where
  responses : List DoggoResponse
  error : GoString
  errors : List GoString
deriving DecidableEq

section

variable [CaseTables]

def normalizeName (name : GoString) : GoString := toLower (trimSuffix name (str "."))

def joinWords (words : List GoString) : GoString := [byte ' '].intercalate words

def normalizeAnswer (type value : GoString) : GoString :=
  let value := trimSpace value
  if type = str "A" then
    match (parseIP value).bind IP.to4 with
    | some ip => ip.string
    | none => []
  else if type = str "CNAME" ∨ type = str "NS" ∨ type = str "PTR" then normalizeName value
  else if type = str "MX" ∨ type = str "SRV" then
    joinWords ((fields value).modifyLast normalizeName)
  else if type = str "SOA" then
    joinWords (((fields value).take 2).map normalizeName ++ (fields value).drop 2)
  else value

end

def boundedTTL (seconds : Int) : Int := if 86400 < seconds then 86400 else seconds

def parseSeconds (value : GoString) : Int :=
  match atoi value with
  | some seconds => if seconds ≤ 0 then 0 else boundedTTL seconds
  | none => 0

section

variable (F : Type) [GoFloat F]

def recordTTL : RawTTL → Int
  | .absent => 0
  | .string value =>
    match parseDuration F value with
    | some d => if d ≤ 0 ∨ d % second ≠ 0 then 0 else boundedTTL (d / second)
    | none => parseSeconds value
  | .other raw => parseSeconds raw

variable [CaseTables]

def answersFor (owner type : GoString) (r : DoggoRecord) : Bool :=
  equalFold (trimSuffix r.name (str ".")) owner && equalFold r.type type

/-- The alias of an owner and its smallest TTL, empty when it has none. An empty or a second
target is an error. -/
def aliasOf (owner : GoString) (answers : List DoggoRecord) : Option (GoString × Int) :=
  (answers.filter (answersFor owner (str "CNAME"))).foldlM (fun (target, aliasTTL) r =>
    let next := normalizeAnswer (str "CNAME") r.address
    if next = [] ∨ target ≠ [] ∧ target ≠ next then none
    else some (next, min (recordTTL F r.ttl) aliasTTL)) ([], 86400)

def ownRecords (owner type : GoString) (pathTTL now : Int) (answers : List DoggoRecord) :
    List AnswerRecord :=
  let values := (answers.filter (answersFor owner type)).filterMap fun r =>
    let value := normalizeAnswer type r.address
    if value = [] then none else some (value, min pathTTL (recordTTL F r.ttl))
  (((values.map (·.1)).dedup).insertionSort fun v w => ¬ w < v).map fun value =>
    let ttl := (((values.filter (·.1 = value)).map (·.2)).min?).getD 0
    { value, ttlSeconds := ttl, observedAt := now, expiresAt := now + ttl * 1000 }

/-- Follow the aliases from an owner on, for a bounded number of hops. -/
def followAliases (answers : List DoggoRecord) (type : GoString) (now : Int) :
    Nat → List GoString → GoString → Int → List AnswerRecord
  | 0, _, _, _ => []
  | hops + 1, seen, owner, pathTTL =>
    if owner ∈ seen then []
    else
      match if type = str "CNAME" then some ([], 86400) else aliasOf F owner answers with
      | none => []
      | some ([], _) => ownRecords F owner type pathTTL now answers
      | some (target, aliasTTL) =>
        followAliases answers type now hops (owner :: seen) target (min aliasTTL pathTTL)

def requestedRecords (answers : List DoggoRecord) (domain : Domain) (now : Int) :
    List AnswerRecord :=
  followAliases F answers domain.type now 32 [] (normalizeName domain.name) 86400

end

section

variable {F : Type} [GoFloat F] [CaseTables]

structure Decoded (F : Type) where
  received : Bool
  success : Bool
  latencyMS : F
  rcode : GoString
  answers : List GoString
  records : List AnswerRecord
  error : GoString
deriving DecidableEq

/-- The last status among the records, and the last valid round trip time. -/
def scanRecord (r : Decoded F) (record : DoggoRecord) : Decoded F :=
  { r with
    rcode := if record.status ≠ [] then toUpper record.status else r.rcode
    latencyMS := match parseDuration F record.rtt with
      | some d => if 0 ≤ d then ofInt (d / microsecond) / ofInt 1000 else r.latencyMS
      | none => r.latencyMS }

def isQuestion (domain : Domain) (q : DoggoQuestion) : Bool :=
  equalFold (trimSuffix q.name (str ".")) domain.name && equalFold q.type domain.type

/-- The rest of decoding, once the only response answers the question. -/
def decodeResponse (resp : DoggoResponse) (error : GoString) (domain : Domain) (now : Int)
    (r : Decoded F) : Decoded F :=
  let r := (resp.answers ++ resp.authorities ++ resp.additional).foldl scanRecord
    { r with received := true }
  let records := requestedRecords F resp.answers domain now
  let answers := ((records.map (·.value)).insertionSort fun v w => ¬ w < v).destutter (· ≠ ·)
  let rcode := if r.rcode = str "UNKNOWN" ∧ answers ≠ [] then str "NOERROR" else r.rcode
  let success : Bool := rcode = str "NOERROR" ∧ answers ≠ [] ∨ rcode = str "NXDOMAIN"
  let failure :=
    if rcode = str "UNKNOWN" then
      utf8 "doggo 未提供响应码（空回答）；无法判断 SERVFAIL/REFUSED/NODATA"
    else if rcode = str "NOERROR" then utf8 "NODATA：没有请求类型的记录"
    else rcode
  { r with
    records, answers, rcode
    success := success && error = []
    error := if error ≠ [] then error else if success then [] else failure }

/-- `decodeDoggo` of the output, which is missing when it is no JSON text of this form. -/
def decodeDoggo (output : Option DoggoOutput) (domain : Domain) (now : Int) :
    Option (Decoded F) :=
  let r : Decoded F :=
    { received := false, success := false, latencyMS := ofInt (-1), rcode := str "UNKNOWN",
      answers := [], records := [], error := [] }
  match output with
  | none => none
  | some out =>
    match out.responses with
    | [resp] =>
      match resp.questions with
      | [q] => if isQuestion domain q then some (decodeResponse resp out.error domain now r) else none
      | _ => none
    | _ =>
      some { r with error :=
        if out.error ≠ [] then out.error
        else match out.errors with
          | [] => utf8 "doggo 未返回唯一的 DNS 响应"
          | [] :: _ => utf8 "doggo 未返回唯一的 DNS 响应"
          | error :: _ => error }

inductive ContextError where
  | canceled
  | deadlineExceeded
deriving DecidableEq

/-- What happens to the child process of one probe, and when. -/
structure DoggoRun (F : Type) where
  startedAt : Int
  /-- A local IPv4 address for the upstream was found. -/
  hasSource : Bool
  finishedAt : Int
  latencyMS : F
  truncated : Bool
  /-- The error of the probe's context after the process has ended. -/
  contextErr : Option ContextError
  stdout : Option DoggoOutput
  decodedAt : Int
  /-- The error of the process, empty when it exits with zero. -/
  exitErr : GoString

/-- Was the probe running when the program was told to stop? -/
def DoggoRun.killed (run : DoggoRun F) : Bool := run.contextErr = some .canceled

def newResult (server : Server) (domain : Domain) (startedAt : Int) : ProbeResult F where
  comparedAt := 0
  records := []
  policyVersion := 2
  trusted := false
  serverID := server.id
  timestamp := startedAt
  domain := domain.name
  type := domain.type
  received := false
  success := false
  latencyMS := ofInt 0
  rcode := []
  answers := []
  pollution := str "unknown"
  reason := utf8 "尚未与可信 DNS 比较"
  references := []

/-- The raw output and the error text of a result are not modelled. -/
def runDoggo (server : Server) (domain : Domain) (run : DoggoRun F) : ProbeResult F :=
  let result := newResult server domain run.startedAt
  if hasPrefix (commandAddress server.address) (str "https://") ∧ !run.hasSource then result
  else
    let result := { result with timestamp := run.finishedAt, latencyMS := run.latencyMS }
    if run.truncated then result
    else if run.contextErr.isSome then result
    else
      match decodeDoggo run.stdout domain run.decodedAt with
      | none => result
      | some (parsed : Decoded F) =>
        { result with
          received := parsed.received
          success := parsed.success && !(run.exitErr ≠ [] && parsed.error = [])
          rcode := parsed.rcode
          answers := parsed.answers
          records := parsed.records
          latencyMS := if ofInt 0 ≤ parsed.latencyMS then parsed.latencyMS else result.latencyMS }

theorem scanRecord_received (r : Decoded F) (record : DoggoRecord) :
    (scanRecord r record).received = r.received := rfl

theorem scanRecords_received (records : List DoggoRecord) (r : Decoded F) :
    (records.foldl scanRecord r).received = r.received := by
  induction records generalizing r with
  | nil => rfl
  | cons record records ih =>
    rw [List.foldl_cons, ih, scanRecord_received]

theorem decodeDoggo_received {output : Option DoggoOutput} {domain : Domain} {now : Int}
    {r : Decoded F} (h : decodeDoggo output domain now = some r) (hs : r.success = true) :
    r.received = true := by
  unfold decodeDoggo at h
  dsimp only at h
  split at h
  · cases h
  · split at h
    · split at h
      · split_ifs at h
        cases h
        exact scanRecords_received _ _
      · cases h
    · cases h
      cases hs

theorem runDoggo_serverID (server : Server) (domain : Domain) (run : DoggoRun F) :
    (runDoggo server domain run).serverID = server.id := by
  unfold runDoggo
  dsimp only
  split_ifs
  · rfl
  · rfl
  · rfl
  · split <;> rfl

theorem runDoggo_received {server : Server} {domain : Domain} {run : DoggoRun F}
    (h : (runDoggo server domain run).success = true) :
    (runDoggo server domain run).received = true := by
  unfold runDoggo at h ⊢
  dsimp only at h ⊢
  split_ifs at h ⊢
  · cases h
  · cases h
  · cases h
  · split at h
    · cases h
    · rename_i hd
      simp only [Bool.and_eq_true] at h
      exact decodeDoggo_received hd h.1

theorem runDoggo_killed {run : DoggoRun F} (h : run.killed = true) (server : Server)
    (domain : Domain) : (runDoggo server domain run).received = false ∧
      (runDoggo server domain run).success = false := by
  have hc : run.contextErr.isSome = true := by
    rw [DoggoRun.killed, decide_eq_true_iff] at h
    rw [h]
    rfl
  unfold runDoggo
  dsimp only
  split_ifs
  · exact ⟨rfl, rfl⟩
  · exact ⟨rfl, rfl⟩
  · exact ⟨rfl, rfl⟩

end

end DnsMonitor.Monitor.Probe

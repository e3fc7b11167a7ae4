import DnsMonitor.Monitor.Probe

namespace DnsMonitor.Monitor.Comparison

open DnsMonitor.Model DnsMonitor.Monitor.Probe
open DnsMonitor.Go.Strings DnsMonitor.Go.Unicode DnsMonitor.Go.Net DnsMonitor.Go.Float

variable {F : Type} [GoFloat F] [CaseTables]

def ipv4Prefix (value : GoString) : UInt8 × UInt8 :=
  match (parseIP value).bind IP.to4 with
  | some ip => (ip.a, ip.b)
  | none => (0, 0)

structure Eligibility where
  value : GoString
  fresh : Bool
  usable : Bool

def referenceEligibility (record : AnswerRecord) (now : Int) (historyHours : F) : Eligibility :=
  let value := normalizeAnswer (str "A") record.value
  if value = [] ∨ record.observedAt ≤ 0 ∨ now < record.observedAt then ⟨value, false, false⟩
  else
    let fresh : Bool := 0 < record.ttlSeconds ∧ now < record.expiresAt
    let cutoff := now - GoFloat.trunc (historyHours * ofInt 3600000)
    ⟨value, fresh, fresh || (ofInt 0 < historyHours && cutoff < record.observedAt)⟩

/-- The records of successful references that may be compared with. -/
def usableRecords (refs : List Reference) (now : Int) (historyHours : F) : List Eligibility :=
  ((refs.filter fun ref => ref.success && ref.rcode = str "NOERROR").flatMap fun ref =>
    ref.records.map fun record => referenceEligibility record now historyHours).filter (·.usable)

/-- The verdict over the answers, or nothing at one that is no IPv4 address. -/
def compareAnswers (usable : List Eligibility) : GoString → List GoString → Option GoString
  | verdict, [] => some verdict
  | verdict, answer :: answers =>
    let value := normalizeAnswer (str "A") answer
    if value = [] then none
    else if usable.any fun e => e.fresh && e.value = value then compareAnswers usable verdict answers
    else if usable.any fun e => e.value = value then
      compareAnswers usable (if verdict = str "matched" then str "clean" else verdict) answers
    else if !usable.any fun e => ipv4Prefix e.value = ipv4Prefix value then some (str "polluted")
    else compareAnswers usable (str "suspicious") answers

def verdictReason (verdict : GoString) : GoString :=
  if verdict = str "matched" then utf8 "所有 IPv4 地址均命中未超过 TTL 的可信参考"
  else if verdict = str "clean" then
    utf8 "所有 IPv4 地址均在可信参考池中，部分仅命中近期历史"
  else if verdict = str "suspicious" then
    utf8 "出现可信参考池未见的 IPv4 地址，但前两段均能匹配参考池；规则评 E"
  else utf8 "出现可信参考池未见且前两段无法匹配的 IPv4 地址；疑似污染，规则评 F，可手动撤销"

def isComparable (result : ProbeResult F) : Bool :=
  result.success && result.type = str "A" && result.rcode = str "NOERROR" && result.answers ≠ []

def judge (result : ProbeResult F) (refs : List Reference) (now : Int) (historyHours : F) :
    GoString × GoString :=
  if !isComparable result then
    (str "unknown", utf8 "目标查询未得到可比较的 IPv4 结果")
  else
    let usable := usableRecords refs now historyHours
    if usable = [] then (str "unknown", utf8 "没有可用的可信 IPv4 参考")
    else
      match compareAnswers usable (str "matched") result.answers with
      | none => (str "unknown", utf8 "目标包含无法比较的 IPv4 地址")
      | some verdict => (verdict, verdictReason verdict)

def compareAt (result : ProbeResult F) (refs : List Reference) (now : Int) (historyHours : F) :
    ProbeResult F :=
  { result with
    references := refs
    policyVersion := 2
    comparedAt := now
    pollution := (judge result refs now historyHours).1
    reason := (judge result refs now historyHours).2 }

end DnsMonitor.Monitor.Comparison

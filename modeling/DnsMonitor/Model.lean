import DnsMonitor.Go.Float
import DnsMonitor.Go.Strings

namespace DnsMonitor.Model

open DnsMonitor.Go.Strings DnsMonitor.Go.Float

structure Domain where
  name : GoString
  type : GoString
deriving DecidableEq

structure Config (F : Type) where
  listen : GoString
  intervalSeconds : Int
  timeoutSeconds : Int
  concurrency : Int
  smartBackoff : Bool
  maxBackoffHours : F
  referenceTTLSeconds : Int
  referenceHistoryHours : F
  ratingWindowMinutes : Int
  ratingMinSamples : Int
  ratingMinCoverageMinutes : Int
  ratingWAvail : F
  ratingWSuccess : F
  ratingWLatency : F
  domains : List Domain
deriving DecidableEq

def defaultConfig {F : Type} [GoFloat F] : Config F where
  listen := str "0.0.0.0:8080"
  intervalSeconds := 300
  timeoutSeconds := 3
  concurrency := 2
  smartBackoff := true
  maxBackoffHours := ofInt 1
  referenceTTLSeconds := 300
  referenceHistoryHours := ofInt 1
  ratingWindowMinutes := 60
  ratingMinSamples := 3
  ratingMinCoverageMinutes := 5
  ratingWAvail := GoFloat.ofRat (35 / 100)
  ratingWSuccess := GoFloat.ofRat (30 / 100)
  ratingWLatency := GoFloat.ofRat (35 / 100)
  domains := [⟨str "www.youtube.com", str "A"⟩]

inductive Protocol where
  | udp
  | tcp
  | dot
  | doh
  | doh3
  | doq
  | dnscrypt
deriving DecidableEq

structure Server where
  trustEpoch : Int
  id : Int
  name : GoString
  provider : GoString
  address : GoString
  protocol : Protocol
  enabled : Bool
  trusted : Bool
  notes : GoString
  createdAt : Int
deriving DecidableEq

structure AnswerRecord where
  value : GoString
  ttlSeconds : Int
  observedAt : Int
  expiresAt : Int
deriving DecidableEq

structure Reference where
  records : List AnswerRecord
  serverID : Int
  address : GoString
  timestamp : Int
  rcode : GoString
  answers : List GoString
  success : Bool
deriving DecidableEq

structure ProbeResult (F : Type) where
  comparedAt : Int
  records : List AnswerRecord
  policyVersion : Int
  trusted : Bool
  serverID : Int
  timestamp : Int
  domain : GoString
  type : GoString
  received : Bool
  success : Bool
  latencyMS : F
  rcode : GoString
  answers : List GoString
  pollution : GoString
  reason : GoString
  references : List Reference
deriving DecidableEq

structure Round (F : Type) where
  auxiliary : Bool
  serverID : Int
  startedAt : Int
  finishedAt : Int
  nextDue : Int
  results : List (ProbeResult F)
deriving DecidableEq

structure Override where
  serverID : Int
  domain : GoString
  type : GoString
  verdict : GoString
  note : GoString
  updatedAt : Int
deriving DecidableEq

inductive Grade where
  | a
  | b
  | c
  | d
  | e
  | f
  | pending
  | unavailable
deriving DecidableEq

inductive PendingReason where
  | noSamples
  | qualityUnknown
  | insufficientSamples
  | insufficientCoverage
deriving DecidableEq

structure Metrics (F : Type) where
  samples : Int
  availability : F
  successRate : F
  averageMS : F
  p95MS : F
  coverage : F
  pollution : GoString
  grade : Grade
  score : F
deriving DecidableEq

structure CurrentEvaluation (F : Type) where
  metrics : Metrics F
  windowMinutes : Int
  minSamples : Int
  minCoverageMinutes : Int
  coveredMinutes : F
  qualityAt : Int
  pendingReason : Option PendingReason
deriving DecidableEq

structure ServerImportItem where
  row : Int
  key : GoString
  action : GoString
  server : Server
deriving DecidableEq

structure ServerImportResult where
  created : Int
  updated : Int
  skipped : Int
deriving DecidableEq

def retention : Int := 30 * 24 * 60 * 60 * 1000

end DnsMonitor.Model

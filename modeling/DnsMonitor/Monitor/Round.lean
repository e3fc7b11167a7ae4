import DnsMonitor.Monitor.Comparison
import DnsMonitor.Monitor.Lookup
import DnsMonitor.Store.Run

namespace DnsMonitor.Monitor.Round

open DnsMonitor.Model DnsMonitor.Lib DnsMonitor.Store.Schema DnsMonitor.Store.Rounds
open DnsMonitor.Store.Migration DnsMonitor.Store.Run
open DnsMonitor.Monitor.Probe DnsMonitor.Monitor.Comparison DnsMonitor.Monitor.Lookup
open DnsMonitor.Go.Strings DnsMonitor.Go.Unicode DnsMonitor.Go.Time DnsMonitor.Go.Float

section

variable {F : Type} [GoFloat F]

def backoff (ceiling : Int) : Nat → Int → Int
  | 0, delay => delay
  | n + 1, delay => if delay < ceiling then backoff ceiling n (min (delay * 2) ceiling) else delay

/-- The factor stands for `0.90 + rand.Float64()*0.10`. -/
def nextDelay (c : Config F) (failures previousFailures : Int) (jitter : F) : Int :=
  let base := c.intervalSeconds * second
  let ceiling := max base (GoFloat.trunc (c.maxBackoffHours * ofInt hour))
  let delay :=
    if c.smartBackoff ∧ ofInt 0 < c.maxBackoffHours ∧ 3 ≤ failures then
      backoff ceiling (failures - 2).toNat base
    else base
  let delay :=
    if failures = 0 ∧ 3 ≤ previousFailures ∧ 30 * second < delay then 30 * second else delay
  max (5 * second) (GoFloat.trunc (ofInt delay * jitter))

structure Visit (F : Type) where
  /-- The context is done before the domain. -/
  cancelled : Bool
  /-- The store when the server is read again. -/
  stored : DB F
  turn : Turn F
  /-- What the collection of references returns, and its error, empty when there is none. -/
  references : List Reference
  referenceErr : GoString
  comparedAt : Int

/-- The server as it is now, unless it was deleted, disabled or moved. -/
def Visit.current (v : Visit F) (server : Server) : Option Server :=
  (findServer v.stored server.id).filter fun current =>
    current.enabled && current.address = server.address

variable [CaseTables]

/-- The verdict on an untrusted result. A result without an IPv4 answer needs no references. -/
def classify (result : ProbeResult F) (v : Visit F) (c : Config F) : ProbeResult F × GoString :=
  if !isComparable result then
    (compareAt result [] v.comparedAt c.referenceHistoryHours, [])
  else
    let compared := compareAt result v.references v.comparedAt c.referenceHistoryHours
    if v.referenceErr = [] then (compared, [])
    else
      ({ compared with
        pollution := str "unknown"
        reason := utf8 "可信参考暂不可用: " ++ v.referenceErr }, v.referenceErr)

/-- The result a visit adds to the round, if any, and whether the round goes on after it. -/
def visitDomain (current : Server) (domain : Domain) (v : Visit F) (c : Config F) :
    Option (ProbeResult F) × Bool :=
  let (result, err) := lookup current domain v.turn
  if err ≠ [] then
    (if result.serverID ≠ 0 then
      some { result with pollution := str "unknown", reason := err } else none, false)
  else if result.trusted then (some result, true)
  else
    let (result, err) := classify result v c
    (some result, err = [])

def probeDomains (c : Config F) : Server → List (Domain × Visit F) → List (ProbeResult F)
  | _, [] => []
  | server, (domain, v) :: rest =>
    if v.cancelled then []
    else
      match v.current server with
      | none => []
      | some current =>
        match visitDomain current domain v c with
        | (result, true) => result.toList ++ probeDomains c current rest
        | (result, false) => result.toList

structure World (F : Type) where
  startedAt : Int
  visit : Nat → Visit F
  finishedAt : Int
  /-- The context is done after the last domain. -/
  cancelled : Bool
  jitter : F

structure Completion where
  error : Option StoreError
  serverID : Int
  nextDue : Int
  failures : Int
deriving DecidableEq

def World.visits (w : World F) (c : Config F) : List (Domain × Visit F) :=
  c.domains.mapIdx fun i domain => (domain, w.visit i)

def roundResults (server : Server) (c : Config F) (w : World F) : List (ProbeResult F) :=
  probeDomains c server (w.visits c)

def isOffline (results : List (ProbeResult F)) : Bool := results ≠ [] && results.all (!·.received)

def countFailures (results : List (ProbeResult F)) (cancelled : Bool) (previousFailures : Int) :
    Int :=
  if cancelled then previousFailures
  else if isOffline results then previousFailures + 1
  else 0

def completed (server : Server) (c : Config F) (previousFailures : Int) (w : World F) :
    Completion :=
  let failures := countFailures (roundResults server c w) w.cancelled previousFailures
  { error := none
    serverID := server.id
    nextDue := w.finishedAt + nextDelay c failures previousFailures w.jitter / millisecond
    failures }

def finishedRound (server : Server) (c : Config F) (previousFailures : Int) (w : World F) :
    Round F where
  auxiliary := false
  serverID := server.id
  startedAt := w.startedAt
  finishedAt := w.finishedAt
  nextDue := (completed server c previousFailures w).nextDue
  results := roundResults server c w

/-- Run a round and save it, in the store as it is by then. -/
def runRound (db : DB F) (server : Server) (c : Config F) (previousFailures : Int) (w : World F) :
    DB F × Completion :=
  let completion := completed server c previousFailures w
  if roundResults server c w = [] then (db, completion)
  else
    match saveRound db (finishedRound server c previousFailures w) with
    | .ok db => (db, completion)
    | .error e => (db, { completion with error := some e })

structure Sent (F : Type) where
  server : Server
  domain : Domain
  run : DoggoRun F

def Sent.result (p : Sent F) : ProbeResult F := runDoggo p.server p.domain p.run

def Sent.killed (p : Sent F) : Bool := p.run.killed

def probesSent (c : Config F) : Server → List (Domain × Visit F) → List (Sent F)
  | _, [] => []
  | server, (domain, v) :: rest =>
    if v.cancelled then []
    else
      match v.current server with
      | none => []
      | some current =>
        if !v.turn.probes current then []
        else ⟨current, domain, v.turn.run⟩ ::
          if (visitDomain current domain v c).2 then probesSent c current rest else []

def roundProbes (server : Server) (c : Config F) (w : World F) : List (Sent F) :=
  probesSent c server (w.visits c)

omit [GoFloat F] [CaseTables] in
theorem current_id {v : Visit F} {server current : Server} (h : v.current server = some current) :
    current.id = server.id := by
  obtain ⟨hf, _⟩ := Option.filter_eq_some_iff.mp h
  exact (findServer_some hf).2

omit [GoFloat F] [CaseTables] in
theorem earlyErr_ne_nil (turn : Turn F) : turn.earlyErr ≠ [] := by
  unfold Turn.earlyErr
  split
  · decide +kernel
  · decide +kernel
  · split_ifs
    · decide +kernel
    · decide +kernel

theorem visitDomain_early {current : Server} {domain : Domain} {v : Visit F} {c : Config F}
    (h : v.turn.probes current = false) : visitDomain current domain v c = (none, false) := by
  simp [visitDomain, lookup_early h, earlyErr_ne_nil, noResult]

theorem classify_result (result : ProbeResult F) (v : Visit F) (c : Config F) :
    (classify result v c).1.received = result.received ∧
      (classify result v c).1.success = result.success := by
  unfold classify
  dsimp only
  split_ifs
  · exact ⟨rfl, rfl⟩
  · exact ⟨rfl, rfl⟩
  · exact ⟨rfl, rfl⟩

theorem visitDomain_probed {current : Server} {v : Visit F} (h : v.turn.probes current = true)
    (hid : current.id ≠ 0) (domain : Domain) (c : Config F) :
    ∃ r, (visitDomain current domain v c).1 = some r ∧
      r.received = (runDoggo current domain v.turn.run).received ∧
      r.success = (runDoggo current domain v.turn.run).success := by
  obtain ⟨hserver, hreceived, hsuccess⟩ := lookup_probed h domain
  unfold visitDomain
  dsimp only
  split_ifs with herr hzero htrusted
  · exact ⟨_, rfl, hreceived, hsuccess⟩
  · exact absurd (hserver ▸ hid) hzero
  · exact ⟨_, rfl, hreceived, hsuccess⟩
  · obtain ⟨hr, hs⟩ := classify_result (lookup current domain v.turn).1 v c
    exact ⟨_, rfl, hr.trans hreceived, hs.trans hsuccess⟩

theorem results_of_probes {c : Config F} {server : Server} (hid : server.id ≠ 0)
    (visits : List (Domain × Visit F)) :
    (probeDomains c server visits).map (fun r => (r.received, r.success)) =
      (probesSent c server visits).map fun p => (p.result.received, p.result.success) := by
  induction visits generalizing server with
  | nil => rfl
  | cons visit rest ih =>
    obtain ⟨domain, v⟩ := visit
    simp only [probeDomains, probesSent]
    by_cases hc : v.cancelled = true
    · simp [hc]
    · simp only [hc, Bool.false_eq_true, if_false]
      cases hcur : v.current server with
      | none => rfl
      | some current =>
        have hcid : current.id ≠ 0 := current_id hcur ▸ hid
        cases hp : v.turn.probes current with
        | false => simp [hp, visitDomain_early hp]
        | true =>
          obtain ⟨r, hr, hreceived, hsuccess⟩ := visitDomain_probed hp hcid domain c
          have hv : visitDomain current domain v c =
              (some r, (visitDomain current domain v c).2) := Prod.ext hr rfl
          dsimp only
          rw [hv]
          simp only [hp, Bool.not_true, Bool.false_eq_true, if_false]
          cases (visitDomain current domain v c).2 with
          | false => simp [Sent.result, hreceived, hsuccess]
          | true => simp [Sent.result, hreceived, hsuccess, ih hcid]

end

section

local instance : CaseTables := asciiTables

def idleStore : DB ℚ := Runs.run step (openStore emptyLegacy) [.saveServer 900 exampleServer]

def storedServer : Server := { exampleServer with id := 1, createdAt := 900 }

def exampleRun (contextErr : Option ContextError) : DoggoRun ℚ :=
  { startedAt := 2000, hasSource := true, finishedAt := 2010, latencyMS := 10, truncated := false,
    contextErr, decodedAt := 2010, exitErr := [],
    stdout := some
      { responses := [
          { answers := [⟨str "www.youtube.com.", str "A", str "1.2.3.4", [], str "10ms",
              .string (str "60s")⟩],
            authorities := [], additional := [],
            questions := [⟨str "www.youtube.com.", str "A"⟩] }],
        error := [], errors := [] } }

def exampleVisit (db : DB ℚ) (contextErr : Option ContextError) : Visit ℚ :=
  { cancelled := false, stored := db, references := [], referenceErr := [], comparedAt := 2010,
    turn :=
      { slot := .granted, cancelled := false, before := db, run := exampleRun contextErr,
        now := 2010, after := db, saveErr := [] } }

def exampleWorld (db : DB ℚ) (contextErr : Option ContextError) : World ℚ :=
  { startedAt := 2000, visit := fun _ => exampleVisit db contextErr, finishedAt := 2010,
    cancelled := contextErr = some .canceled, jitter := 95 / 100 }

end

end DnsMonitor.Monitor.Round

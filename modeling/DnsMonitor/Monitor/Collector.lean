import DnsMonitor.Lib.Runs
import DnsMonitor.Monitor.Comparison
import DnsMonitor.Monitor.Lookup
import DnsMonitor.Monitor.Refresh
import DnsMonitor.Store.Run
import Mathlib.Logic.Function.Basic

namespace DnsMonitor.Monitor.Collector

open DnsMonitor.Model DnsMonitor.Store.Schema DnsMonitor.Store.References
open DnsMonitor.Store.Run (Event)
open DnsMonitor.Monitor.Comparison DnsMonitor.Monitor.Lookup DnsMonitor.Monitor.Refresh
open DnsMonitor.Go.Strings DnsMonitor.Go.Unicode DnsMonitor.Go.Net DnsMonitor.Go.Float

/-- In milliseconds. -/
def referenceMinInterval : Int := 30000

/-- What is known of the collections for a domain; `done` is the channel of the one that runs. -/
structure ReferenceCollection where
  done : Option Nat
  fingerprint : GoString
  nextAt : Int
  err : GoString
deriving DecidableEq

def newCollection : ReferenceCollection where
  done := none
  fingerprint := []
  nextAt := 0
  err := []

/-- A collection that runs: the address of what it writes in the end, and what it has kept. The
first of the sources that are left is the one it is at. -/
structure Work where
  key : GoString
  state : Nat
  done : Nat
  generation : Nat
  left : List Server
  refs : List Reference
  err : GoString
deriving DecidableEq

inductive Stage where
  /-- Before the next source. -/
  | turn
  | reading (now : Int)
  /-- Before it asks whether the source is the same. -/
  | checking
  /-- In `lookup`, before the slot. -/
  | acquiring
  | granted
  /-- In `lookup`, after the look at the context. -/
  | ready
  /-- In `lookup`, before the probe. -/
  | checked
  | probing
  | looked (lookupErr : GoString)
  | rereading (lookupErr : GoString) (now : Int)
  /-- Before the look at the context. -/
  | context
  /-- Before the look for an interruption. -/
  | interruption
  /-- After the loop. -/
  | breaking
  | ending (finished : Int)
deriving DecidableEq

inductive Note where
  | queried (serverID : Int)
  | usable
  | cancelled
  | paused
  | outdated
  /-- `acquire` refuses a slot because of a pause. -/
  | refused
deriving DecidableEq

/-- What a call does next, with what it is told where that is not in the model: an error of the
store (empty when there is none), a slot, the error of a lookup. -/
inductive Move where
  | context
  | clock
  | readPool (err : GoString)
  | listServers (err : GoString)
  | getServer (ok : Bool)
  | lock
  | wake
  /-- The cache answers. -/
  | hit
  | attempt (granted : Bool)
  | probe
  | answer (err : GoString)
  /-- The context may become done between the two looks at it. -/
  | finish (late : Bool)
deriving DecidableEq

/-- What a collection can see of everything else. -/
structure View (F : Type) where
  db : DB F
  now : Int
  concurrency : Int
  generation : Nat
  cancelled : Bool

structure Turn where
  work : Work
  stage : Stage
  note : Option Note

def nextStage (left : List Server) : Stage := if left = [] then .breaking else .turn

def Work.goto (w : Work) (stage : Stage) : Turn := ⟨w, stage, none⟩

def Work.skip (w : Work) : Turn :=
  ⟨{ w with left := w.left.tail }, nextStage w.left.tail, none⟩

section

variable {F : Type} [GoFloat F] [CaseTables]

def hasUsableReference (refs : List Reference) (now : Int) (historyHours : F) : Bool :=
  refs.any fun ref => ref.success && ref.rcode = str "NOERROR" &&
    ref.records.any fun record => (referenceEligibility record now historyHours).usable

def turn (v : View F) (historyHours : F) (domain : Domain) (w : Work) : Stage → Move → Option Turn
  | .turn, .clock => some (w.goto (.reading v.now))
  | .reading now, .readPool err =>
    let refs := trustedReferences v.db domain now historyHours
    some <|
      if err ≠ [] then { w with refs := [], err }.goto .breaking
      else if hasUsableReference refs now historyHours then
        ⟨{ w with refs, err := [] }, .breaking, some .usable⟩
      else { w with refs }.goto .checking
  | .checking, .getServer ok =>
    w.left.head?.map fun source =>
      if ok && isSource v.db source then w.goto .acquiring else w.skip
  | .acquiring, .hit => some (w.goto (.looked []))
  | .acquiring, .attempt granted =>
    if v.concurrency = 0 then some ⟨w, .looked (utf8 "探测已暂停"), some .refused⟩
    else if granted then some (w.goto .granted)
    else none
  | .acquiring, .context =>
    if v.cancelled then some ⟨w, .looked canceledErr, some .cancelled⟩ else none
  | .granted, .hit => some (w.goto (.looked []))
  | .granted, .context =>
    some (if v.cancelled then ⟨w, .looked canceledErr, some .cancelled⟩ else w.goto .ready)
  | .ready, .getServer ok =>
    w.left.head?.map fun source =>
      if ok && isSource v.db source then w.goto .checked
      else w.goto (.looked (utf8 "可信来源配置已变化，需重新采集"))
  | .checked, .probe =>
    w.left.head?.map fun source => ⟨w, .probing, some (.queried source.id)⟩
  | .probing, .answer err => some (w.goto (.looked err))
  | .looked lookupErr, .clock => some (w.goto (.rereading lookupErr v.now))
  | .rereading lookupErr now, .readPool err =>
    let refs := trustedReferences v.db domain now historyHours
    some <|
      if err ≠ [] then { w with refs := [], err }.goto .breaking
      else if hasUsableReference refs now historyHours then
        ⟨{ w with refs, err := [] }, .breaking, some .usable⟩
      else { w with refs, err := if lookupErr ≠ [] then lookupErr else w.err }.goto .context
  | .context, .context =>
    some (if v.cancelled then ⟨w, .breaking, some .cancelled⟩ else w.goto .interruption)
  | .interruption, .lock =>
    some <|
      if v.concurrency = 0 then ⟨w, .breaking, some .paused⟩
      else if w.generation ≠ v.generation then ⟨w, .breaking, some .outdated⟩
      else w.skip
  | .breaking, .clock => some (w.goto (.ending v.now))
  | _, _ => none

end

inductive Phase where
  | head
  /-- After the look at the context. -/
  | entered
  | timed (now : Int)
  | missed (now : Int) (refs : List Reference)
  | listed (now : Int) (refs : List Reference) (trusted : List Server) (fingerprint : GoString)
  /-- Another collection runs. -/
  | joined (done changed : Nat)
  | rejoined (done changed : Nat) (now : Int)
  | awaiting (done changed : Nat)
  | collecting (w : Work) (stage : Stage)
  | returned (refs : List Reference) (err : GoString)
deriving DecidableEq

structure Caller (F : Type) where
  domain : Domain
  config : Config F
  /-- Its context is done. -/
  cancelled : Bool
  phase : Phase

inductive Occurrence where
  | started (key : GoString) (done : Nat) (fingerprint : GoString) (startedAt : Int)
      (sources : List Int)
  | noted (done : Nat) (note : Note)
  /-- `finished` is what the collection has read from the clock. -/
  | ended (key : GoString) (done : Nat) (finished : Int) (cancelled : Bool)
  | queuedAll
  | configured (concurrency : Int) (keys : List GoString)
deriving DecidableEq

/-- `referenceCollections` maps a key to an address. -/
structure System (F : Type) where
  db : DB F
  now : Int
  concurrency : Int
  batch : BatchState
  /-- The open channel `changed`. -/
  changed : Nat
  heap : Nat → ReferenceCollection
  allocated : Nat
  referenceCollections : List (GoString × Nat)
  /-- How many channels `done` were made. -/
  channels : Nat
  closed : List Nat
  callers : Nat → Option (Caller F)
  log : List Occurrence

/-- A call takes one step at a time; between two of them anything may happen. -/
inductive Action (F : Type) where
  | tick (ms : Nat)
  | store (e : Event F)
  | queueAll (c : Config F) (servers : List Server)
  | startMember (serverID : Int)
  | completeBatch (refreshID serverID : Int) (error : GoString)
  | cancelBatch (reason : GoString)
  | refresh (c : Config F) (valid : List Int)
  /-- A slot is released. -/
  | signal
  | call (i : Nat) (domain : Domain) (c : Config F)
  | cancel (i : Nat)
  | move (i : Nat) (m : Move)

section

variable {F : Type}

/-- With the concurrency of the default configuration. -/
def initial (db : DB F) (now : Int) : System F where
  db
  now
  concurrency := 2
  batch := noBatch
  changed := 0
  heap _ := newCollection
  allocated := 0
  referenceCollections := []
  channels := 0
  closed := []
  callers _ := none
  log := []

def referenceKey (domain : Domain) : GoString := domain.name ++ 0 :: domain.type

def decimal (n : Int) : GoString := if n < 0 then byte '-' :: itoa n.natAbs else itoa n.natAbs

/-- What identifies a source in the fingerprint. -/
def sourceText (s : Server) : GoString :=
  decimal s.id ++ byte '/' :: (decimal s.trustEpoch ++ byte '/' :: (s.address ++ [0]))

def trustedSources (db : DB F) : List Server :=
  (db.servers.filter fun s => s.enabled && s.trusted).insertionSort fun a b => a.id ≤ b.id

/-- The fingerprint of a snapshot; `digest` is SHA-256 in hexadecimal. -/
def fingerprintOf (digest : GoString → GoString) (c : Config F) (trusted : List Server) :
    GoString :=
  decimal c.referenceTTLSeconds ++ byte '/' :: digest (trusted.flatMap sourceText)

def System.setCaller (s : System F) (i : Nat) (c : Caller F) : System F :=
  { s with callers := Function.update s.callers i (some c) }

def System.goto (s : System F) (i : Nat) (c : Caller F) (phase : Phase) : System F :=
  s.setCaller i { c with phase }

def System.view (s : System F) (c : Caller F) : View F where
  db := s.db
  now := s.now
  concurrency := s.concurrency
  generation := s.batch.cacheGeneration
  cancelled := c.cancelled

def System.entry (s : System F) (key : GoString) : System F × Nat :=
  match s.referenceCollections.lookup key with
  | some p => (s, p)
  | none =>
    ({ s with
        heap := Function.update s.heap s.allocated newCollection
        allocated := s.allocated + 1
        referenceCollections := (key, s.allocated) :: s.referenceCollections },
      s.allocated)

def newWork (s : System F) (c : Caller F) (p : Nat) (refs : List Reference)
    (trusted : List Server) : Work where
  key := referenceKey c.domain
  state := p
  done := s.channels
  generation := s.batch.cacheGeneration
  left := trusted
  refs
  err := []

def begin (s : System F) (i : Nat) (c : Caller F) (p : Nat) (refs : List Reference)
    (trusted : List Server) (fingerprint : GoString) : System F :=
  { s.goto i c (.collecting (newWork s c p refs trusted) (nextStage trusted)) with
    heap := Function.update s.heap p { s.heap p with done := some s.channels, fingerprint }
    channels := s.channels + 1
    log := s.log ++
      [.started (referenceKey c.domain) s.channels fingerprint s.now (trusted.map (·.id))] }

/-- A call that has found the pool empty takes the lock. -/
def lock (s : System F) (i : Nat) (c : Caller F) (now : Int) (refs : List Reference)
    (trusted : List Server) (fingerprint : GoString) : System F :=
  if s.concurrency = 0 then s.goto i c (.returned [] (utf8 "可信参考探测已暂停"))
  else
    let (s, p) := s.entry (referenceKey c.domain)
    match (s.heap p).done with
    | some done => s.goto i c (.joined done s.changed)
    | none =>
      if (s.heap p).fingerprint = fingerprint ∧ now < (s.heap p).nextAt then
        s.goto i c (.returned refs (s.heap p).err)
      else begin s i c p refs trusted fingerprint

def turnTo (s : System F) (i : Nat) (c : Caller F) (done : Nat) (t : Turn) : System F :=
  { s.goto i c (.collecting t.work t.stage) with
    log := s.log ++ (t.note.map (.noted done)).toList }

/-- The error of a collection that was interrupted, or its own. -/
def endErr (s : System F) (c : Caller F) (w : Work) : GoString :=
  if c.cancelled then canceledErr
  else if s.concurrency = 0 then utf8 "可信参考探测已暂停"
  else if w.generation ≠ s.batch.cacheGeneration then
    utf8 "手动刷新使在途可信采集失效，等待新一轮参考"
  else w.err

def finish (s : System F) (i : Nat) (c : Caller F) (w : Work) (finished : Int) (late : Bool) :
    System F :=
  let cancelled := c.cancelled || late
  let err := endErr s c w
  let nextAt :=
    if cancelled ∨ s.concurrency = 0 ∨ w.generation ≠ s.batch.cacheGeneration then 0
    else finished + referenceMinInterval
  { s.setCaller i { c with cancelled, phase := .returned w.refs err } with
    heap := Function.update s.heap w.state { s.heap w.state with done := none, nextAt, err }
    closed := w.done :: s.closed
    log := s.log ++ [.ended w.key w.done finished cancelled] }

/-- What `QueueAll` does to the collections when it starts a batch. -/
def resetAll (s : System F) : System F :=
  { s with
    heap := fun p =>
      if s.referenceCollections.any (·.2 = p) then { s.heap p with nextAt := 0 } else s.heap p
    log := s.log ++ [.queuedAll] }

/-- What `refresh` does under its lock. -/
def refresh (c : Config F) (valid : List Int) (s : System F) : System F :=
  let keys := c.domains.map referenceKey
  { s with
    referenceCollections := s.referenceCollections.filter fun e =>
      e.1 ∈ keys || (s.heap e.2).done ≠ none
    batch := updateBatch valid.contains (c.concurrency = 0) s.batch
    concurrency := c.concurrency
    changed := s.changed + 1
    log := s.log ++ [.configured c.concurrency keys] }

variable [GoFloat F] [CaseTables]

def collect (s : System F) (i : Nat) (c : Caller F) (w : Work) (stage : Stage) (m : Move) :
    Option (System F) :=
  match stage, m with
  | .ending finished, .finish late => some (finish s i c w finished late)
  | _, _ =>
    (turn (s.view c) c.config.referenceHistoryHours c.domain w stage m).map (turnTo s i c w.done)

/-- A step of a call; there is none if the move does not belong to its place. -/
def advance (digest : GoString → GoString) (s : System F) (i : Nat) (c : Caller F) (m : Move) :
    Option (System F) :=
  match c.phase, m with
  | .head, .context =>
    some (s.goto i c (if c.cancelled then .returned [] canceledErr else .entered))
  | .entered, .clock => some (s.goto i c (.timed s.now))
  | .timed now, .readPool err =>
    let refs := trustedReferences s.db c.domain now c.config.referenceHistoryHours
    some <| s.goto i c <|
      if err ≠ [] then .returned [] err
      else if hasUsableReference refs now c.config.referenceHistoryHours then .returned refs []
      else .missed now refs
  | .missed now refs, .listServers err =>
    let trusted := trustedSources s.db
    some <| s.goto i c <|
      if err ≠ [] then .returned [] err
      else .listed now refs trusted (fingerprintOf digest c.config trusted)
  | .listed now refs trusted fingerprint, .lock => some (lock s i c now refs trusted fingerprint)
  | .joined done changed, .clock => some (s.goto i c (.rejoined done changed s.now))
  | .rejoined done changed now, .readPool err =>
    let refs := trustedReferences s.db c.domain now c.config.referenceHistoryHours
    some <| s.goto i c <|
      if err ≠ [] then .returned [] err
      else if hasUsableReference refs now c.config.referenceHistoryHours then .returned refs []
      else .awaiting done changed
  | .awaiting done changed, .wake =>
    if done ∈ s.closed ∨ changed < s.changed then some (s.goto i c .head) else none
  | .awaiting _ _, .context =>
    if c.cancelled then some (s.goto i c (.returned [] canceledErr)) else none
  | .collecting w stage, m => collect s i c w stage m
  | _, _ => none

def step (digest : GoString → GoString) (s : System F) : Action F → System F
  | .tick ms => { s with now := s.now + ms }
  | .store e => { s with db := Store.Run.step s.db e }
  | .queueAll c servers =>
    let batch := (Refresh.queueAll c servers s.batch).2
    if startsBatch c s.batch then { resetAll s with batch } else { s with batch }
  | .startMember serverID => { s with batch := Refresh.startMember serverID s.batch }
  | .completeBatch refreshID serverID error =>
    { s with batch := Refresh.completeBatch refreshID serverID error s.batch }
  | .cancelBatch reason => { s with batch := Refresh.cancelBatch reason s.batch }
  | .refresh c valid => refresh c valid s
  | .signal => { s with changed := s.changed + 1 }
  | .call i domain config =>
    if (s.callers i).isNone then s.setCaller i { domain, config, cancelled := false, phase := .head }
    else s
  | .cancel i =>
    match s.callers i with
    | none => s
    | some c => s.setCaller i { c with cancelled := true }
  | .move i m =>
    match s.callers i with
    | none => s
    | some c => (advance digest s i c m).getD s

end

end DnsMonitor.Monitor.Collector

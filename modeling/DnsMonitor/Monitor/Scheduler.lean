import DnsMonitor.Lib.Runs
import DnsMonitor.Monitor.Config
import DnsMonitor.Monitor.Refresh
import DnsMonitor.Monitor.Round

namespace DnsMonitor.Monitor.Scheduler

open DnsMonitor.Model DnsMonitor.Monitor.Refresh DnsMonitor.Monitor.Config
open DnsMonitor.Monitor.Round (nextDelay)
open DnsMonitor.Go.Strings DnsMonitor.Go.Unicode DnsMonitor.Go.Time DnsMonitor.Go.Float

def maxQueued : Nat := 256

def maxDone : Nat := 50

structure ServerList where
  servers : List Server
  distinct : (servers.map (·.id)).Nodup

def ServerList.valid (l : ServerList) (serverID : Int) : Bool :=
  l.servers.any fun s => s.id = serverID && s.enabled

/-- A worker: as the how manieth it was started, for which server and for which batch. -/
structure Worker where
  number : Nat
  serverID : Int
  refreshID : Int
deriving DecidableEq

structure Completion where
  worker : Worker
  error : GoString
  nextDue : Int
  failures : Int
deriving DecidableEq

structure Schedule (F : Type) where
  batch : BatchState
  queued : List Int
  inFlight : List Int
  /-- The workers that have not sent their completion yet. -/
  workers : List Worker
  /-- The channel from the workers. -/
  done : List Completion
  /-- The configuration and the servers of the last refresh, if there was one. -/
  config : Option (Config F)
  servers : List Server
  nextDue : Int → Int
  failures : Int → Int
  /-- How many workers were started. -/
  started : Nat
  /-- `Run` has returned. -/
  stopped : Bool

section

variable {F : Type}

/-- Before the first refresh of `Run`, with what it has read from the summary. -/
def start (nextDue failures : Int → Int) : Schedule F where
  batch := noBatch
  queued := []
  inFlight := []
  workers := []
  done := []
  config := none
  servers := []
  nextDue
  failures
  started := 0
  stopped := false

def Schedule.concurrency (s : Schedule F) : Int := s.config.elim 0 (·.concurrency)

/-- `Queue` with the configuration and the server it has read. -/
def queue (c : Config F) (current : Except GoString Server) (serverID : Int) (s : Schedule F) :
    Except GoString Unit × Schedule F :=
  if c.concurrency = 0 then (.error (utf8 "探测已暂停（并发为 0）"), s)
  else
    match current with
    | .error e => (.error e, s)
    | .ok server =>
      if !server.enabled then (.error (utf8 "服务器已禁用"), s)
      else if serverID ∈ s.queued ∨ serverID ∈ s.inFlight then
        (.error (utf8 "该服务器已在队列中或正在探测"), s)
      else if maxQueued ≤ s.queued.length then
        (.error (utf8 "手动探测队列已满，请稍后再试"), s)
      else (.ok (), { s with queued := serverID :: s.queued })

def Schedule.manual (s : Schedule F) (serverID : Int) : Bool :=
  serverID ∈ s.queued || batchWaiting serverID s.batch

/-- The order of the candidates: those asked for by hand first, then by deadline. -/
def Schedule.before (s : Schedule F) (a b : Server) : Bool :=
  if s.manual a.id ≠ s.manual b.id then s.manual a.id
  else s.nextDue a.id < s.nextDue b.id

def Schedule.skips (s : Schedule F) (now : Int) (server : Server) : Bool :=
  !server.enabled || server.id ∈ s.inFlight ||
    (!s.manual server.id && now < s.nextDue server.id)

def Schedule.refreshID (s : Schedule F) (serverID : Int) : Int :=
  if batchWaiting serverID s.batch then s.batch.status.elim 0 (·.id) else 0

def startRound (serverID : Int) (s : Schedule F) : Schedule F :=
  { s with
    batch := if batchWaiting serverID s.batch then startMember serverID s.batch else s.batch
    queued := s.queued.filter (· ≠ serverID)
    inFlight := serverID :: s.inFlight
    workers := s.workers ++ [⟨s.started, serverID, s.refreshID serverID⟩]
    started := s.started + 1 }

def dispatchAll (now : Int) : List Server → Schedule F → Schedule F
  | [], s => s
  | server :: rest, s =>
    if s.concurrency ≤ s.inFlight.length then s
    else if s.skips now server then dispatchAll now rest s
    else dispatchAll now rest (startRound server.id s)

def dispatch (now : Int) (s : Schedule F) : Schedule F :=
  if s.concurrency = 0 then s
  else dispatchAll now (s.servers.insertionSort fun a b => !s.before b a) s

/-- A worker sends its completion, unless the channel is full. -/
def finish (number : Nat) (error : GoString) (nextDue failures : Int) (s : Schedule F) :
    Schedule F :=
  match s.workers.find? (·.number = number) with
  | none => s
  | some worker =>
    if maxDone ≤ s.done.length then s
    else
      { s with
        workers := s.workers.filter (· ≠ worker)
        done := s.done ++ [⟨worker, error, nextDue, failures⟩] }

def receive (s : Schedule F) : Schedule F :=
  match s.done with
  | [] => s
  | c :: done =>
    { s with
      done
      inFlight := s.inFlight.filter (· ≠ c.worker.serverID)
      batch := completeBatch c.worker.refreshID c.worker.serverID c.error s.batch
      nextDue := Function.update s.nextDue c.worker.serverID c.nextDue
      failures := Function.update s.failures c.worker.serverID c.failures }

def stop (s : Schedule F) : Schedule F :=
  { s with batch := cancelBatch (utf8 "程序停止，本轮刷新未完成") s.batch, stopped := true }

end

section

variable {F : Type} [GoFloat F]

/-- The operator `!=` on `float64`. -/
def differs (x y : F) : Bool := !(x ≤ y && y ≤ x)

def Schedule.reschedules (s : Schedule F) (c : Config F) : Bool :=
  s.config.any fun old => 0 < old.intervalSeconds &&
    (old.intervalSeconds ≠ c.intervalSeconds || old.smartBackoff ≠ c.smartBackoff ||
      differs old.maxBackoffHours c.maxBackoffHours)

def Schedule.dueAfter (s : Schedule F) (c : Config F) (now : Int) (jitter : Int → F) (i : Nat)
    (serverID : Int) : Int :=
  let due := if s.nextDue serverID = 0 then now + ((i % 240 : Nat) : Int) * 250
    else s.nextDue serverID
  if s.reschedules c then
    min due (now + nextDelay c (s.failures serverID) (s.failures serverID) (jitter serverID) /
      millisecond)
  else due

variable [CaseTables]

/-- `refresh` with the configuration and the servers it has read. A configuration that the
program does not accept changes nothing. -/
def refresh (c : Config F) (l : ServerList) (now : Int) (jitter : Int → F) (s : Schedule F) :
    Schedule F :=
  match validateConfig c with
  | .error _ => s
  | .ok c =>
    { s with
      batch := updateBatch l.valid (c.concurrency = 0) s.batch
      queued := s.queued.filter l.valid
      config := some c
      servers := l.servers
      nextDue := fun serverID =>
        if l.valid serverID then
          s.dueAfter c now jitter (l.servers.findIdx (·.id = serverID)) serverID
        else 0
      failures := fun serverID => if l.valid serverID then s.failures serverID else 0 }

inductive Action (F : Type) where
  | queueAll (c : Config F) (l : ServerList)
  | queue (c : Config F) (current : Except GoString Server) (serverID : Int)
  | refresh (c : Config F) (l : ServerList) (now : Int) (jitter : Int → F)
  | dispatch (now : Int)
  | finish (number : Nat) (error : GoString) (nextDue failures : Int)
  | receive
  | stop

/-- The calls of `Queue` and `QueueAll` and the workers go on when `Run` has returned. -/
def step (s : Schedule F) : Action F → Schedule F
  | .queueAll c l => { s with batch := (queueAll c l.servers s.batch).2 }
  | .queue c current serverID => (queue c current serverID s).2
  | .refresh c l now jitter => if s.stopped then s else refresh c l now jitter s
  | .dispatch now => if s.stopped then s else dispatch now s
  | .finish number error nextDue failures => finish number error nextDue failures s
  | .receive => if s.stopped then s else receive s
  | .stop => stop s

end

end DnsMonitor.Monitor.Scheduler

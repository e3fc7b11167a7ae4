import DnsMonitor.Model

namespace DnsMonitor.Monitor.Refresh

open DnsMonitor.Model DnsMonitor.Go.Strings DnsMonitor.Go.Float

structure RefreshStatus where
  id : Int
  total : Nat
  completed : Nat
  pending : Bool
  error : GoString
deriving DecidableEq

/-- The batch of a manual refresh, in the fields of the monitor. A member of the batch is marked
once its round has started. -/
structure BatchState where
  batch : List (Int × Bool)
  batchSequence : Int
  cacheGeneration : Nat
  status : Option RefreshStatus
deriving DecidableEq

def noBatch : BatchState where
  batch := []
  batchSequence := 0
  cacheGeneration := 0
  status := none

def BatchState.pending (m : BatchState) : Option RefreshStatus := m.status.filter (·.pending)

def queueAllPaused : GoString := utf8 "探测已暂停（并发为 0），请先恢复探测"

/-- `QueueAll` with the configuration and the servers it has read. A batch that is pending is
returned as it is; otherwise a new one starts, and a probe that is running may no longer fill
the reference cache. -/
def queueAll {F : Type} (c : Config F) (servers : List Server) (m : BatchState) :
    Except GoString RefreshStatus × BatchState :=
  if c.concurrency = 0 then (.error queueAllPaused, m)
  else
    match m.pending with
    | some status => (.ok status, m)
    | none =>
      let batch := (servers.filter (·.enabled)).map fun s => (s.id, false)
      let status : RefreshStatus :=
        { id := m.batchSequence + 1, total := batch.length, completed := 0, pending := batch ≠ [],
          error := [] }
      (.ok status,
        { batch, batchSequence := m.batchSequence + 1, cacheGeneration := m.cacheGeneration + 1,
          status := some status })

instance lawfulMember : LawfulBEq (Int × Bool) := inferInstance

def batchWaiting (serverID : Int) (m : BatchState) : Bool := (serverID, false) ∈ m.batch

def cancelBatch (reason : GoString) (m : BatchState) : BatchState :=
  match m.pending with
  | none => m
  | some status =>
    { m with batch := [], status := some { status with pending := false, error := reason } }

/-- Drop the members that are no longer enabled servers; without concurrency give up. -/
def updateBatch (valid : Int → Bool) (paused : Bool) (m : BatchState) : BatchState :=
  match m.pending with
  | none => m
  | some status =>
    let batch := m.batch.filter fun p => valid p.1
    let dropped := m.batch.length - batch.length
    let status :=
      { status with
        completed := status.completed + dropped
        error := if 0 < dropped then utf8 "部分服务器已禁用或删除，已跳过" else status.error }
    if batch = [] then { m with batch, status := some { status with pending := false } }
    else
      let m := { m with batch, status := some status }
      if paused then
        cancelBatch (utf8 "探测已暂停，本轮刷新未完成；恢复探测后可重新点击刷新") m
      else m

def startMember (serverID : Int) (m : BatchState) : BatchState :=
  { m with batch := m.batch.map fun p => if p.1 = serverID then (p.1, true) else p }

def completeBatch (refreshID serverID : Int) (error : GoString) (m : BatchState) : BatchState :=
  match m.pending with
  | none => m
  | some status =>
    if refreshID = 0 ∨ refreshID ≠ status.id ∨ (serverID, true) ∉ m.batch then m
    else
      let batch := m.batch.filter (·.1 ≠ serverID)
      { m with
        batch
        status := some
          { status with
            completed := status.completed + 1
            error := if error ≠ [] then error else status.error
            pending := batch ≠ [] } }

def startsBatch {F : Type} (c : Config F) (m : BatchState) : Bool :=
  c.concurrency ≠ 0 && m.pending.isNone

theorem queueAll_generation {F : Type} (c : Config F) (servers : List Server) (m : BatchState) :
    (queueAll c servers m).2.cacheGeneration =
      if startsBatch c m = true then m.cacheGeneration + 1 else m.cacheGeneration := by
  unfold queueAll startsBatch
  by_cases hc : c.concurrency = 0
  · simp [hc]
  · cases hp : m.pending with
    | none => simp [hc]
    | some status => simp [hc]

theorem cancelBatch_generation (reason : GoString) (m : BatchState) :
    (cancelBatch reason m).cacheGeneration = m.cacheGeneration := by
  unfold cancelBatch
  split <;> rfl

theorem updateBatch_generation (valid : Int → Bool) (paused : Bool) (m : BatchState) :
    (updateBatch valid paused m).cacheGeneration = m.cacheGeneration := by
  unfold updateBatch
  split
  · rfl
  · dsimp only
    by_cases hb : m.batch.filter (fun p => valid p.1) = []
    · rw [if_pos hb]
    · rw [if_neg hb]
      cases paused with
      | true => exact cancelBatch_generation _ _
      | false => rfl

theorem completeBatch_generation (refreshID serverID : Int) (error : GoString) (m : BatchState) :
    (completeBatch refreshID serverID error m).cacheGeneration = m.cacheGeneration := by
  unfold completeBatch
  split
  · rfl
  · split_ifs <;> rfl

end DnsMonitor.Monitor.Refresh

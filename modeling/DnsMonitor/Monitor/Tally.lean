import DnsMonitor.Monitor.Scheduler
import Mathlib.Data.List.Perm.Subperm

namespace DnsMonitor.Monitor.Tally

open DnsMonitor.Model DnsMonitor.Lib DnsMonitor.Monitor.Refresh DnsMonitor.Monitor.Config
open DnsMonitor.Monitor.Scheduler
open DnsMonitor.Go.Strings DnsMonitor.Go.Unicode DnsMonitor.Go.Float

inductive Occurrence where
  | queuedAll (refreshID : Int) (members : List Int)
  | started (worker : Worker)
  /-- `Completed` goes up for a member: its worker's completion has come, or it was dropped. -/
  | counted (refreshID serverID : Int) (worker : Option Worker)
deriving DecidableEq

def Occurrence.members (refreshID : Int) : Occurrence → List Int
  | .queuedAll id members => if id = refreshID then members else []
  | _ => []

def Occurrence.member (refreshID : Int) : Occurrence → List Int
  | .counted id serverID _ => if id = refreshID then [serverID] else []
  | _ => []

def Occurrence.round : Occurrence → List Nat
  | .started worker => [worker.number]
  | _ => []

def membersOf (refreshID : Int) (log : List Occurrence) : List Int :=
  log.flatMap (·.members refreshID)

def countedOf (refreshID : Int) (log : List Occurrence) : List Int :=
  log.flatMap (·.member refreshID)

def roundsOf (log : List Occurrence) : List Nat := log.flatMap (·.round)

theorem membersOf_append (refreshID : Int) (log l : List Occurrence) :
    membersOf refreshID (log ++ l) = membersOf refreshID log ++ membersOf refreshID l :=
  List.flatMap_append

theorem countedOf_append (refreshID : Int) (log l : List Occurrence) :
    countedOf refreshID (log ++ l) = countedOf refreshID log ++ countedOf refreshID l :=
  List.flatMap_append

def dropped (valid : Int → Bool) (m : BatchState) : List Occurrence :=
  match m.pending with
  | none => []
  | some status =>
    (m.batch.filter fun p => !valid p.1).map fun p => .counted status.id p.1 none

def arrived (worker : Worker) (m : BatchState) : List Occurrence :=
  match m.pending with
  | none => []
  | some status =>
    if worker.refreshID = 0 ∨ worker.refreshID ≠ status.id ∨
        (worker.serverID, true) ∉ m.batch then []
    else [.counted status.id worker.serverID (some worker)]

/-- A status and the members that are left are what the occurrences say. -/
structure Agrees (status : RefreshStatus) (left : List Int) (log : List Occurrence) : Prop where
  total : status.total = (membersOf status.id log).length
  completed : status.completed = (countedOf status.id log).length
  pending : status.pending = true ↔ left ≠ []
  /-- A batch that was not given up has lost nobody. -/
  exact : status.pending = true ∨ status.error = [] →
    (countedOf status.id log ++ left).Perm (membersOf status.id log)

structure Tallied (m : BatchState) (log : List Occurrence) : Prop where
  idle : m.status = none → m.batch = []
  sequence : ∀ status ∈ m.status, status.id = m.batchSequence
  agrees : ∀ status ∈ m.status, Agrees status (m.batch.map (·.1)) log
  distinct : ∀ refreshID, (membersOf refreshID log).Nodup
  within : ∀ refreshID, (countedOf refreshID log).Subperm (membersOf refreshID log)
  coming : ∀ refreshID, m.batchSequence < refreshID →
    membersOf refreshID log = [] ∧ countedOf refreshID log = []

theorem pending_eq_some {m : BatchState} {status : RefreshStatus} :
    m.pending = some status ↔ m.status = some status ∧ status.pending = true := by
  simp [BatchState.pending, Option.filter_eq_some_iff]

theorem tallied_noBatch : Tallied noBatch [] where
  idle _ := rfl
  sequence status hs := by cases hs
  agrees status hs := by cases hs
  distinct _ := List.nodup_nil
  within _ := List.Subperm.refl _
  coming _ _ := ⟨rfl, rfl⟩

theorem Tallied.count {m : BatchState} {log : List Occurrence} (h : Tallied m log)
    {status : RefreshStatus} (hs : m.pending = some status) (status' : RefreshStatus)
    {batch : List (Int × Bool)} {gone : List Int} {l : List Occurrence}
    (hmembers : ∀ refreshID, membersOf refreshID l = [])
    (hcounted : ∀ refreshID, countedOf refreshID l = if refreshID = status.id then gone else [])
    (hleft : (gone ++ batch.map (·.1)).Perm (m.batch.map (·.1)))
    (hid : status'.id = status.id) (htotal : status'.total = status.total)
    (hcompleted : status'.completed = status.completed + gone.length)
    (hpending : status'.pending = true ↔ batch ≠ []) :
    Tallied { m with batch, status := some status' } (log ++ l) := by
  obtain ⟨hstatus, hp⟩ := pending_eq_some.mp hs
  have ha := h.agrees status hstatus
  have hseq := h.sequence status hstatus
  have hall : ∀ refreshID, membersOf refreshID (log ++ l) = membersOf refreshID log := by
    intro refreshID
    rw [membersOf_append, hmembers, List.append_nil]
  have hnow : countedOf status.id (log ++ l) = countedOf status.id log ++ gone := by
    rw [countedOf_append, hcounted, if_pos rfl]
  have hperm : (countedOf status.id (log ++ l) ++ batch.map (·.1)).Perm
      (membersOf status.id log) := by
    rw [hnow, List.append_assoc]
    exact (hleft.append_left _).trans (ha.exact (.inl hp))
  constructor
  · intro hnone
    cases hnone
  · intro _ ho
    cases ho
    exact hid.trans hseq
  · intro _ ho
    cases ho
    constructor
    · rw [htotal, hid, hall]
      exact ha.total
    · rw [hcompleted, hid, hnow, List.length_append, ha.completed]
    · simpa using hpending
    · intro _
      rw [hid, hall]
      exact hperm
  · intro refreshID
    rw [hall]
    exact h.distinct refreshID
  · intro refreshID
    rw [hall]
    by_cases he : refreshID = status.id
    · rw [he]
      exact (List.sublist_append_left _ _).subperm.trans hperm.subperm
    · rw [countedOf_append, hcounted, if_neg he, List.append_nil]
      exact h.within refreshID
  · intro refreshID hlt
    have hne : refreshID ≠ status.id := by
      rw [hseq]
      exact ne_of_gt hlt
    rw [hall, countedOf_append, hcounted, if_neg hne, List.append_nil]
    exact h.coming refreshID hlt

theorem tallied_cancelBatch {m : BatchState} {log : List Occurrence} (h : Tallied m log)
    {reason : GoString} (hreason : reason ≠ []) : Tallied (cancelBatch reason m) log := by
  unfold cancelBatch
  cases hs : m.pending with
  | none => exact h
  | some status =>
    obtain ⟨hstatus, _⟩ := pending_eq_some.mp hs
    have ha := h.agrees status hstatus
    constructor
    · intro hnone
      cases hnone
    · intro _ ho
      cases ho
      exact h.sequence status hstatus
    · intro _ ho
      cases ho
      refine ⟨ha.total, ha.completed, by simp, ?_⟩
      intro hor
      exact absurd (hor.resolve_left (by simp)) hreason
    · exact h.distinct
    · exact h.within
    · exact h.coming

theorem membersOf_map {α : Type} (l : List α) (refreshID id : Int) (server : α → Int)
    (worker : Option Worker) :
    membersOf refreshID (l.map fun p => .counted id (server p) worker) = [] := by
  simp [membersOf, Occurrence.members]

theorem countedOf_map {α : Type} (l : List α) (refreshID id : Int) (server : α → Int)
    (worker : Option Worker) :
    countedOf refreshID (l.map fun p => .counted id (server p) worker) =
      if refreshID = id then l.map server else [] := by
  by_cases h : refreshID = id
  · rw [if_pos h, countedOf, List.flatMap_map, List.map_eq_flatMap]
    simp [Occurrence.member, h]
  · simp [countedOf, Occurrence.member, h, Ne.symm h]

/-- Without concurrency the batch is given up after the members that are gone were counted. -/
theorem tallied_updateBatch {m : BatchState} {log : List Occurrence} (h : Tallied m log)
    (valid : Int → Bool) (paused : Bool) :
    Tallied (updateBatch valid paused m) (log ++ dropped valid m) := by
  unfold updateBatch dropped
  cases hs : m.pending with
  | none => simpa using h
  | some status =>
    have hleft : ((m.batch.filter fun p => !valid p.1).map (·.1) ++
        (m.batch.filter fun p => valid p.1).map (·.1)).Perm (m.batch.map (·.1)) := by
      rw [← List.map_append]
      apply List.Perm.map
      exact List.perm_append_comm.trans (List.filter_append_perm _ _)
    have hlength : m.batch.length - (m.batch.filter fun p => valid p.1).length =
        ((m.batch.filter fun p => !valid p.1).map (·.1)).length := by
      have := hleft.length_eq
      simp only [List.length_append, List.length_map] at this ⊢
      omega
    have hcount := fun (status' : RefreshStatus) => h.count hs status'
      (membersOf_map (m.batch.filter fun p => !valid p.1) · status.id (·.1) none)
      (countedOf_map (m.batch.filter fun p => !valid p.1) · status.id (·.1) none) hleft
    obtain ⟨_, hp⟩ := pending_eq_some.mp hs
    dsimp only
    by_cases hb : m.batch.filter (fun p => valid p.1) = []
    · rw [if_pos hb]
      apply hcount
      · rfl
      · rfl
      · exact congrArg (status.completed + ·) hlength
      · simp [hb]
    · rw [if_neg hb]
      have hnext := hcount
        { status with
          completed := status.completed + (m.batch.length -
            (m.batch.filter fun p => valid p.1).length)
          error := if 0 < m.batch.length - (m.batch.filter fun p => valid p.1).length then
            utf8 "部分服务器已禁用或删除，已跳过" else status.error }
        rfl rfl (congrArg (status.completed + ·) hlength) (by simp [hp, hb])
      cases paused with
      | true => exact tallied_cancelBatch hnext (by decide +kernel)
      | false => exact hnext

theorem tallied_completeBatch {m : BatchState} {log : List Occurrence} (h : Tallied m log)
    (worker : Worker) (error : GoString) :
    Tallied (completeBatch worker.refreshID worker.serverID error m)
      (log ++ arrived worker m) := by
  unfold completeBatch arrived
  cases hs : m.pending with
  | none => simpa using h
  | some status =>
    obtain ⟨hstatus, hp⟩ := pending_eq_some.mp hs
    dsimp only
    by_cases hc : worker.refreshID = 0 ∨ worker.refreshID ≠ status.id ∨
        (worker.serverID, true) ∉ m.batch
    · simpa [if_pos hc] using h
    · rw [if_neg hc, if_neg hc]
      rw [not_or, not_or, not_not, not_not] at hc
      obtain ⟨_, _, hmem⟩ := hc
      have hkeys : (m.batch.map (·.1)).Nodup := by
        have hperm := (h.agrees status hstatus).exact (.inl hp)
        have hnodup := (hperm.nodup_iff).mpr (h.distinct status.id)
        exact (List.nodup_append.mp hnodup).2.1
      -- the member is in the batch once
      have hleft : ([worker.serverID] ++
          (m.batch.filter (·.1 ≠ worker.serverID)).map (·.1)).Perm (m.batch.map (·.1)) := by
        have hin : worker.serverID ∈ m.batch.map (·.1) :=
          List.mem_map.mpr ⟨_, hmem, rfl⟩
        have herase := hkeys.erase_eq_filter worker.serverID
        have hfilter : (m.batch.filter (·.1 ≠ worker.serverID)).map (·.1) =
            (m.batch.map (·.1)).erase worker.serverID := by
          rw [herase, List.filter_map]
          refine congrArg (List.map fun p : Int × Bool => p.1) (List.filter_congr ?_)
          intro p _
          exact decide_not
        rw [hfilter]
        exact (List.perm_cons_erase hin).symm
      apply h.count hs _
        (membersOf_map [worker.serverID] · status.id id (some worker))
        (countedOf_map [worker.serverID] · status.id id (some worker)) hleft
      · rfl
      · rfl
      · rfl
      · simp

theorem enabled_distinct (l : ServerList) :
    ((l.servers.filter (·.enabled)).map (·.id)).Nodup :=
  (List.filter_sublist.map _).nodup l.distinct

def queuedBy {F : Type} (c : Config F) (l : ServerList) (m : BatchState) : List Occurrence :=
  if startsBatch c m = true then
    [.queuedAll (m.batchSequence + 1) ((l.servers.filter (·.enabled)).map (·.id))]
  else []

theorem tallied_queueAll {F : Type} {m : BatchState} {log : List Occurrence} (h : Tallied m log)
    (c : Config F) (l : ServerList) :
    Tallied (queueAll c l.servers m).2 (log ++ queuedBy c l m) := by
  unfold queueAll queuedBy startsBatch
  by_cases hc : c.concurrency = 0
  · simpa [hc] using h
  · cases hs : m.pending with
    | some status => simpa [hc] using h
    | none =>
      obtain ⟨hmembers, hcounted⟩ := h.coming (m.batchSequence + 1) (by omega)
      have hold : ∀ refreshID, refreshID ≠ m.batchSequence + 1 →
          membersOf refreshID (log ++ [.queuedAll (m.batchSequence + 1)
            ((l.servers.filter (·.enabled)).map (·.id))]) = membersOf refreshID log := by
        intro refreshID hne
        simp [membersOf, Occurrence.members, Ne.symm hne]
      have hnew : membersOf (m.batchSequence + 1) (log ++ [.queuedAll (m.batchSequence + 1)
            ((l.servers.filter (·.enabled)).map (·.id))]) =
          (l.servers.filter (·.enabled)).map (·.id) := by
        rw [membersOf_append, hmembers]
        simp [membersOf, Occurrence.members]
      have hsame : ∀ refreshID, countedOf refreshID (log ++ [.queuedAll (m.batchSequence + 1)
            ((l.servers.filter (·.enabled)).map (·.id))]) = countedOf refreshID log := by
        intro refreshID
        simp [countedOf, Occurrence.member]
      simp only [hc, if_false, ne_eq, not_false_iff, decide_true, Bool.true_and, Option.isNone_none,
        if_true]
      constructor
      · intro hnone
        cases hnone
      · intro _ ho
        cases ho
        rfl
      · intro _ ho
        cases ho
        refine ⟨?_, ?_, by simp, ?_⟩
        · rw [hnew]
          simp
        · rw [hsame, hcounted]
          rfl
        · intro _
          rw [hnew, hsame, hcounted, List.nil_append, List.map_map]
          exact List.Perm.refl _
      · intro refreshID
        by_cases he : refreshID = m.batchSequence + 1
        · rw [he, hnew]
          exact enabled_distinct l
        · rw [hold refreshID he]
          exact h.distinct refreshID
      · intro refreshID
        rw [hsame]
        by_cases he : refreshID = m.batchSequence + 1
        · rw [he, hcounted]
          exact List.nil_subperm
        · rw [hold refreshID he]
          exact h.within refreshID
      · intro refreshID hlt
        have hlt : m.batchSequence + 1 < refreshID := hlt
        rw [hsame, hold refreshID (by omega)]
        exact h.coming refreshID (by omega)

theorem tallied_startMember {m : BatchState} {log : List Occurrence} (h : Tallied m log)
    (serverID : Int) (worker : Worker) :
    Tallied (if batchWaiting serverID m then startMember serverID m else m)
      (log ++ [.started worker]) := by
  have hkeys : (startMember serverID m).batch.map (·.1) = m.batch.map (·.1) := by
    rw [startMember, List.map_map]
    apply List.map_congr_left
    intro p _
    simp only [Function.comp]
    split_ifs <;> rfl
  have hlog : Tallied m (log ++ [.started worker]) := by
    have hm : ∀ refreshID, membersOf refreshID (log ++ [.started worker]) =
        membersOf refreshID log := fun _ => by simp [membersOf, Occurrence.members]
    have hc : ∀ refreshID, countedOf refreshID (log ++ [.started worker]) =
        countedOf refreshID log := fun _ => by simp [countedOf, Occurrence.member]
    constructor
    · exact h.idle
    · exact h.sequence
    · intro status hs
      obtain ⟨htotal, hcompleted, hpending, hexact⟩ := h.agrees status hs
      exact ⟨by rw [hm, htotal], by rw [hc, hcompleted], hpending, by rw [hm, hc]; exact hexact⟩
    · intro refreshID
      rw [hm]
      exact h.distinct refreshID
    · intro refreshID
      rw [hm, hc]
      exact h.within refreshID
    · intro refreshID hlt
      rw [hm, hc]
      exact h.coming refreshID hlt
  split_ifs
  · refine ⟨?_, hlog.sequence, ?_, hlog.distinct, hlog.within, hlog.coming⟩
    · intro hnone
      rw [startMember, hlog.idle hnone, List.map_nil]
    · intro status hs
      rw [hkeys]
      exact hlog.agrees status hs
  · exact hlog

end DnsMonitor.Monitor.Tally

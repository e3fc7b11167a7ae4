import DnsMonitor.Monitor.Delay
import DnsMonitor.Monitor.Overlap

namespace DnsMonitor.Monitor.Starvation

open DnsMonitor.Model DnsMonitor.Lib DnsMonitor.Lib.Runs
open DnsMonitor.Monitor.Refresh DnsMonitor.Monitor.Config DnsMonitor.Monitor.Scheduler
open DnsMonitor.Monitor.Accounting DnsMonitor.Monitor.Overlap DnsMonitor.Monitor.Delay
open DnsMonitor.Monitor.Round (nextDelay)
open DnsMonitor.Go.Strings DnsMonitor.Go.Unicode DnsMonitor.Go.Time DnsMonitor.Go.Float

section

variable {F : Type}

def waitingMembers (m : BatchState) : Nat := (m.batch.filter fun p => !p.2).length

/-- A round that may be started, without a request by hand, before that of a server due at `due`. -/
def owed (due : Int) (s : Schedule F) (serverID : Int) : Bool :=
  (serverID ∉ s.inFlight && 0 < s.nextDue serverID && s.nextDue serverID ≤ due) ||
    s.done.any fun c => c.worker.serverID = serverID && c.nextDue ≤ due

/-- How many rounds may be started before that of the server: requests by hand count as well. -/
def left (ids : List Int) (due : Int) (s : Schedule F) : Nat :=
  (ids.filter (owed due s)).length + s.queued.length + waitingMembers s.batch

/-- What an event may add to that. -/
def requests : Action F → Nat
  | .queue _ _ _ => 1
  | .queueAll _ l => l.servers.length
  | _ => 0

def hasRoom (s : Schedule F) : Action F → Bool
  | .dispatch _ => s.inFlight.length < s.concurrency
  | _ => false

/-- Deadlines, as milliseconds since 1970. Zero means that there is none. -/
structure Dated (s : Schedule F) : Prop where
  nonneg : ∀ id, 0 ≤ s.nextDue id
  servers : ∀ server ∈ s.servers, server.enabled = true → 0 < s.nextDue server.id
  completions : ∀ c ∈ s.done, 0 < c.nextDue

/-- What holds while the server waits: it is enabled and has been due since `due`. -/
structure Waits (ids : List Int) (serverID due : Int) (s : Schedule F) : Prop where
  serial : Serial false s
  running : s.stopped = false
  listed : ∃ server ∈ s.servers, server.id = serverID ∧ server.enabled = true
  idle : serverID ∉ s.inFlight
  since : s.nextDue serverID = due
  known : ∀ server ∈ s.servers, server.id ∈ ids
  dated : Dated s

theorem before_total (s : Schedule F) (a b : Server) :
    (!s.before b a) = true ∨ (!s.before a b) = true := by
  simp only [Schedule.before]
  cases s.manual a.id with
  | true =>
    cases s.manual b.id with
    | true => simp; omega
    | false => simp
  | false =>
    cases s.manual b.id with
    | true => simp
    | false => simp; omega

theorem before_trans (s : Schedule F) (a b c : Server) (hab : (!s.before b a) = true)
    (hbc : (!s.before c b) = true) : (!s.before c a) = true := by
  simp only [Schedule.before] at hab hbc ⊢
  cases ha : s.manual a.id with
  | true =>
    cases hb : s.manual b.id with
    | true =>
      cases hc : s.manual c.id with
      | true => simp_all; omega
      | false => simp_all
    | false =>
      cases hc : s.manual c.id with
      | true => simp_all
      | false => simp_all
  | false =>
    cases hb : s.manual b.id with
    | true => simp_all
    | false =>
      cases hc : s.manual c.id with
      | true => simp_all
      | false => simp_all; omega

theorem ahead {s : Schedule F} {server other : Server} (h : (!s.before server other) = true) :
    s.manual other.id = true ∨ s.nextDue other.id ≤ s.nextDue server.id := by
  simp only [Schedule.before] at h
  cases hm : s.manual other.id with
  | true => exact .inl rfl
  | false =>
    right
    cases hs : s.manual server.id with
    | true => simp [hm, hs] at h
    | false => simpa [hm, hs] using h

theorem waiting_startMember (serverID : Int) (m : BatchState) :
    waitingMembers (startMember serverID m) + (if batchWaiting serverID m then 1 else 0) ≤
      waitingMembers m := by
  have hsplit : waitingMembers (startMember serverID m) =
      (m.batch.filter fun p => !p.2 && decide (p.1 ≠ serverID)).length := by
    simp only [waitingMembers, startMember, List.filter_map, List.length_map]
    congr 1
    apply List.filter_congr
    intro p _
    by_cases hp : p.1 = serverID
    · simp [hp]
    · simp [hp]
  have hall := List.length_eq_length_filter_add (l := m.batch.filter fun p => !p.2)
    fun p => decide (p.1 ≠ serverID)
  simp only [List.filter_filter] at hall
  rw [hsplit, waitingMembers, hall]
  simp only [Bool.and_comm]
  apply Nat.add_le_add_left
  split_ifs with hw
  · apply List.length_pos_of_mem (a := (serverID, false))
    simpa [batchWaiting] using hw
  · exact Nat.zero_le _

theorem waiting_startRound (serverID : Int) (s : Schedule F) :
    waitingMembers (startRound serverID s).batch +
      (if batchWaiting serverID s.batch then 1 else 0) ≤ waitingMembers s.batch := by
  have h := waiting_startMember serverID s.batch
  rw [startRound]
  dsimp only
  split_ifs at h ⊢ with hw
  · exact h
  · exact le_rfl

theorem queued_startRound (serverID : Int) (s : Schedule F) :
    (startRound serverID s).queued.length + (if serverID ∈ s.queued then 1 else 0) ≤
      s.queued.length := by
  have hall := List.length_eq_length_filter_add (l := s.queued) fun id => decide (id ≠ serverID)
  rw [startRound, hall]
  dsimp only
  apply Nat.add_le_add_left
  split_ifs with hq
  · apply List.length_pos_of_mem (a := serverID)
    simpa using hq
  · exact Nat.zero_le _

theorem owed_startRound {due : Int} {s : Schedule F} (hs : Serial false s) {serverID : Int}
    (hidle : serverID ∉ s.inFlight) (id : Int) :
    owed due (startRound serverID s) id = (owed due s id && decide (id ≠ serverID)) := by
  by_cases hid : id = serverID
  · subst hid
    have hdone : ∀ c ∈ s.done, c.worker.serverID ≠ id := by
      rintro c hc rfl
      exact hidle (hs.known _ (List.mem_append_right _ (List.mem_map_of_mem hc)))
    have hnone : (s.done.any fun c => c.worker.serverID = id && c.nextDue ≤ due) = false := by
      rw [List.any_eq_false]
      intro c hc
      simp [hdone c hc]
    simp [owed, startRound, hnone]
  · simp [owed, startRound, hid]

theorem left_startRound (due : Int) {ids : List Int} {s : Schedule F} (hs : Serial false s)
    {serverID : Int} (hidle : serverID ∉ s.inFlight) (hid : serverID ∈ ids)
    (h : s.manual serverID = true ∨ owed due s serverID = true) :
    left ids due (startRound serverID s) + 1 ≤ left ids due s := by
  have howed : (ids.filter (owed due (startRound serverID s))).length +
      (if owed due s serverID then 1 else 0) ≤ (ids.filter (owed due s)).length := by
    have hall := List.length_eq_length_filter_add (l := ids.filter (owed due s))
      fun id => decide (id ≠ serverID)
    have heq : owed due (startRound serverID s) =
        fun id => owed due s id && decide (id ≠ serverID) := by
      funext id
      exact owed_startRound hs hidle id
    rw [heq, hall, List.filter_filter]
    simp only [Bool.and_comm]
    apply Nat.add_le_add_left
    split_ifs with ho
    · apply List.length_pos_of_mem (a := serverID)
      simp [hid, ho]
    · exact Nat.zero_le _
  have hqueued := queued_startRound serverID s
  have hwaiting := waiting_startRound serverID s
  unfold left
  simp only [Schedule.manual, Bool.or_eq_true, decide_eq_true_eq] at h
  obtain (hq | hw) | ho := h
  · rw [if_pos hq] at hqueued
    omega
  · rw [if_pos hw] at hwaiting
    omega
  · rw [if_pos ho] at howed
    omega

theorem batchWaiting_startMember {serverID id : Int} (h : id ≠ serverID) (m : BatchState) :
    batchWaiting id (startMember serverID m) = batchWaiting id m := by
  rw [Bool.eq_iff_iff]
  simp only [batchWaiting, startMember, decide_eq_true_eq, List.mem_map]
  constructor
  · rintro ⟨p, hp, he⟩
    split_ifs at he with hid
    · cases he
    · exact he ▸ hp
  · intro hm
    exact ⟨_, hm, by rw [if_neg h]⟩

theorem manual_startRound {serverID id : Int} (h : id ≠ serverID) (s : Schedule F) :
    (startRound serverID s).manual id = s.manual id := by
  have hqueued : (id ∈ (startRound serverID s).queued) = (id ∈ s.queued) := by
    simp [startRound, h]
  have hbatch : batchWaiting id (startRound serverID s).batch = batchWaiting id s.batch := by
    rw [startRound]
    dsimp only
    split_ifs
    · exact batchWaiting_startMember h s.batch
    · rfl
  simp only [Schedule.manual, hqueued, hbatch]

theorem waits_startRound {ids : List Int} {serverID due : Int} {s : Schedule F}
    (h : Waits ids serverID due s) {id : Int} (hid : id ∉ s.inFlight) (hne : serverID ≠ id) :
    Waits ids serverID due (startRound id s) where
  serial := serial_startRound h.serial hid
  running := h.running
  listed := h.listed
  idle := by
    rw [startRound, List.mem_cons, not_or]
    exact ⟨hne, h.idle⟩
  since := h.since
  known := h.known
  dated := ⟨h.dated.nonneg, h.dated.servers, h.dated.completions⟩

theorem mem_inFlight_dispatchAll {serverID now : Int} {s : Schedule F} (h : serverID ∈ s.inFlight)
    (l : List Server) : serverID ∈ (dispatchAll now l s).inFlight :=
  dispatchAll_keeps (P := fun t => serverID ∈ t.inFlight)
    (fun _ _ _ _ hmem => List.mem_cons_of_mem _ hmem) l h

/-- The candidates in front of the server, once some of them have been started. -/
structure Ahead (due : Int) (s₀ s : Schedule F) (pre : List Server) : Prop where
  listed : ∀ other ∈ pre, other ∈ s.servers
  order : ∀ other ∈ pre, s₀.manual other.id = true ∨ s₀.nextDue other.id ≤ due
  manual : ∀ id, id ∉ s.inFlight → s.manual id = s₀.manual id
  nextDue : s.nextDue = s₀.nextDue

theorem Ahead.tail {due : Int} {s₀ s : Schedule F} {other : Server} {pre : List Server}
    (h : Ahead due s₀ s (other :: pre)) : Ahead due s₀ s pre :=
  ⟨fun o ho => h.listed o (List.mem_cons_of_mem _ ho),
    fun o ho => h.order o (List.mem_cons_of_mem _ ho), h.manual, h.nextDue⟩

theorem Ahead.start {due : Int} {s₀ s : Schedule F} {pre : List Server}
    (h : Ahead due s₀ s pre) (serverID : Int) : Ahead due s₀ (startRound serverID s) pre where
  listed := h.listed
  order := h.order
  manual id hid := by
    rw [startRound, List.mem_cons, not_or] at hid
    rw [manual_startRound hid.1]
    exact h.manual id hid.2
  nextDue := h.nextDue

/-- Each candidate that is started before the server was asked for or owed, and one is started if
there is a place. -/
theorem left_dispatchAll {ids : List Int} {due now : Int} {server : Server} {s₀ s : Schedule F}
    {pre : List Server} (hw : Waits ids server.id due s) (henabled : server.enabled = true)
    (hnow : due ≤ now) (ha : Ahead due s₀ s pre) (post : List Server) :
    server.id ∈ (dispatchAll now (pre ++ server :: post) s).inFlight ∨
      (Waits ids server.id due (dispatchAll now (pre ++ server :: post) s) ∧
        (if (s.inFlight.length : Int) < s.concurrency then 1 else 0) +
          left ids due (dispatchAll now (pre ++ server :: post) s) ≤ left ids due s) := by
  induction pre generalizing s with
  | nil =>
    rw [List.nil_append, dispatchAll]
    by_cases hfull : s.concurrency ≤ (s.inFlight.length : Int)
    · rw [if_pos hfull, if_neg (not_lt.mpr hfull)]
      exact .inr ⟨hw, by omega⟩
    · have hskip : s.skips now server = false := by
        have hdue : ¬ now < s.nextDue server.id := by
          rw [hw.since]
          omega
        simp [Schedule.skips, henabled, hw.idle, hdue]
      rw [if_neg hfull, hskip, if_neg Bool.false_ne_true]
      exact .inl (mem_inFlight_dispatchAll List.mem_cons_self post)
  | cons other pre ih =>
    rw [List.cons_append, dispatchAll]
    by_cases hfull : s.concurrency ≤ (s.inFlight.length : Int)
    · rw [if_pos hfull, if_neg (not_lt.mpr hfull)]
      exact .inr ⟨hw, by omega⟩
    · rw [if_neg hfull]
      cases hskip : s.skips now other with
      | true =>
        rw [if_pos rfl]
        exact ih hw ha.tail
      | false =>
        rw [if_neg Bool.false_ne_true]
        by_cases hsame : server.id = other.id
        · left
          apply mem_inFlight_dispatchAll
          rw [hsame]
          exact List.mem_cons_self
        · simp only [Schedule.skips, Bool.or_eq_false_iff, Bool.not_eq_false',
            decide_eq_false_iff_not] at hskip
          obtain ⟨⟨hon, hidle⟩, hdue⟩ := hskip
          have hlisted := ha.listed other List.mem_cons_self
          have hreason : s.manual other.id = true ∨ owed due s other.id = true := by
            cases hm : s.manual other.id with
            | true => exact .inl rfl
            | false =>
              right
              have horder := ha.order other List.mem_cons_self
              rw [← ha.manual _ hidle, hm, ← ha.nextDue] at horder
              have hle := horder.resolve_left Bool.false_ne_true
              simp [owed, hidle, hw.dated.servers other hlisted hon, hle]
          have hless := left_startRound due hw.serial hidle (hw.known other hlisted) hreason
          have hrest := ih (waits_startRound hw hidle hsame) (ha.tail.start other.id)
          refine hrest.imp_right fun h => ⟨h.1, ?_⟩
          have hle := h.2
          split_ifs at hle ⊢ <;> omega

theorem left_dispatch {ids : List Int} {serverID due now : Int} {s : Schedule F}
    (hw : Waits ids serverID due s) (hnow : due ≤ now) :
    serverID ∈ (dispatch now s).inFlight ∨ (Waits ids serverID due (dispatch now s) ∧
      (if (s.inFlight.length : Int) < s.concurrency then 1 else 0) + left ids due (dispatch now s) ≤
        left ids due s) := by
  unfold dispatch
  by_cases hzero : s.concurrency = 0
  · rw [if_pos hzero, if_neg (by omega)]
    exact .inr ⟨hw, by omega⟩
  · rw [if_neg hzero]
    obtain ⟨server, hserver, rfl, henabled⟩ := hw.listed
    have hmem := (List.mem_insertionSort fun a b => !s.before b a).mpr hserver
    obtain ⟨pre, post, hsplit⟩ := List.append_of_mem hmem
    have : Std.Total fun a b => (!s.before b a) = true := ⟨before_total s⟩
    have : IsTrans Server fun a b => (!s.before b a) = true := ⟨before_trans s⟩
    have hsorted := List.pairwise_insertionSort (fun a b => (!s.before b a) = true) s.servers
    rw [hsplit] at hsorted ⊢
    refine left_dispatchAll hw henabled hnow ⟨?_, ?_, fun _ _ => rfl, rfl⟩ post
    · intro other ho
      apply (List.mem_insertionSort fun a b => !s.before b a).mp
      rw [hsplit]
      exact List.mem_append_left _ ho
    · intro other ho
      have hbefore := (List.pairwise_append.mp hsorted).2.2 other ho server List.mem_cons_self
      exact hw.since ▸ ahead hbefore

theorem filter_owed_le (due : Int) (s t : Schedule F) (ids : List Int)
    (h : ∀ id, owed due t id = true → owed due s id = true) :
    (ids.filter (owed due t)).length ≤ (ids.filter (owed due s)).length :=
  (List.monotone_filter_right ids h).length_le

theorem waiting_queueAll (c : Config F) (l : ServerList) (m : BatchState) :
    waitingMembers (queueAll c l.servers m).2 ≤ waitingMembers m + l.servers.length := by
  unfold queueAll
  by_cases hc : c.concurrency = 0
  · rw [if_pos hc]
    exact Nat.le_add_right _ _
  · rw [if_neg hc]
    cases m.pending with
    | some status => exact Nat.le_add_right _ _
    | none =>
      simp only [waitingMembers]
      have hle := List.length_filter_le (fun p : Int × Bool => !p.2)
        ((l.servers.filter (·.enabled)).map fun s => (s.id, false))
      have hservers := List.length_filter_le (·.enabled) l.servers
      rw [List.length_map] at hle
      omega

theorem waiting_cancelBatch (reason : GoString) (m : BatchState) :
    waitingMembers (cancelBatch reason m) ≤ waitingMembers m := by
  unfold cancelBatch
  split
  · exact le_rfl
  · exact Nat.zero_le _

theorem waiting_updateBatch (valid : Int → Bool) (paused : Bool) (m : BatchState) :
    waitingMembers (updateBatch valid paused m) ≤ waitingMembers m := by
  have hless : ∀ status, waitingMembers { m with
      batch := m.batch.filter fun p => valid p.1, status } ≤ waitingMembers m := fun _ =>
    (List.filter_sublist.filter _).length_le
  unfold updateBatch
  split
  · exact le_rfl
  · dsimp only
    by_cases hb : m.batch.filter (fun p => valid p.1) = []
    · rw [if_pos hb]
      exact hless _
    · rw [if_neg hb]
      cases paused with
      | true => exact (waiting_cancelBatch _ _).trans (hless _)
      | false => exact hless _

theorem waiting_completeBatch (refreshID serverID : Int) (error : GoString) (m : BatchState) :
    waitingMembers (completeBatch refreshID serverID error m) ≤ waitingMembers m := by
  unfold completeBatch
  split
  · exact le_rfl
  · rename_i status _
    by_cases hskip : refreshID = 0 ∨ refreshID ≠ status.id ∨ (serverID, true) ∉ m.batch
    · rw [if_pos hskip]
    · rw [if_neg hskip]
      exact (List.filter_sublist.filter _).length_le

def Quiet (ids : List Int) (serverID due : Int) (s t : Schedule F) (n : Nat) : Prop :=
  Waits ids serverID due t ∧ left ids due t ≤ left ids due s + n

theorem quiet_queue {ids : List Int} {serverID due : Int} {s : Schedule F}
    (hw : Waits ids serverID due s) (c : Config F) (current : Except GoString Server) (id : Int) :
    Quiet ids serverID due s (queue c current id s).2 1 := by
  have hserial := serial_queue hw.serial c current id
  have hlength : (queue c current id s).2.queued.length ≤ s.queued.length + 1 := by
    unfold queue
    by_cases hc : c.concurrency = 0
    · rw [if_pos hc]
      exact Nat.le_succ _
    · rw [if_neg hc]
      cases current with
      | error e => exact Nat.le_succ _
      | ok server =>
        dsimp only
        split_ifs
        · exact Nat.le_succ _
        · exact Nat.le_succ _
        · exact Nat.le_succ _
        · exact le_rfl
  obtain ⟨queued, hq⟩ := queue_eq c current id s
  rw [hq] at hserial hlength ⊢
  refine ⟨{ hw with
    serial := hserial
    dated := ⟨hw.dated.nonneg, hw.dated.servers, hw.dated.completions⟩ }, ?_⟩
  have howed := filter_owed_le due s { s with queued } ids fun _ h => h
  unfold left
  dsimp only at hlength ⊢
  omega

theorem dated_finish {s : Schedule F} (h : Dated s) (number : Nat) (error : GoString)
    {nextDue : Int} (hpos : 0 < nextDue) (failures : Int) :
    Dated (finish number error nextDue failures s) := by
  unfold finish
  split
  · exact h
  · split_ifs
    · exact h
    · refine ⟨h.nonneg, h.servers, ?_⟩
      intro c hc
      cases List.mem_append.mp hc with
      | inl hold => exact h.completions c hold
      | inr hnew =>
        rw [List.mem_singleton.mp hnew]
        exact hpos

theorem quiet_finish {ids : List Int} {serverID due : Int} {s : Schedule F}
    (hw : Waits ids serverID due s) (number : Nat) (error : GoString) {nextDue : Int}
    (hdue : due < nextDue) (failures : Int) :
    Quiet ids serverID due s (finish number error nextDue failures s) 0 := by
  obtain ⟨hinFlight, hqueued⟩ := finish_frame number error nextDue failures s
  have hserial := hw.serial.of_perm (rounds_finish hw.serial number error nextDue failures)
    hinFlight (hqueued ▸ .refl _)
  have hpos : 0 ≤ due := hw.since ▸ hw.dated.nonneg serverID
  have hdated := dated_finish hw.dated number error (hpos.trans_lt hdue) failures
  revert hserial hdated
  unfold finish
  split
  · exact fun _ _ => ⟨hw, le_rfl⟩
  · split_ifs
    · exact fun _ _ => ⟨hw, le_rfl⟩
    · intro hserial hdated
      refine ⟨{ hw with serial := hserial, dated := hdated }, ?_⟩
      apply Nat.add_le_add_right
      apply Nat.add_le_add_right
      apply filter_owed_le
      intro id
      simp [owed, not_le.mpr hdue]

theorem dated_receive {s : Schedule F} (h : Dated s) : Dated (receive s) := by
  unfold receive
  split
  · exact h
  · rename_i c done hdone
    have hpos : 0 < c.nextDue := h.completions c (by rw [hdone]; exact List.mem_cons_self)
    refine ⟨?_, ?_, ?_⟩
    · intro id
      by_cases hid : id = c.worker.serverID
      · simpa [hid] using hpos.le
      · simpa [hid] using h.nonneg id
    · intro server hserver hon
      by_cases hid : server.id = c.worker.serverID
      · simpa [hid] using hpos
      · simpa [hid] using h.servers server hserver hon
    · intro d hd
      apply h.completions d
      rw [hdone]
      exact List.mem_cons_of_mem c hd

theorem quiet_receive {ids : List Int} {serverID due : Int} {s : Schedule F}
    (hw : Waits ids serverID due s) : Quiet ids serverID due s (receive s) 0 := by
  have hserial := serial_receive hw.serial
  have hdated := dated_receive hw.dated
  revert hserial hdated
  unfold receive
  split
  · exact fun _ _ => ⟨hw, le_rfl⟩
  · rename_i c done hdone
    intro hserial hdated
    have hround : c.worker.serverID ∈ rounds s :=
      List.mem_append_right _ (List.mem_map_of_mem (by rw [hdone]; exact List.mem_cons_self))
    have hne : serverID ≠ c.worker.serverID := by
      rintro rfl
      exact hw.idle (hw.serial.known _ hround)
    refine ⟨⟨hserial, hw.running, hw.listed, ?_, ?_, hw.known, hdated⟩, ?_⟩
    · exact fun hin => hw.idle (List.mem_filter.mp hin).1
    · simpa [hne] using hw.since
    · have howed : ∀ id, owed due { s with
          done
          inFlight := s.inFlight.filter (· ≠ c.worker.serverID)
          batch := completeBatch c.worker.refreshID c.worker.serverID c.error s.batch
          nextDue := Function.update s.nextDue c.worker.serverID c.nextDue
          failures := Function.update s.failures c.worker.serverID c.failures } id = true →
          owed due s id = true := by
        intro id ho
        simp only [owed, Bool.or_eq_true, Bool.and_eq_true, List.any_eq_true, decide_eq_true_eq]
          at ho ⊢
        rw [hdone]
        rcases ho with ⟨⟨hidle, hp⟩, hle⟩ | ⟨d, hd, hdone'⟩
        · by_cases hid : id = c.worker.serverID
          · subst hid
            rw [Function.update_self] at hle
            exact .inr ⟨c, List.mem_cons_self, rfl, hle⟩
          · left
            rw [Function.update_of_ne hid] at hp hle
            refine ⟨⟨fun hin => hidle (List.mem_filter.mpr ⟨hin, ?_⟩), hp⟩, hle⟩
            simpa using hid
        · exact .inr ⟨d, List.mem_cons_of_mem c hd, hdone'⟩
      have hwaiting :=
        waiting_completeBatch c.worker.refreshID c.worker.serverID c.error s.batch
      have hfilter := filter_owed_le _ _ _ ids howed
      unfold left
      dsimp only at hfilter ⊢
      omega

end

section

variable {F : Type} [GoFloat F]

theorem nextDelay_pos (c : Config F) (failures previous : Int) (jitter : F) :
    0 ≤ nextDelay c failures previous jitter / millisecond :=
  Int.ediv_nonneg ((by decide : (0 : Int) ≤ 5 * second).trans (five_seconds_le c _ _ _))
    (by decide)

/-- A refresh leaves a deadline or sets one that has not passed. -/
theorem dueAfter_cases (s : Schedule F) (now : Int) (c : Config F) (jitter : Int → F) (i : Nat)
    (serverID : Int) :
    (s.nextDue serverID ≠ 0 ∧ s.dueAfter c now jitter i serverID = s.nextDue serverID) ∨
      now ≤ s.dueAfter c now jitter i serverID := by
  have hdelay := nextDelay_pos c (s.failures serverID) (s.failures serverID) (jitter serverID)
  unfold Schedule.dueAfter
  dsimp only
  split_ifs
  · right
    omega
  · omega
  · right
    omega
  · left
    exact ⟨‹_›, rfl⟩

theorem dueAfter_past {s : Schedule F} {now : Int} (c : Config F) (jitter : Int → F) (i : Nat)
    {serverID : Int} (h : s.nextDue serverID ≠ 0) (hpast : s.nextDue serverID < now) :
    s.dueAfter c now jitter i serverID = s.nextDue serverID := by
  have hdelay := nextDelay_pos c (s.failures serverID) (s.failures serverID) (jitter serverID)
  unfold Schedule.dueAfter
  rw [if_neg h]
  dsimp only
  split_ifs
  · omega
  · rfl

theorem valid_of_enabled {l : ServerList} {server : Server} (h : server ∈ l.servers)
    (hon : server.enabled = true) : l.valid server.id = true := by
  rw [ServerList.valid, List.any_eq_true]
  exact ⟨server, h, by simp [hon]⟩

variable [CaseTables]

theorem dated_refresh {s : Schedule F} (h : Dated s) (c : Config F) (l : ServerList) {now : Int}
    (hnow : 0 < now) (jitter : Int → F) : Dated (refresh c l now jitter s) := by
  unfold refresh
  split
  · exact h
  · rename_i c' hc'
    refine ⟨?_, ?_, h.completions⟩
    · intro id
      dsimp only
      split_ifs
      · cases dueAfter_cases s now c' jitter
          (l.servers.findIdx (·.id = id)) id with
        | inl hsame => exact hsame.2 ▸ h.nonneg id
        | inr hlater => omega
      · exact le_rfl
    · intro server hserver hon
      dsimp only
      rw [if_pos (valid_of_enabled hserver hon)]
      cases dueAfter_cases s now c' jitter
        (l.servers.findIdx (·.id = server.id)) server.id with
      | inl hsame =>
        rw [hsame.2]
        exact lt_of_le_of_ne (h.nonneg _) (Ne.symm hsame.1)
      | inr hlater => omega

theorem quiet_refresh {ids : List Int} {serverID due : Int} {s : Schedule F}
    (hw : Waits ids serverID due s) (c : Config F) {l : ServerList} {now : Int}
    (hnow : due < now) (hvalid : l.valid serverID = true)
    (hids : ∀ server ∈ l.servers, server.id ∈ ids) (jitter : Int → F) :
    Quiet ids serverID due s (refresh c l now jitter s) 0 := by
  have hdue : 0 < due := by
    obtain ⟨server, hserver, rfl, hon⟩ := hw.listed
    exact hw.since ▸ hw.dated.servers server hserver hon
  have hserial := serial_refresh hw.serial c l now jitter
  have hdated := dated_refresh hw.dated c l (hdue.trans hnow) jitter
  revert hserial hdated
  unfold refresh
  split
  · exact fun _ _ => ⟨hw, le_rfl⟩
  · rename_i c' hc'
    intro hserial hdated
    refine ⟨⟨hserial, hw.running, ?_, hw.idle, ?_, hids, hdated⟩, ?_⟩
    · rw [ServerList.valid, List.any_eq_true] at hvalid
      obtain ⟨server, hserver, hon⟩ := hvalid
      rw [Bool.and_eq_true, decide_eq_true_eq] at hon
      exact ⟨server, hserver, hon⟩
    · dsimp only
      have hne : s.nextDue serverID ≠ 0 := by
        rw [hw.since]
        exact hdue.ne'
      rw [if_pos hvalid, dueAfter_past _ _ _ hne (hw.since ▸ hnow), hw.since]
    · have howed : ∀ id, owed due { s with
          batch := updateBatch l.valid (c'.concurrency = 0) s.batch
          queued := s.queued.filter l.valid
          config := some c'
          servers := l.servers
          nextDue := fun serverID =>
            if l.valid serverID then
              s.dueAfter c' now jitter (l.servers.findIdx (·.id = serverID)) serverID
            else 0
          failures := fun serverID => if l.valid serverID then s.failures serverID else 0 } id =
            true → owed due s id = true := by
        intro id ho
        simp only [owed, Bool.or_eq_true, Bool.and_eq_true, decide_eq_true_eq] at ho ⊢
        refine ho.imp_left ?_
        rintro ⟨⟨hidle, hp⟩, hle⟩
        split_ifs at hp hle
        · cases dueAfter_cases s now c' jitter
            (l.servers.findIdx (·.id = id)) id with
          | inl h => exact ⟨⟨hidle, h.2 ▸ hp⟩, h.2 ▸ hle⟩
          | inr h => omega
        · omega
      have hwaiting := waiting_updateBatch l.valid (c'.concurrency = 0) s.batch
      have hqueued := List.length_filter_le l.valid s.queued
      have hfilter := filter_owed_le _ _ _ ids howed
      unfold left
      dsimp only at hfilter ⊢
      omega

omit [GoFloat F] [CaseTables] in
theorem quiet_queueAll {ids : List Int} {serverID due : Int} {s : Schedule F}
    (hw : Waits ids serverID due s) (c : Config F) (l : ServerList) :
    Quiet ids serverID due s { s with batch := (queueAll c l.servers s.batch).2 }
      l.servers.length := by
  refine ⟨{ hw with
    serial := hw.serial.of_perm .rfl rfl (.refl _)
    dated := ⟨hw.dated.nonneg, hw.dated.servers, hw.dated.completions⟩ }, ?_⟩
  have hwaiting := waiting_queueAll c l s.batch
  have hfilter := filter_owed_le due s
    { s with batch := (queueAll c l.servers s.batch).2 } ids fun _ h => h
  unfold left
  dsimp only at hfilter ⊢
  omega

/-- The clock shows that the server is overdue, and no refresh finds it missing or disabled. -/
def Timely (ids : List Int) (serverID due : Int) : Action F → Prop
  | .refresh _ l now _ =>
    due < now ∧ l.valid serverID = true ∧ ∀ server ∈ l.servers, server.id ∈ ids
  | .dispatch now => due < now
  | .finish _ _ nextDue _ => due < nextDue
  | .stop => False
  | _ => True

theorem left_step {ids : List Int} {serverID due : Int} {s : Schedule F}
    (hw : Waits ids serverID due s) {a : Action F} (ha : Timely ids serverID due a) :
    serverID ∈ (step s a).inFlight ∨ (Waits ids serverID due (step s a) ∧
      (if hasRoom s a then 1 else 0) + left ids due (step s a) ≤ left ids due s + requests a) := by
  have hquiet : ∀ t n, Quiet ids serverID due s t n → serverID ∈ t.inFlight ∨
      (Waits ids serverID due t ∧ 0 + left ids due t ≤ left ids due s + n) := by
    intro t n h
    exact .inr ⟨h.1, by have := h.2; omega⟩
  cases a with
  | queueAll c l => exact hquiet _ _ (quiet_queueAll hw c l)
  | queue c current id => exact hquiet _ _ (quiet_queue hw c current id)
  | refresh c l now jitter =>
    rw [step, if_neg (by simp [hw.running])]
    exact hquiet _ _ (quiet_refresh hw c ha.1 ha.2.1 ha.2.2 jitter)
  | dispatch now =>
    rw [step, if_neg (by simp [hw.running])]
    simpa [hasRoom, requests] using left_dispatch hw (le_of_lt ha)
  | finish number error nextDue failures =>
    exact hquiet _ _ (quiet_finish hw number error ha failures)
  | receive =>
    rw [step, if_neg (by simp [hw.running])]
    exact hquiet _ _ (quiet_receive hw)
  | stop => cases ha

omit [GoFloat F] [CaseTables] in
theorem dated_start {nextDue : Int → Int} (h : ∀ id, 0 ≤ nextDue id) (failures : Int → Int) :
    Dated (start nextDue failures : Schedule F) where
  nonneg := h
  servers _ hserver := absurd hserver List.not_mem_nil
  completions _ hc := absurd hc List.not_mem_nil

def Clocked : Action F → Prop
  | .refresh _ _ now _ => 0 < now
  | .finish _ _ nextDue _ => 0 < nextDue
  | _ => True

theorem dated_step (s : Schedule F) (a : Action F) (ha : Clocked a) (h : Dated s) :
    Dated (step s a) := by
  cases a with
  | queueAll c l => exact ⟨h.nonneg, h.servers, h.completions⟩
  | queue c current id =>
    obtain ⟨queued, hq⟩ := queue_eq c current id s
    rw [step, hq]
    exact ⟨h.nonneg, h.servers, h.completions⟩
  | refresh c l now jitter =>
    simp only [step]
    split_ifs
    · exact h
    · exact dated_refresh h c l ha jitter
  | dispatch now =>
    simp only [step]
    split_ifs
    · exact h
    · exact dispatch_keeps (fun _ _ _ _ ht => ⟨ht.nonneg, ht.servers, ht.completions⟩) h
  | finish number error nextDue failures => exact dated_finish h number error ha failures
  | receive =>
    simp only [step]
    split_ifs
    · exact h
    · exact dated_receive h
  | stop => exact ⟨h.nonneg, h.servers, h.completions⟩

/-- An enabled server that is overdue and waits is started at the latest when as many calls of
`dispatch` have found a free place as there are servers and requests by hand: no server goes
before it twice without a request. -/
theorem overdue_server_starts {nextDue failures : Int → Int} (hdue : ∀ id, 0 ≤ nextDue id)
    {pre post : List (Action F)} (hpre : ∀ a ∈ pre, Clocked a) {ids : List Int} {server : Server}
    (hserver : server ∈ (run step (start nextDue failures) pre).servers)
    (hon : server.enabled = true)
    (hidle : server.id ∉ (run step (start nextDue failures) pre).inFlight)
    (hrunning : (run step (start nextDue failures) pre).stopped = false)
    (hids : ∀ other ∈ (run step (start nextDue failures) pre).servers, other.id ∈ ids)
    (hpost : ∀ a ∈ post, Timely ids server.id
      ((run step (start nextDue failures) pre).nextDue server.id) a)
    (hcalls : ids.length + (run step (start nextDue failures) pre).queued.length +
      waitingMembers (run step (start nextDue failures) pre).batch + (post.map requests).sum ≤
        steps step hasRoom (run step (start nextDue failures) pre) post) :
    ∃ fs, fs <+: post ∧
      server.id ∈ (run step (run step (start nextDue failures) pre) fs).inFlight := by
  have hdated : Dated (run step (start nextDue failures : Schedule F) pre) :=
    run_invariant_of dated_step (dated_start hdue failures) hpre
  have hserial : Serial false (run step (start nextDue failures : Schedule F) pre) :=
    run_invariant (P := fun t : Schedule F => Serial false t) (fun _ a h => serial_step h a)
      (serial_start nextDue failures) pre
  generalize run step (start nextDue failures) pre = s at *
  have hw : Waits ids server.id (s.nextDue server.id) s :=
    ⟨hserial, hrunning, ⟨server, hserver, rfl, hon⟩, hidle, rfl, hids, hdated⟩
  have hpositive : ∀ t : Schedule F, Waits ids server.id (s.nextDue server.id) t →
      0 < left ids (s.nextDue server.id) t := by
    intro t ht
    obtain ⟨other, hother, hid, hon'⟩ := ht.listed
    have hpos := ht.dated.servers other hother hon'
    rw [hid, ht.since] at hpos
    have howed : owed (s.nextDue server.id) t server.id = true := by
      simp [owed, ht.idle, ht.since, hpos]
    have hmem : server.id ∈ ids.filter (owed (s.nextDue server.id) t) :=
      List.mem_filter.mpr ⟨hid ▸ ht.known other hother, howed⟩
    have := List.length_pos_of_mem hmem
    unfold left
    omega
  have hleft : left ids (s.nextDue server.id) s + (post.map requests).sum ≤
      steps step hasRoom s post := by
    have hle := List.length_filter_le (owed (s.nextDue server.id) s) ids
    unfold left
    omega
  exact reaches_within (I := Waits ids server.id (s.nextDue server.id))
    (D := fun t : Schedule F => server.id ∈ t.inFlight) (left ids (s.nextDue server.id)) requests hpositive (fun _ _ ht ha => left_step ht ha) hw hpost
    hleft

end

section

local instance : CaseTables := asciiTables

def firstServer : Server := { Store.Run.exampleServer with id := 1 }

def secondServer : Server := { Store.Run.exampleServer with id := 2 }

def exampleServers : ServerList where
  servers := [firstServer, secondServer]
  distinct := by decide

def oneAtATime : Config ℚ := { defaultConfig with concurrency := 1 }

def firstStarted : List (Action ℚ) :=
  [.refresh oneAtATime exampleServers 1000 fun _ => 1, .dispatch 2000]

def secondWaits : List (Action ℚ) :=
  [.finish 0 [] 7000 0, .receive, .queue oneAtATime (.ok firstServer) 1, .dispatch 3000,
    .finish 1 [] 8000 0, .receive, .dispatch 3000, .finish 2 [] 9000 0, .receive, .dispatch 3000]

theorem overdue_server_starts_example : ∃ fs, fs <+: secondWaits ∧
    2 ∈ (run step (run step (start (fun _ => 0) fun _ => 0) firstStarted) fs).inFlight := by
  have hdue : ∀ id : Int, (0 : Int) ≤ (fun _ => 0) id := fun _ => le_rfl
  have hpre : ∀ a ∈ firstStarted, Clocked a := by simp [firstStarted, Clocked]
  have hserver : secondServer ∈
      (run step (start (fun _ => 0) fun _ => 0) firstStarted).servers := by decide +kernel
  have hidle : secondServer.id ∉
      (run step (start (fun _ => 0) fun _ => 0) firstStarted).inFlight := by decide +kernel
  have hids : ∀ other ∈ (run step (start (fun _ => 0) fun _ => 0) firstStarted).servers,
      other.id ∈ [1, 2] := by decide +kernel
  have hnext : (run step (start (fun _ => 0) fun _ => 0) firstStarted).nextDue secondServer.id =
      1250 := by decide +kernel
  have hpost : ∀ a ∈ secondWaits, Timely [1, 2] secondServer.id
      ((run step (start (fun _ => 0) fun _ => 0) firstStarted).nextDue secondServer.id) a := by
    rw [hnext]
    simp [secondWaits, Timely]
  exact overdue_server_starts hdue hpre hserver rfl hidle (by decide +kernel) hids hpost
    (by decide +kernel)

end

end DnsMonitor.Monitor.Starvation

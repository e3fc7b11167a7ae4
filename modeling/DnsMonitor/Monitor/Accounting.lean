import DnsMonitor.Monitor.Tally

namespace DnsMonitor.Monitor.Accounting

open DnsMonitor.Model DnsMonitor.Lib DnsMonitor.Monitor.Refresh DnsMonitor.Monitor.Config
open DnsMonitor.Monitor.Scheduler DnsMonitor.Monitor.Tally
open DnsMonitor.Go.Strings DnsMonitor.Go.Unicode DnsMonitor.Go.Float

variable {F : Type}

/-- What starting a round of a server keeps, where one may be started, `dispatch` keeps. -/
theorem dispatchAll_keeps {P : Schedule F → Prop} {now : Int}
    (hstart : ∀ (s : Schedule F) (server : Server), s.skips now server = false →
      (s.inFlight.length : Int) < s.concurrency → P s → P (startRound server.id s))
    (l : List Server) {s : Schedule F} (h : P s) : P (dispatchAll now l s) := by
  induction l generalizing s with
  | nil => exact h
  | cons server rest ih =>
    rw [dispatchAll]
    by_cases hfull : s.concurrency ≤ s.inFlight.length
    · rw [if_pos hfull]
      exact h
    · rw [if_neg hfull]
      cases hskip : s.skips now server with
      | true => exact ih h
      | false => exact ih (hstart s server hskip (by omega) h)

theorem dispatch_keeps {P : Schedule F → Prop} {now : Int}
    (hstart : ∀ (s : Schedule F) (server : Server), s.skips now server = false →
      (s.inFlight.length : Int) < s.concurrency → P s → P (startRound server.id s))
    {s : Schedule F} (h : P s) : P (dispatch now s) := by
  unfold dispatch
  split_ifs
  · exact h
  · exact dispatchAll_keeps hstart _ h

def Dispatched (worker : Worker) (log : List Occurrence) : Prop :=
  worker.refreshID ≠ 0 →
    ∃ members, [.queuedAll worker.refreshID members, .started worker].Sublist log

theorem Dispatched.mono {worker : Worker} {log : List Occurrence} (h : Dispatched worker log)
    (l : List Occurrence) : Dispatched worker (log ++ l) := by
  intro hne
  obtain ⟨members, hsub⟩ := h hne
  exact ⟨members, hsub.trans (List.sublist_append_left _ _)⟩

/-- Each member that was counted for a worker was counted for the round that this worker was
started for, in this batch. -/
def CountedInOrder (log : List Occurrence) : Prop :=
  ∀ before refreshID serverID worker after,
    log = before ++ .counted refreshID serverID (some worker) :: after →
    worker.serverID = serverID ∧
      ∃ members, [.queuedAll refreshID members, .started worker].Sublist before

def isCounted : Occurrence → Bool
  | .counted _ _ (some _) => true
  | _ => false

theorem countedInOrder_append {log l : List Occurrence} (h : CountedInOrder log)
    (hl : ∀ o ∈ l, isCounted o = false) : CountedInOrder (log ++ l) := by
  intro before refreshID serverID worker after he
  obtain ⟨left, rfl, hright⟩ | ⟨right, rfl, hright⟩ := List.append_eq_append_iff.mp he
  · have hmem : .counted refreshID serverID (some worker) ∈ l := by
      rw [hright]
      simp
    have := hl _ hmem
    simp [isCounted] at this
  · cases right with
    | nil =>
      have hmem : .counted refreshID serverID (some worker) ∈ l := by
        rw [List.nil_append] at hright
        rw [← hright]
        simp
      have := hl _ hmem
      simp [isCounted] at this
    | cons o right =>
      obtain ⟨rfl, _⟩ := List.cons.inj hright
      exact h before refreshID serverID worker right rfl

theorem countedInOrder_snoc {log : List Occurrence} (h : CountedInOrder log) {worker : Worker}
    (hd : Dispatched worker log) (hne : worker.refreshID ≠ 0) :
    CountedInOrder (log ++ [.counted worker.refreshID worker.serverID (some worker)]) := by
  intro before refreshID serverID w after he
  obtain ⟨left, rfl, hright⟩ | ⟨right, rfl, hright⟩ := List.append_eq_append_iff.mp he
  · cases left with
    | nil =>
      obtain ⟨ho, _⟩ := List.cons.inj hright
      injection ho with hid hserver hworker
      injection hworker with hworker
      subst hid hserver hworker
      rw [List.append_nil]
      exact ⟨rfl, hd hne⟩
    | cons o left => simp at hright
  · cases right with
    | nil =>
      obtain ⟨ho, _⟩ := List.cons.inj hright
      injection ho with hid hserver hworker
      injection hworker with hworker
      subst hid hserver hworker
      rw [List.append_nil] at hd
      exact ⟨rfl, hd hne⟩
    | cons o right =>
      obtain ⟨rfl, _⟩ := List.cons.inj hright
      exact h before refreshID serverID w right rfl

/-- The rounds that run, and those whose completion waits, against what has happened. -/
structure Ordered (s : Schedule F) (log : List Occurrence) : Prop where
  rounds : roundsOf log = List.range s.started
  workers : ∀ worker ∈ s.workers, Dispatched worker log
  done : ∀ c ∈ s.done, Dispatched c.worker log
  batch : ∀ status ∈ s.batch.status, ∃ members, .queuedAll status.id members ∈ log
  counted : CountedInOrder log

structure Accounted (s : Schedule F) (log : List Occurrence) : Prop where
  tallied : Tallied s.batch log
  ordered : Ordered s log

theorem Ordered.append {s : Schedule F} {log l : List Occurrence} (h : Ordered s log)
    (hrounds : roundsOf l = []) (hl : ∀ o ∈ l, isCounted o = false) : Ordered s (log ++ l) where
  rounds := by
    rw [roundsOf, List.flatMap_append]
    exact (congrArg (roundsOf log ++ ·) hrounds).trans ((List.append_nil _).trans h.rounds)
  workers worker hw := (h.workers worker hw).mono l
  done c hc := (h.done c hc).mono l
  batch status hs := by
    obtain ⟨members, hmem⟩ := h.batch status hs
    exact ⟨members, List.mem_append_left l hmem⟩
  counted := countedInOrder_append h.counted hl

theorem accounted_startRound {s : Schedule F} {log : List Occurrence} (h : Accounted s log)
    (serverID : Int) : Accounted (startRound serverID s)
      (log ++ [.started ⟨s.started, serverID, s.refreshID serverID⟩]) := by
  refine ⟨tallied_startMember h.tallied serverID _, ?_⟩
  have hord := h.ordered
  constructor
  · rw [roundsOf, List.flatMap_append]
    exact (congrArg (· ++ [s.started]) hord.rounds).trans List.range_succ.symm
  · intro worker hw
    cases List.mem_append.mp hw with
    | inl hw => exact (hord.workers worker hw).mono _
    | inr hw =>
      rw [List.mem_singleton.mp hw]
      intro hne
      -- a round of a batch is started while the batch is the one of the status
      obtain ⟨status, hstatus, hid⟩ : ∃ status ∈ s.batch.status,
          s.refreshID serverID = status.id := by
        simp only [Schedule.refreshID] at hne ⊢
        by_cases hw : batchWaiting serverID s.batch = true
        · rw [if_pos hw] at hne ⊢
          cases hs : s.batch.status with
          | none => simp [hs] at hne
          | some status => exact ⟨status, rfl, rfl⟩
        · simp [hw] at hne
      obtain ⟨members, hmem⟩ := hord.batch status hstatus
      refine ⟨members, ?_⟩
      rw [hid]
      exact (List.singleton_sublist.mpr hmem).append (List.Sublist.refl _)
  · intro c hc
    exact (hord.done c hc).mono _
  · intro status hs
    have hsame : (startRound serverID s).batch.status = s.batch.status := by
      simp only [startRound]
      split_ifs <;> rfl
    obtain ⟨members, hmem⟩ := hord.batch status (hsame ▸ hs)
    exact ⟨members, List.mem_append_left _ hmem⟩
  · apply countedInOrder_append hord.counted
    simp [isCounted]

/-- The batch status is of the same batch as before, or of one that was queued just now. -/
theorem Ordered.replace {s : Schedule F} {log : List Occurrence} (h : Ordered s log)
    {m : BatchState}
    (hm : ∀ status ∈ m.status, (∃ old ∈ s.batch.status, status.id = old.id) ∨
      ∃ members, .queuedAll status.id members ∈ log) :
    Ordered { s with batch := m } log := by
  refine ⟨h.rounds, h.workers, h.done, ?_, h.counted⟩
  intro status hs
  obtain ⟨old, hold, hid⟩ | hmem := hm status hs
  · rw [hid]
    exact h.batch old hold
  · exact hmem

theorem cancelBatch_id {reason : GoString} {m : BatchState} :
    ∀ status ∈ (cancelBatch reason m).status, ∃ old ∈ m.status, status.id = old.id := by
  intro status hs
  unfold cancelBatch at hs
  cases hp : m.pending with
  | none =>
    rw [hp] at hs
    exact ⟨status, hs, rfl⟩
  | some old =>
    rw [hp] at hs
    cases hs
    exact ⟨old, (pending_eq_some.mp hp).1, rfl⟩

theorem updateBatch_id {valid : Int → Bool} {paused : Bool} {m : BatchState} :
    ∀ status ∈ (updateBatch valid paused m).status, ∃ old ∈ m.status, status.id = old.id := by
  intro status hs
  unfold updateBatch at hs
  cases hp : m.pending with
  | none =>
    rw [hp] at hs
    exact ⟨status, hs, rfl⟩
  | some old =>
    rw [hp] at hs
    refine ⟨old, (pending_eq_some.mp hp).1, ?_⟩
    dsimp only at hs
    by_cases hb : m.batch.filter (fun p => valid p.1) = []
    · rw [if_pos hb] at hs
      cases hs
      rfl
    · rw [if_neg hb] at hs
      cases paused with
      | false =>
        cases hs
        rfl
      | true =>
        obtain ⟨_, hold, hid⟩ := cancelBatch_id status hs
        cases hold
        exact hid

theorem completeBatch_id {refreshID serverID : Int} {error : GoString} {m : BatchState} :
    ∀ status ∈ (completeBatch refreshID serverID error m).status,
      ∃ old ∈ m.status, status.id = old.id := by
  intro status hs
  unfold completeBatch at hs
  cases hp : m.pending with
  | none =>
    rw [hp] at hs
    exact ⟨status, hs, rfl⟩
  | some old =>
    rw [hp] at hs
    dsimp only at hs
    by_cases hc : refreshID = 0 ∨ refreshID ≠ old.id ∨ (serverID, true) ∉ m.batch
    · rw [if_pos hc] at hs
      exact ⟨status, hs, rfl⟩
    · rw [if_neg hc] at hs
      cases hs
      exact ⟨old, (pending_eq_some.mp hp).1, rfl⟩

theorem queueAll_id (c : Config F) (l : ServerList) (m : BatchState) :
    ∀ status ∈ (queueAll c l.servers m).2.status, (∃ old ∈ m.status, status.id = old.id) ∨
      ∃ members, .queuedAll status.id members ∈ queuedBy c l m := by
  intro status hs
  unfold queueAll at hs
  by_cases hc : c.concurrency = 0
  · rw [if_pos hc] at hs
    exact .inl ⟨status, hs, rfl⟩
  · rw [if_neg hc] at hs
    cases hp : m.pending with
    | some old =>
      rw [hp] at hs
      exact .inl ⟨status, hs, rfl⟩
    | none =>
      rw [hp] at hs
      cases hs
      right
      refine ⟨(l.servers.filter (·.enabled)).map (·.id), ?_⟩
      simp [queuedBy, startsBatch, hc, hp]

theorem isCounted_dropped (valid : Int → Bool) (m : BatchState) :
    roundsOf (dropped valid m) = [] ∧ ∀ o ∈ dropped valid m, isCounted o = false := by
  unfold dropped
  split
  · simp [roundsOf]
  · refine ⟨List.flatMap_eq_nil_iff.mpr ?_, ?_⟩
    all_goals
      intro o ho
      obtain ⟨p, _, rfl⟩ := List.mem_map.mp ho
      rfl

theorem isCounted_queuedBy {c : Config F} {l : ServerList} {m : BatchState} :
    roundsOf (queuedBy c l m) = [] ∧ ∀ o ∈ queuedBy c l m, isCounted o = false := by
  unfold queuedBy
  split_ifs
  · simp [roundsOf, Occurrence.round, isCounted]
  · simp [roundsOf]

theorem ordered_arrived {s : Schedule F} {log : List Occurrence} (h : Ordered s log)
    {worker : Worker} (hd : Dispatched worker log) (m : BatchState) :
    Ordered s (log ++ arrived worker m) := by
  unfold arrived
  cases m.pending with
  | none =>
    rw [List.append_nil]
    exact h
  | some status =>
    dsimp only
    by_cases hc : worker.refreshID = 0 ∨ worker.refreshID ≠ status.id ∨
        (worker.serverID, true) ∉ m.batch
    · rw [if_pos hc, List.append_nil]
      exact h
    · rw [if_neg hc]
      rw [not_or, not_or, not_not, not_not] at hc
      obtain ⟨hne, hid, _⟩ := hc
      refine ⟨?_, ?_, ?_, ?_, ?_⟩
      · rw [roundsOf, List.flatMap_append]
        exact (List.append_nil _).trans h.rounds
      · exact fun w hw => (h.workers w hw).mono _
      · exact fun c hc => (h.done c hc).mono _
      · intro old hold
        obtain ⟨members, hmem⟩ := h.batch old hold
        exact ⟨members, List.mem_append_left _ hmem⟩
      · rw [← hid]
        exact countedInOrder_snoc h.counted hd hne

theorem accounted_receive {s : Schedule F} {log : List Occurrence} (h : Accounted s log)
    {c : Completion} {done : List Completion} (hdone : s.done = c :: done) :
    Accounted (receive s) (log ++ arrived c.worker s.batch) := by
  have hord := ordered_arrived h.ordered (h.ordered.done c (by simp [hdone])) s.batch
  rw [receive, hdone]
  refine ⟨tallied_completeBatch h.tallied c.worker c.error, hord.rounds, hord.workers, ?_, ?_,
    hord.counted⟩
  · intro d hd
    exact hord.done d (by simp [hdone, hd])
  · intro status hs
    obtain ⟨old, hold, hid⟩ := completeBatch_id status hs
    rw [hid]
    exact hord.batch old hold

theorem accounted_finish {s : Schedule F} {log : List Occurrence} (h : Accounted s log)
    (number : Nat) (error : GoString) (nextDue failures : Int) :
    Accounted (finish number error nextDue failures s) log := by
  unfold finish
  cases hfind : s.workers.find? (·.number = number) with
  | none => exact h
  | some worker =>
    dsimp only
    split_ifs
    · exact h
    · have hord := h.ordered
      refine ⟨h.tallied, hord.rounds, ?_, ?_, hord.batch, hord.counted⟩
      · intro w hw
        exact hord.workers w (List.mem_filter.mp hw).1
      · intro c hc
        cases List.mem_append.mp hc with
        | inl hc => exact hord.done c hc
        | inr hc =>
          rw [List.mem_singleton.mp hc]
          exact hord.workers worker (List.mem_of_find?_eq_some hfind)

theorem queue_eq (c : Config F) (current : Except GoString Server) (serverID : Int)
    (s : Schedule F) : ∃ queued, (queue c current serverID s).2 = { s with queued } := by
  unfold queue
  by_cases hc : c.concurrency = 0
  · exact ⟨s.queued, by rw [if_pos hc]⟩
  · rw [if_neg hc]
    cases current with
    | error e => exact ⟨s.queued, rfl⟩
    | ok server =>
      dsimp only
      split_ifs
      · exact ⟨s.queued, rfl⟩
      · exact ⟨s.queued, rfl⟩
      · exact ⟨s.queued, rfl⟩
      · exact ⟨_, rfl⟩

theorem accounted_stop {s : Schedule F} {log : List Occurrence} (h : Accounted s log) :
    Accounted (stop s) log := by
  have hord := h.ordered.replace (m := cancelBatch (utf8 "程序停止，本轮刷新未完成") s.batch)
    fun status hs => .inl (cancelBatch_id status hs)
  exact ⟨tallied_cancelBatch h.tallied (by decide +kernel), hord.rounds, hord.workers, hord.done,
    hord.batch, hord.counted⟩

theorem accounted_dispatch {s : Schedule F} {log : List Occurrence} (h : Accounted s log)
    (now : Int) : ∃ workers, (dispatch now s).workers = s.workers ++ workers ∧
      Accounted (dispatch now s) (log ++ workers.map .started) := by
  refine dispatch_keeps (P := fun t => ∃ workers, t.workers = s.workers ++ workers ∧
    Accounted t (log ++ workers.map .started)) ?_
    ⟨[], (List.append_nil _).symm, by simpa using h⟩
  rintro t server _ _ ⟨workers, hworkers, ht⟩
  refine ⟨workers ++ [⟨t.started, server.id, t.refreshID server.id⟩], ?_, ?_⟩
  · simp [startRound, hworkers]
  · have hnext := accounted_startRound ht server.id
    rw [List.append_assoc] at hnext
    rw [List.map_append]
    exact hnext

variable [GoFloat F] [CaseTables]

theorem accounted_refresh {s : Schedule F} {log : List Occurrence} (h : Accounted s log)
    {c : Config F} (hc : ∃ valid, validateConfig c = .ok valid) (l : ServerList) (now : Int)
    (jitter : Int → F) :
    Accounted (refresh c l now jitter s) (log ++ dropped l.valid s.batch) := by
  obtain ⟨valid, hvalid⟩ := hc
  obtain ⟨hrounds, hcounted⟩ := isCounted_dropped l.valid s.batch
  have hord := (h.ordered.append hrounds hcounted).replace
    (m := updateBatch l.valid (valid.concurrency = 0) s.batch)
    fun status hs => .inl (updateBatch_id status hs)
  rw [refresh, hvalid]
  exact ⟨tallied_updateBatch h.tallied _ _, hord.rounds, hord.workers, hord.done, hord.batch,
    hord.counted⟩

def occurrences (s : Schedule F) : Action F → List Occurrence
  | .queueAll c l => queuedBy c l s.batch
  | .refresh c l _ _ =>
    if s.stopped then []
    else
      match validateConfig c with
      | .error _ => []
      | .ok _ => dropped l.valid s.batch
  | .dispatch now =>
    if s.stopped then []
    else ((dispatch now s).workers.drop s.workers.length).map .started
  | .receive =>
    if s.stopped then []
    else
      match s.done with
      | [] => []
      | c :: _ => arrived c.worker s.batch
  | .queue _ _ _ | .finish _ _ _ _ | .stop => []

structure Observed (F : Type) where
  schedule : Schedule F
  log : List Occurrence

def observe (o : Observed F) (a : Action F) : Observed F :=
  ⟨step o.schedule a, o.log ++ occurrences o.schedule a⟩

theorem accounted_observe (o : Observed F) (a : Action F) (h : Accounted o.schedule o.log) :
    Accounted (observe o a).schedule (observe o a).log := by
  obtain ⟨s, log⟩ := o
  simp only [observe]
  cases a with
  | queueAll c l =>
    obtain ⟨hrounds, hcounted⟩ := isCounted_queuedBy (c := c) (l := l) (m := s.batch)
    refine ⟨tallied_queueAll h.tallied c l, ?_⟩
    apply (h.ordered.append hrounds hcounted).replace
    intro status hs
    obtain hold | ⟨members, hmem⟩ := queueAll_id c l s.batch status hs
    · exact .inl hold
    · exact .inr ⟨members, List.mem_append_right _ hmem⟩
  | queue c current serverID =>
    obtain ⟨queued, hq⟩ := queue_eq c current serverID s
    have hord := h.ordered
    rw [step, hq, occurrences, List.append_nil]
    exact ⟨h.tallied, hord.rounds, hord.workers, hord.done, hord.batch, hord.counted⟩
  | refresh c l now jitter =>
    simp only [step, occurrences]
    by_cases hs : s.stopped = true
    · simpa [hs] using h
    · rw [if_neg hs, if_neg hs]
      cases hv : validateConfig c with
      | error e => simpa [refresh, hv] using h
      | ok valid => exact accounted_refresh h ⟨valid, hv⟩ l now jitter
  | dispatch now =>
    simp only [step, occurrences]
    by_cases hs : s.stopped = true
    · simpa [hs] using h
    · obtain ⟨workers, hworkers, hnext⟩ := accounted_dispatch h now
      rw [if_neg hs, if_neg hs, hworkers, List.drop_left]
      exact hnext
  | finish number error nextDue failures =>
    rw [step, occurrences, List.append_nil]
    exact accounted_finish h number error nextDue failures
  | receive =>
    simp only [step, occurrences]
    by_cases hs : s.stopped = true
    · simpa [hs] using h
    · rw [if_neg hs, if_neg hs]
      cases hdone : s.done with
      | nil => simpa [receive, hdone] using h
      | cons c done => exact accounted_receive h hdone
  | stop =>
    rw [step, occurrences, List.append_nil]
    exact accounted_stop h

/-- Before the first refresh nothing has happened. -/
def watch (nextDue failures : Int → Int) : Observed F := ⟨start nextDue failures, []⟩

omit [GoFloat F] [CaseTables] in
theorem accounted_start (nextDue failures : Int → Int) :
    Accounted (start nextDue failures : Schedule F) [] := by
  refine ⟨tallied_noBatch, rfl, by simp [start], by simp [start], ?_, ?_⟩
  · intro status hs
    cases hs
  · intro before refreshID serverID worker after he
    simp at he

theorem accounted_run (nextDue failures : Int → Int) (as : List (Action F)) :
    Accounted (Runs.run observe (watch nextDue failures) as).schedule
      (Runs.run observe (watch nextDue failures) as).log :=
  Runs.run_invariant (P := fun o : Observed F => Accounted o.schedule o.log) accounted_observe
    (accounted_start nextDue failures) as

theorem log_grows (o : Observed F) (as : List (Action F)) :
    ∃ l, (Runs.run observe o as).log = o.log ++ l := by
  refine Runs.run_invariant (P := fun t : Observed F => ∃ l, t.log = o.log ++ l) ?_
    ⟨[], (List.append_nil _).symm⟩ as
  rintro t a ⟨l, hl⟩
  exact ⟨l ++ occurrences t.schedule a, by rw [observe, hl, List.append_assoc]⟩

/-- The status of the last batch, and what has happened, say the same, and nobody was counted
twice or for a round that was started before the batch. -/
structure Exact (o : Observed F) : Prop where
  pending : ∀ status ∈ o.schedule.batch.status, status.pending = true →
    status.completed + o.schedule.batch.batch.length = status.total
  bounded : ∀ status ∈ o.schedule.batch.status, status.completed ≤ status.total
  settled : ∀ status ∈ o.schedule.batch.status, status.pending = false → status.error = [] →
    status.completed = status.total
  completed : ∀ status ∈ o.schedule.batch.status,
    status.completed = (countedOf status.id o.log).length
  once : ∀ refreshID, (countedOf refreshID o.log).Nodup
  members : ∀ refreshID, ∀ serverID ∈ countedOf refreshID o.log, serverID ∈ membersOf refreshID o.log
  rounds : (roundsOf o.log).Nodup
  dispatched : CountedInOrder o.log

omit [GoFloat F] [CaseTables] in
theorem exact_of_accounted {o : Observed F} (h : Accounted o.schedule o.log) : Exact o := by
  obtain ⟨ht, ho⟩ := h
  constructor
  · intro status hs hp
    have ha := ht.agrees status hs
    have hlength := (ha.exact (.inl hp)).length_eq
    rw [List.length_append, List.length_map] at hlength
    rw [ha.completed, ha.total, hlength]
  · intro status hs
    have ha := ht.agrees status hs
    rw [ha.completed, ha.total]
    exact (ht.within status.id).length_le
  · intro status hs hp he
    have ha := ht.agrees status hs
    have hleft : o.schedule.batch.batch.map (·.1) = [] := by
      by_contra hne
      have := ha.pending.mpr hne
      simp [hp] at this
    have hlength := (ha.exact (.inr he)).length_eq
    rw [hleft, List.append_nil] at hlength
    rw [ha.completed, ha.total, hlength]
  · exact fun status hs => (ht.agrees status hs).completed
  · intro refreshID
    obtain ⟨l, hperm, hsub⟩ := ht.within refreshID
    exact hperm.nodup_iff.mp (hsub.nodup (ht.distinct refreshID))
  · exact fun refreshID _ hmem => (ht.within refreshID).subset hmem
  · rw [ho.rounds]
    exact List.nodup_range
  · exact ho.counted

/-- Whatever happens and in which order, the accounting of manual refreshes is exact, and
`Completed` never goes down within one batch. -/
theorem refresh_accounting (nextDue failures : Int → Int) (as : List (Action F)) :
    Exact (Runs.run observe (watch nextDue failures) as) ∧
      ∀ bs, bs <+: as →
        ∀ earlier ∈ (Runs.run observe (watch nextDue failures) bs).schedule.batch.status,
        ∀ later ∈ (Runs.run observe (watch nextDue failures) as).schedule.batch.status,
          earlier.id = later.id → earlier.completed ≤ later.completed := by
  refine ⟨exact_of_accounted (accounted_run nextDue failures as), ?_⟩
  rintro bs ⟨cs, rfl⟩ earlier hearlier later hlater hid
  have h₁ := (exact_of_accounted (accounted_run nextDue failures bs)).completed earlier hearlier
  have h₂ := (exact_of_accounted (accounted_run nextDue failures (bs ++ cs))).completed later hlater
  rw [Runs.run_append] at h₂
  obtain ⟨l, hl⟩ := log_grows (Runs.run observe (watch nextDue failures) bs) cs
  rw [h₁, h₂, hl, countedOf_append, hid, List.length_append]
  exact Nat.le_add_right _ _

end DnsMonitor.Monitor.Accounting

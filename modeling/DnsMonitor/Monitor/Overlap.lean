import DnsMonitor.Monitor.Accounting

namespace DnsMonitor.Monitor.Overlap

open DnsMonitor.Model DnsMonitor.Lib DnsMonitor.Monitor.Config DnsMonitor.Monitor.Scheduler
open DnsMonitor.Monitor.Accounting
open DnsMonitor.Go.Strings DnsMonitor.Go.Unicode DnsMonitor.Go.Float

/-- The schedule with the context of `Run`. -/
structure Process (F : Type) where
  schedule : Schedule F
  cancelled : Bool

inductive Event (F : Type) where
  | act (a : Action F)
  | cancel
  /-- A worker of which the context is done may leave without its completion. -/
  | leave (number : Nat)

section

variable {F : Type}

def begin (nextDue failures : Int → Int) : Process F := ⟨start nextDue failures, false⟩

def leave (number : Nat) (s : Schedule F) : Schedule F :=
  { s with workers := s.workers.filter (·.number ≠ number) }

/-- `Run` returns only when its context is done. -/
def live [GoFloat F] [CaseTables] (p : Process F) : Event F → Process F
  | .act .stop => if p.cancelled then { p with schedule := stop p.schedule } else p
  | .act a => { p with schedule := step p.schedule a }
  | .cancel => { p with cancelled := true }
  | .leave number => if p.cancelled then { p with schedule := leave number p.schedule } else p

/-- The servers of the workers and of the completions that `Run` has not taken. -/
def rounds (s : Schedule F) : List Int :=
  s.workers.map (·.serverID) ++ s.done.map (·.worker.serverID)

def count (s : Schedule F) : Int := s.inFlight.length

/-- `inFlight` and `queued` are the keys of maps. -/
structure Serial (cancelled : Bool) (s : Schedule F) : Prop where
  once : (rounds s).Nodup
  known : ∀ serverID ∈ rounds s, serverID ∈ s.inFlight
  exact : cancelled = false → ∀ serverID ∈ s.inFlight, serverID ∈ rounds s
  inFlight : s.inFlight.Nodup
  queued : s.queued.Nodup
  disjoint : ∀ serverID ∈ s.queued, serverID ∉ s.inFlight
  bounded : s.queued.length ≤ maxQueued

variable {cancelled : Bool} {s t : Schedule F}

theorem serial_start (nextDue failures : Int → Int) :
    Serial cancelled (start nextDue failures : Schedule F) where
  once := List.nodup_nil
  known _ h := absurd h List.not_mem_nil
  exact _ _ h := absurd h List.not_mem_nil
  inFlight := List.nodup_nil
  queued := List.nodup_nil
  disjoint _ h := absurd h List.not_mem_nil
  bounded := Nat.zero_le _

theorem Serial.of_perm (h : Serial cancelled s) (hr : (rounds t).Perm (rounds s))
    (hi : t.inFlight = s.inFlight) (hq : t.queued.Sublist s.queued) : Serial cancelled t where
  once := hr.nodup_iff.mpr h.once
  known serverID hmem := hi ▸ h.known serverID (hr.mem_iff.mp hmem)
  exact hc serverID hmem := hr.mem_iff.mpr (h.exact hc serverID (hi ▸ hmem))
  inFlight := hi ▸ h.inFlight
  queued := h.queued.sublist hq
  disjoint serverID hmem := hi ▸ h.disjoint serverID (hq.subset hmem)
  bounded := hq.length_le.trans h.bounded

theorem rounds_startRound (serverID : Int) (s : Schedule F) :
    (rounds (startRound serverID s)).Perm (serverID :: rounds s) := by
  rw [rounds, startRound, List.map_append, List.append_assoc]
  exact List.perm_middle

theorem serial_startRound (h : Serial cancelled s) {serverID : Int}
    (hnew : serverID ∉ s.inFlight) : Serial cancelled (startRound serverID s) where
  once := (rounds_startRound serverID s).nodup_iff.mpr
    (List.nodup_cons.mpr ⟨fun hmem => hnew (h.known serverID hmem), h.once⟩)
  known id hmem := by
    cases List.mem_cons.mp ((rounds_startRound serverID s).mem_iff.mp hmem) with
    | inl heq => exact List.mem_cons.mpr (.inl heq)
    | inr hold => exact List.mem_cons.mpr (.inr (h.known id hold))
  exact hc id hmem := by
    apply (rounds_startRound serverID s).mem_iff.mpr
    cases List.mem_cons.mp hmem with
    | inl heq => exact List.mem_cons.mpr (.inl heq)
    | inr hold => exact List.mem_cons.mpr (.inr (h.exact hc id hold))
  inFlight := List.nodup_cons.mpr ⟨hnew, h.inFlight⟩
  queued := h.queued.filter _
  disjoint id hmem := by
    obtain ⟨hold, hne⟩ := List.mem_filter.mp hmem
    rw [startRound, List.mem_cons, not_or]
    exact ⟨of_decide_eq_true hne, h.disjoint id hold⟩
  bounded := (List.length_filter_le _ _).trans h.bounded

theorem serial_dispatch (h : Serial cancelled s) (now : Int) :
    Serial cancelled (dispatch now s) := by
  refine dispatch_keeps ?_ h
  intro t server hskip _ ht
  apply serial_startRound ht
  intro hmem
  simp [Schedule.skips, hmem] at hskip

theorem finish_frame (number : Nat) (error : GoString) (nextDue failures : Int) (s : Schedule F) :
    (finish number error nextDue failures s).inFlight = s.inFlight ∧
      (finish number error nextDue failures s).queued = s.queued := by
  unfold finish
  split
  · exact ⟨rfl, rfl⟩
  · split_ifs <;> exact ⟨rfl, rfl⟩

theorem rounds_finish (h : Serial cancelled s) (number : Nat) (error : GoString)
    (nextDue failures : Int) :
    (rounds (finish number error nextDue failures s)).Perm (rounds s) := by
  unfold finish
  cases hfind : s.workers.find? (·.number = number) with
  | none => exact .rfl
  | some worker =>
    dsimp only
    split_ifs
    · exact .rfl
    · have hnodup : s.workers.Nodup := (List.nodup_append.mp h.once).1.of_map _
      have hworkers : s.workers.Perm (worker :: s.workers.filter (· ≠ worker)) := by
        have hfilter : s.workers.filter (· ≠ worker) = s.workers.erase worker := by
          rw [hnodup.erase_eq_filter]
          apply List.filter_congr
          intro w _
          rw [decide_not]
          rfl
        rw [hfilter]
        exact List.perm_cons_erase (List.mem_of_find?_eq_some hfind)
      have hrounds : (rounds s).Perm (worker.serverID ::
          ((s.workers.filter (· ≠ worker)).map (·.serverID) ++
            s.done.map (·.worker.serverID))) := (hworkers.map (·.serverID)).append_right _
      refine .trans ?_ hrounds.symm
      rw [rounds, List.map_append, ← List.append_assoc]
      exact List.perm_append_singleton _ _

theorem serial_receive (h : Serial cancelled s) : Serial cancelled (receive s) := by
  unfold receive
  split
  · exact h
  · rename_i c done hdone
    have hrounds : (rounds s).Perm (c.worker.serverID ::
        (s.workers.map (·.serverID) ++ done.map (·.worker.serverID))) := by
      rw [rounds, hdone]
      exact List.perm_middle
    obtain ⟨hother, hnodup⟩ := List.nodup_cons.mp (hrounds.nodup_iff.mp h.once)
    refine ⟨hnodup, ?_, ?_, h.inFlight.filter _, h.queued, ?_, h.bounded⟩
    · intro serverID hmem
      apply List.mem_filter.mpr
      refine ⟨h.known serverID (hrounds.mem_iff.mpr (List.mem_cons_of_mem _ hmem)), ?_⟩
      apply decide_eq_true
      rintro rfl
      exact hother hmem
    · intro hc serverID hmem
      obtain ⟨hold, hne⟩ := List.mem_filter.mp hmem
      have hmem := hrounds.mem_iff.mp (h.exact hc serverID hold)
      exact (List.mem_cons.mp hmem).resolve_left (of_decide_eq_true hne)
    · intro serverID hmem hfilter
      exact h.disjoint serverID hmem (List.mem_filter.mp hfilter).1

theorem serial_queue (h : Serial cancelled s) (c : Config F)
    (current : Except GoString Server) (serverID : Int) :
    Serial cancelled (queue c current serverID s).2 := by
  unfold queue
  by_cases hc : c.concurrency = 0
  · rw [if_pos hc]
    exact h
  · rw [if_neg hc]
    cases current with
    | error e => exact h
    | ok server =>
      dsimp only
      split_ifs with _ hold hfull
      · exact h
      · exact h
      · exact h
      · rw [not_or] at hold
        refine ⟨h.once, h.known, h.exact, h.inFlight, List.nodup_cons.mpr ⟨hold.1, h.queued⟩, ?_,
          Nat.lt_of_not_le hfull⟩
        intro id hmem
        cases List.mem_cons.mp hmem with
        | inl heq => exact heq ▸ hold.2
        | inr hmem => exact h.disjoint id hmem

theorem serial_leave (h : Serial true s) (number : Nat) : Serial true (leave number s) := by
  have hsub : (rounds (leave number s)).Sublist (rounds s) :=
    (List.filter_sublist.map _).append (List.Sublist.refl _)
  refine ⟨h.once.sublist hsub, fun id hmem => h.known id (hsub.subset hmem), ?_, h.inFlight,
    h.queued, h.disjoint, h.bounded⟩
  intro hc
  cases hc

end

section

variable {F : Type} [GoFloat F] [CaseTables] {cancelled : Bool} {s : Schedule F}

theorem serial_refresh (h : Serial cancelled s) (c : Config F) (l : ServerList) (now : Int)
    (jitter : Int → F) : Serial cancelled (refresh c l now jitter s) := by
  unfold refresh
  split
  · exact h
  · exact h.of_perm .rfl rfl List.filter_sublist

theorem serial_step (h : Serial cancelled s) (a : Action F) : Serial cancelled (step s a) := by
  cases a with
  | queueAll c l => exact h.of_perm .rfl rfl (.refl _)
  | queue c current serverID => exact serial_queue h c current serverID
  | refresh c l now jitter =>
    simp only [step]
    split_ifs
    · exact h
    · exact serial_refresh h c l now jitter
  | dispatch now =>
    simp only [step]
    split_ifs
    · exact h
    · exact serial_dispatch h now
  | finish number error nextDue failures =>
    obtain ⟨hinFlight, hqueued⟩ := finish_frame number error nextDue failures s
    exact h.of_perm (rounds_finish h number error nextDue failures) hinFlight (hqueued ▸ .refl _)
  | receive =>
    simp only [step]
    split_ifs
    · exact h
    · exact serial_receive h
  | stop => exact h.of_perm .rfl rfl (.refl _)

theorem serial_live (p : Process F) (e : Event F) (h : Serial p.cancelled p.schedule) :
    Serial (live p e).cancelled (live p e).schedule := by
  cases e with
  | act a =>
    cases a with
    | stop =>
      simp only [live]
      split_ifs
      · exact serial_step h .stop
      · exact h
    | queueAll c l => exact serial_step h (.queueAll c l)
    | queue c current serverID => exact serial_step h (.queue c current serverID)
    | refresh c l now jitter => exact serial_step h (.refresh c l now jitter)
    | dispatch now => exact serial_step h (.dispatch now)
    | finish number error nextDue failures =>
      exact serial_step h (.finish number error nextDue failures)
    | receive => exact serial_step h .receive
  | cancel => exact ⟨h.once, h.known, nofun, h.inFlight, h.queued, h.disjoint, h.bounded⟩
  | leave number =>
    simp only [live]
    split_ifs with hc
    · rw [hc] at h ⊢
      exact serial_leave h number
    · exact h

omit [GoFloat F] [CaseTables] in
theorem count_dispatch (now : Int) (s : Schedule F) :
    (dispatch now s).concurrency = s.concurrency ∧
      count (dispatch now s) ≤ max (count s) s.concurrency := by
  refine dispatch_keeps (P := fun t => t.concurrency = s.concurrency ∧
    count t ≤ max (count s) s.concurrency) ?_ ⟨rfl, le_max_left _ _⟩
  intro t server _ hfull ⟨hsame, _⟩
  refine ⟨hsame, ?_⟩
  have hcount : count (startRound server.id t) = count t + 1 := by
    simp [count, startRound]
  have hbelow : count t < s.concurrency := hsame ▸ hfull
  omega

omit [GoFloat F] [CaseTables] in
theorem count_receive (s : Schedule F) : count (receive s) ≤ count s := by
  unfold receive
  split
  · exact le_rfl
  · exact Int.ofNat_le.mpr (List.length_filter_le _ _)

theorem count_refresh (c : Config F) (l : ServerList) (now : Int) (jitter : Int → F)
    (s : Schedule F) : count (refresh c l now jitter s) = count s := by
  unfold refresh
  split <;> rfl

theorem count_step (s : Schedule F) (a : Action F) :
    count (step s a) ≤ max (count s) s.concurrency := by
  cases a with
  | queueAll c l => exact le_max_left _ _
  | queue c current serverID =>
    obtain ⟨queued, hq⟩ := queue_eq c current serverID s
    rw [step, hq]
    exact le_max_left _ _
  | refresh c l now jitter =>
    simp only [step]
    split_ifs
    · exact le_max_left _ _
    · exact (count_refresh c l now jitter s).trans_le (le_max_left _ _)
  | dispatch now =>
    simp only [step]
    split_ifs
    · exact le_max_left _ _
    · exact (count_dispatch now s).2
  | finish number error nextDue failures =>
    have hsame := congrArg List.length (finish_frame number error nextDue failures s).1
    exact (congrArg Int.ofNat hsame).trans_le (le_max_left _ _)
  | receive =>
    simp only [step]
    split_ifs
    · exact le_max_left _ _
    · exact (count_receive s).trans (le_max_left _ _)
  | stop => exact le_max_left _ _

theorem count_live (p : Process F) (e : Event F) :
    count (live p e).schedule ≤ max (count p.schedule) p.schedule.concurrency := by
  cases e with
  | act a =>
    cases a with
    | stop =>
      simp only [live]
      split_ifs <;> exact le_max_left _ _
    | _ => exact count_step p.schedule _
  | cancel => exact le_max_left _ _
  | leave number =>
    simp only [live]
    split_ifs <;> exact le_max_left _ _

structure Consistent (nextDue failures : Int → Int) (es : List (Event F)) (p : Process F) :
    Prop where
  apart : (rounds p.schedule).Nodup
  exact : p.cancelled = false → ∀ serverID, (rounds p.schedule).count serverID =
    if serverID ∈ p.schedule.inFlight then 1 else 0
  keys : p.schedule.queued.Nodup ∧ p.schedule.inFlight.Nodup
  disjoint : ∀ serverID ∈ p.schedule.queued, serverID ∉ p.schedule.inFlight
  bounded : p.schedule.queued.length ≤ 256
  dispatch : ∀ now, count (dispatch now p.schedule) ≤ max (count p.schedule) p.schedule.concurrency
  /-- More rounds than the limit are in flight only since the limit was lowered. -/
  lowered : p.schedule.concurrency < count p.schedule → ∃ fs e gs, es = fs ++ e :: gs ∧
    (Runs.run live (begin nextDue failures) (fs ++ [e])).schedule.concurrency <
      count p.schedule ∧
    count p.schedule ≤ (Runs.run live (begin nextDue failures) fs).schedule.concurrency

omit [GoFloat F] [CaseTables] in
theorem Serial.count_rounds (h : Serial false s) (serverID : Int) :
    (rounds s).count serverID = if serverID ∈ s.inFlight then 1 else 0 := by
  split_ifs with hmem
  · exact List.count_eq_one_of_mem h.once (h.exact rfl serverID hmem)
  · exact List.count_eq_zero_of_not_mem fun hround => hmem (h.known serverID hround)

/-- Whatever happens and in which order: as long as the context of `Run` is not done, exactly the
servers in flight have one worker or one completion that waits, and no other has any. -/
theorem rounds_never_overlap (nextDue failures : Int → Int) (es : List (Event F)) :
    Consistent nextDue failures es (Runs.run live (begin nextDue failures) es) := by
  have hstart : Serial (begin nextDue failures : Process F).cancelled
      (begin nextDue failures : Process F).schedule := serial_start nextDue failures
  have hserial := Runs.run_invariant (P := fun p : Process F => Serial p.cancelled p.schedule)
    serial_live hstart es
  refine ⟨hserial.once, ?_, ⟨hserial.queued, hserial.inFlight⟩, hserial.disjoint, hserial.bounded,
    fun now => (count_dispatch now _).2, ?_⟩
  · intro hc serverID
    rw [hc] at hserial
    exact hserial.count_rounds serverID
  · intro habove
    exact Runs.lowered_of_above (fun p : Process F => count p.schedule)
      (fun p : Process F => p.schedule.concurrency) count_live (s := begin nextDue failures)
      le_rfl es habove le_rfl

end

end DnsMonitor.Monitor.Overlap

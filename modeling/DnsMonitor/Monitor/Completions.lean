import DnsMonitor.Monitor.Overlap

namespace DnsMonitor.Monitor.Completions

open DnsMonitor.Model DnsMonitor.Lib.Runs DnsMonitor.Monitor.Config DnsMonitor.Monitor.Scheduler
open DnsMonitor.Monitor.Accounting DnsMonitor.Monitor.Overlap
open DnsMonitor.Go.Strings DnsMonitor.Go.Unicode DnsMonitor.Go.Errors DnsMonitor.Go.Float

variable {F : Type} [GoFloat F] [CaseTables]

theorem concurrency_validateConfig {c c' : Config F} (h : validateConfig c = .ok c') :
    0 ≤ c'.concurrency ∧ c'.concurrency ≤ 50 := by
  obtain ⟨listen, domains, _, hlimits, _, rfl⟩ := validateConfig_eq_ok.mp h
  simp only [validateLimits, bind_eq_ok, require_eq_ok] at hlimits
  obtain ⟨_, _, _, _, _, hconcurrency, _⟩ := hlimits
  exact ⟨by dsimp only; omega, by dsimp only; omega⟩

structure Narrow (s : Schedule F) : Prop where
  concurrency : s.concurrency ≤ maxDone
  count : count s ≤ maxDone

omit [GoFloat F] [CaseTables] in
theorem concurrency_finish (number : Nat) (error : GoString) (nextDue failures : Int)
    (s : Schedule F) : (finish number error nextDue failures s).concurrency = s.concurrency := by
  unfold finish
  split
  · rfl
  · split_ifs <;> rfl

omit [GoFloat F] [CaseTables] in
theorem concurrency_receive (s : Schedule F) : (receive s).concurrency = s.concurrency := by
  unfold receive
  split <;> rfl

theorem concurrency_refresh {s : Schedule F} (h : s.concurrency ≤ maxDone) (c : Config F)
    (l : ServerList) (now : Int) (jitter : Int → F) :
    (refresh c l now jitter s).concurrency ≤ maxDone := by
  unfold refresh
  split
  · exact h
  · rename_i c' hc'
    exact (concurrency_validateConfig hc').2

theorem narrow_step {s : Schedule F} (h : Narrow s) (a : Action F) : Narrow (step s a) where
  count := (count_step s a).trans (max_le h.count h.concurrency)
  concurrency := by
    cases a with
    | queueAll c l => exact h.concurrency
    | queue c current id =>
      obtain ⟨queued, hq⟩ := queue_eq c current id s
      rw [step, hq]
      exact h.concurrency
    | refresh c l now jitter =>
      simp only [step]
      split_ifs
      · exact h.concurrency
      · exact concurrency_refresh h.concurrency c l now jitter
    | dispatch now =>
      simp only [step]
      split_ifs
      · exact h.concurrency
      · exact (count_dispatch now s).1.trans_le h.concurrency
    | finish number error nextDue failures =>
      exact (concurrency_finish number error nextDue failures s).trans_le h.concurrency
    | receive =>
      simp only [step]
      split_ifs
      · exact h.concurrency
      · exact (concurrency_receive s).trans_le h.concurrency
    | stop => exact h.concurrency

omit [GoFloat F] [CaseTables] in
theorem narrow_start (nextDue failures : Int → Int) :
    Narrow (start nextDue failures : Schedule F) where
  concurrency := Int.natCast_nonneg maxDone
  count := Int.natCast_nonneg maxDone

theorem narrow_live (p : Process F) (e : Event F) (h : Narrow p.schedule) :
    Narrow (live p e).schedule := by
  cases e with
  | act a =>
    cases a with
    | stop =>
      simp only [live]
      split_ifs
      · exact narrow_step h .stop
      · exact h
    | queueAll c l => exact narrow_step h (.queueAll c l)
    | queue c current serverID => exact narrow_step h (.queue c current serverID)
    | refresh c l now jitter => exact narrow_step h (.refresh c l now jitter)
    | dispatch now => exact narrow_step h (.dispatch now)
    | finish number error nextDue failures =>
      exact narrow_step h (.finish number error nextDue failures)
    | receive => exact narrow_step h .receive
  | cancel => exact h
  | leave number =>
    simp only [live]
    split_ifs
    · exact ⟨h.concurrency, h.count⟩
    · exact h

/-- Workers and completions together are never more than the channel takes, so a worker whose
round is over sends its completion at once, whatever happens. -/
theorem completion_never_waits (nextDue failures : Int → Int) (es : List (Event F)) :
    (rounds (run live (begin nextDue failures) es).schedule).length ≤ maxDone ∧
    ∀ worker ∈ (run live (begin nextDue failures) es).schedule.workers,
      (run live (begin nextDue failures) es).schedule.done.length < maxDone := by
  have hserial := run_invariant (P := fun p : Process F => Serial p.cancelled p.schedule)
    serial_live (s := begin nextDue failures) (serial_start nextDue failures) es
  have hnarrow := run_invariant (P := fun p : Process F => Narrow p.schedule)
    narrow_live (s := begin nextDue failures) (narrow_start nextDue failures) es
  generalize (run live (begin nextDue failures) es).schedule = s at *
  have hrounds : (rounds s).length ≤ s.inFlight.length :=
    (hserial.once.subperm hserial.known).length_le
  have hcount : s.inFlight.length ≤ maxDone := Int.ofNat_le.mp hnarrow.count
  refine ⟨hrounds.trans hcount, ?_⟩
  intro worker hworker
  have hpos := List.length_pos_of_mem hworker
  have hsplit : (rounds s).length = s.workers.length + s.done.length := by simp [rounds]
  omega

end DnsMonitor.Monitor.Completions

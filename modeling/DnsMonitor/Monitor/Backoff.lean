import DnsMonitor.Monitor.Round
import DnsMonitor.Store.Streak

namespace DnsMonitor.Monitor.Backoff

open DnsMonitor.Model DnsMonitor.Lib DnsMonitor.Store.Schema DnsMonitor.Store.Rounds
open DnsMonitor.Store.Migration DnsMonitor.Store.Run DnsMonitor.Store.WellFormed
open DnsMonitor.Store.Schedule DnsMonitor.Store.Streak
open DnsMonitor.Monitor.Probe DnsMonitor.Monitor.Round
open DnsMonitor.Go.Strings DnsMonitor.Go.Unicode DnsMonitor.Go.Errors DnsMonitor.Go.Float

section

variable {F : Type} [GoFloat F] [CaseTables]

/-- One execution of a round, after what the other goroutines have written before it is saved. -/
structure Execution (F : Type) where
  others : List (Event F)
  server : Server
  config : Config F
  world : World F

/-- The store, and the failures the scheduler remembers of one server. -/
structure Progress (F : Type) where
  db : DB F
  failures : Int

/-- Run a round with the remembered failures and remember those it completes with. A round
that could not be saved is an error. -/
def execute (s : Progress F) (x : Execution F) : Except StoreError (Progress F) :=
  let (db, completion) :=
    runRound (Runs.run step s.db x.others) x.server x.config s.failures x.world
  match completion.error with
  | none => .ok ⟨db, completion.failures⟩
  | some e => .error e

/-- Does the round end before its first probe? There is no domain, or the server was deleted,
disabled or moved, or probing was paused, or the source's configuration has changed. -/
def Execution.stopsBeforeProbe (x : Execution F) : Bool :=
  match x.world.visits x.config with
  | [] => true
  | (_, v) :: _ =>
    v.cancelled || match v.current x.server with
      | none => true
      | some current => !v.turn.probes current

theorem results_eq_nil {x : Execution F} (hid : x.server.id ≠ 0) :
    roundResults x.server x.config x.world = [] ↔ x.stopsBeforeProbe = true := by
  have hmap := results_of_probes (c := x.config) hid (x.world.visits x.config)
  rw [roundResults, ← List.map_eq_nil_iff, hmap, List.map_eq_nil_iff, Execution.stopsBeforeProbe]
  cases x.world.visits x.config with
  | nil => simp [probesSent]
  | cons visit rest =>
    obtain ⟨domain, v⟩ := visit
    simp only [probesSent]
    by_cases hc : v.cancelled = true
    · simp [hc]
    · simp only [hc, Bool.false_eq_true, if_false, Bool.false_or]
      cases v.current x.server with
      | none => simp
      | some current =>
        cases hp : v.turn.probes current with
        | false => simp [hp]
        | true => simp [hp]

omit [GoFloat F] [CaseTables] in
theorem isOffline_eq {results : List (ProbeResult F)} (h : results ≠ []) :
    isOffline results = true ↔ received results = 0 := by
  rw [isOffline, decide_eq_true h, Bool.true_and, received, List.length_eq_zero_iff,
    List.filter_eq_nil_iff, List.all_eq_true]
  simp

theorem execute_ok {s t : Progress F} {x : Execution F} (h : execute s x = .ok t) :
    t.failures = (completed x.server x.config s.failures x.world).failures ∧
      (roundResults x.server x.config x.world = [] ∧ t.db = Runs.run step s.db x.others ∨
        roundResults x.server x.config x.world ≠ [] ∧ saveRound (Runs.run step s.db x.others)
          (finishedRound x.server x.config s.failures x.world) = .ok t.db) := by
  by_cases hne : roundResults x.server x.config x.world = []
  · simp only [execute, runRound, hne, if_true] at h
    injection h with h
    exact ⟨h ▸ rfl, .inl ⟨hne, h ▸ rfl⟩⟩
  · simp only [execute, runRound, hne, if_false] at h
    cases hs : saveRound (Runs.run step s.db x.others)
        (finishedRound x.server x.config s.failures x.world) with
    | error e => simp [hs] at h
    | ok db =>
      simp only [hs] at h
      injection h with h
      exact ⟨h ▸ rfl, .inr ⟨hne, h ▸ rfl⟩⟩

/-- What one execution does: without a probe it forgets the failures and stores nothing,
otherwise the round's outcome is stored and counted. -/
theorem execute_cases {s t : Progress F} {x : Execution F} {serverID : Int}
    (hw : WellFormed s.db) (hx : x.server.id = serverID) (hid : serverID ≠ 0)
    (hcancelled : x.world.cancelled = false)
    (hothers : ∀ e ∈ x.others, keepsSchedule serverID e = true) (h : execute s x = .ok t) :
    WellFormed t.db ∧
      (x.stopsBeforeProbe = true ∧ outcomes serverID t.db = outcomes serverID s.db ∧
          t.failures = 0 ∨
        x.stopsBeforeProbe = false ∧ ∃ o : Outcome, o.finishedAt = x.world.finishedAt ∧
          0 < o.finishedAt ∧ outcomes serverID t.db = outcomes serverID s.db ++ [o] ∧
          t.failures = if o.received = 0 then s.failures + 1 else 0) := by
  have hw₁ := wellFormed_run hw x.others
  have hkept := outcomes_run hw hothers
  have hstops := results_eq_nil (x := x) (hx ▸ hid)
  obtain ⟨hf, hdb⟩ := execute_ok h
  rw [hf]
  simp only [completed, countFailures, hcancelled, Bool.false_eq_true, if_false]
  cases hdb with
  | inl hdb =>
    obtain ⟨hne, hdb⟩ := hdb
    rw [hdb, hne]
    exact ⟨hw₁, .inl ⟨hstops.mp hne, hkept, rfl⟩⟩
  | inr hdb =>
    obtain ⟨hne, hs⟩ := hdb
    refine ⟨wellFormed_saveRound hw₁ hs, .inr ⟨by simpa [hne] using hstops, ?_⟩⟩
    have hsched : isScheduled serverID
        (finishedRound x.server x.config s.failures x.world) = true := by
      simp [isScheduled, finishedRound, hx]
    obtain ⟨_, hpos, _⟩ := saveRound_ok hs
    refine ⟨_, rfl, hpos, hkept ▸ outcomes_saveRound hsched hs, ?_⟩
    exact if_congr (isOffline_eq hne) rfl rfl

def Agrees (serverID : Int) (s : Progress F) : Prop := s.failures = summaryFailures s.db serverID

/-- What is known of the rounds to come: they are of one stored server, run to their end, and
finish after all rounds of it and one after the other. -/
structure Coming (serverID : Int) (s : Progress F) (xs : List (Execution F)) : Prop where
  wellFormed : WellFormed s.db
  server : ∀ x ∈ xs, x.server.id = serverID
  uncancelled : ∀ x ∈ xs, x.world.cancelled = false
  others : ∀ x ∈ xs, ∀ e ∈ x.others, keepsSchedule serverID e = true
  later : ∀ x ∈ xs, ∀ q ∈ outcomes serverID s.db, q.finishedAt < x.world.finishedAt
  increasing : (xs.map (·.world.finishedAt)).Pairwise (· < ·)

theorem coming_step {serverID : Int} (hid : serverID ≠ 0) (s : Progress F) (x : Execution F)
    (xs : List (Execution F)) (t : Progress F) (hc : Coming serverID s (x :: xs))
    (h : execute s x = .ok t) : Coming serverID t xs := by
  have hmem : ∀ y ∈ xs, y ∈ x :: xs := fun y hy => List.mem_cons_of_mem x hy
  have hinc := List.pairwise_cons.mp hc.increasing
  obtain ⟨hw, hcases⟩ := execute_cases hc.wellFormed (hc.server x (by simp)) hid
    (hc.uncancelled x (by simp)) (hc.others x (by simp)) h
  refine ⟨hw, fun y hy => hc.server y (hmem y hy), fun y hy => hc.uncancelled y (hmem y hy),
    fun y hy => hc.others y (hmem y hy), ?_, hinc.2⟩
  intro y hy q hq
  cases hcases with
  | inl hstop => exact hc.later y (hmem y hy) q (hstop.2.1 ▸ hq)
  | inr hrun =>
    obtain ⟨_, o, ho, _, hos, _⟩ := hrun
    rw [hos] at hq
    cases List.mem_append.mp hq with
    | inl hq => exact hc.later y (hmem y hy) q hq
    | inr hq =>
      rw [List.mem_singleton.mp hq, ho]
      exact hinc.1 _ (List.mem_map_of_mem hy)

theorem agrees_step {serverID : Int} (hid : serverID ≠ 0) (s : Progress F) (x : Execution F)
    (xs : List (Execution F)) (t : Progress F) (hc : Coming serverID s (x :: xs))
    (ha : Agrees serverID s) (h : execute s x = .ok t) :
    Agrees serverID t ↔ (x.stopsBeforeProbe = true → summaryFailures s.db serverID = 0) := by
  obtain ⟨hw, hcases⟩ := execute_cases hc.wellFormed (hc.server x (by simp)) hid
    (hc.uncancelled x (by simp)) (hc.others x (by simp)) h
  rw [Agrees, summaryFailures_eq hc.wellFormed, summaryFailures_eq hw]
  rw [Agrees, summaryFailures_eq hc.wellFormed] at ha
  cases hcases with
  | inl hstop =>
    obtain ⟨hstop, hos, hf⟩ := hstop
    rw [hos, hf, hstop]
    simp only [forall_const]
    exact eq_comm
  | inr hrun =>
    obtain ⟨hstop, o, ho, hpos, hos, hf⟩ := hrun
    have hlater : ∀ q ∈ outcomes serverID s.db, q.finishedAt < o.finishedAt := by
      intro q hq
      rw [ho]
      exact hc.later x (by simp) q hq
    rw [hf, hos, streak_append_last hpos hlater, ha, hstop]
    simp only [Bool.false_eq_true, false_imp_iff, iff_true]
    split_ifs
    · push_cast; rfl
    · rfl

/-- The failures a round completes with are those a restart would count, in every run of rounds
of a stored server, exactly if no round ends before its first probe while the stored streak
lasts. -/
theorem failures_agree {s s' : Progress F} {xs : List (Execution F)} {serverID : Int}
    (hdb : Reachable s.db) (hserver : ∃ v ∈ s.db.servers, v.id = serverID)
    (hstart : s.failures = summaryFailures s.db serverID)
    (hxs : ∀ x ∈ xs, x.server.id = serverID ∧ x.world.cancelled = false ∧
      ∀ e ∈ x.others, keepsSchedule serverID e = true)
    (hincreasing : (xs.map (·.world.finishedAt)).Pairwise (· < ·))
    (hlater : ∀ x ∈ xs, ∀ q ∈ formal serverID s.db.rounds, q.finishedAt < x.world.finishedAt)
    (hrun : xs.foldlM execute s = .ok s') :
    Runs.OnTheWay execute (fun t => t.failures = summaryFailures t.db serverID) s xs ↔
      Runs.AtEveryStep execute
        (fun t x => x.stopsBeforeProbe = true → summaryFailures t.db serverID = 0) s xs := by
  have hw := wellFormed_reachable hdb
  obtain ⟨v, hv, hid⟩ := hserver
  have hpos := hw.server_seq v.id (List.mem_map_of_mem hv)
  have hid : serverID ≠ 0 := by omega
  apply Runs.onTheWay_iff_steps (I := Coming serverID) (coming_step hid) (agrees_step hid) ?_
    hstart hrun
  refine ⟨hw, fun x hx => (hxs x hx).1, fun x hx => (hxs x hx).2.1, fun x hx => (hxs x hx).2.2, ?_,
    hincreasing⟩
  intro x hx q hq
  obtain ⟨r, hr, rfl⟩ := List.mem_map.mp hq
  exact hlater x hx r hr

end

section

local instance : CaseTables := asciiTables

def execution (finishedAt : Int) (contextErr : Option ContextError) : Execution ℚ :=
  { others := [], server := storedServer, config := defaultConfig,
    world := { exampleWorld idleStore contextErr with finishedAt, cancelled := false } }

def pausedExecution (finishedAt : Int) : Execution ℚ :=
  { execution finishedAt none with
    world :=
      { exampleWorld idleStore none with
        finishedAt
        visit := fun _ =>
          let v := exampleVisit idleStore none
          { v with turn := { v.turn with slot := .paused } } } }

/-- A round while probing is paused resets the remembered failures, but not the stored ones. -/
theorem paused_round_resets : ∃ s,
    [execution 3000 (some .deadlineExceeded), pausedExecution 4000].foldlM execute
      ⟨idleStore, 0⟩ = .ok s ∧ s.failures = 0 ∧ summaryFailures s.db 1 = 1 := by
  have h : ([execution 3000 (some .deadlineExceeded), pausedExecution 4000].foldlM execute
      ⟨idleStore, 0⟩).map (fun s => (s.failures, summaryFailures s.db 1)) = .ok (0, 1) := by
    decide +kernel
  obtain ⟨s, hs, hv⟩ := map_eq_ok.mp h
  obtain ⟨hf, hsum⟩ := Prod.mk.inj hv
  exact ⟨s, hs, hf, hsum⟩

def fourRounds : List (Execution ℚ) :=
  [execution 3000 (some .deadlineExceeded), execution 4000 (some .deadlineExceeded),
    execution 5000 none, execution 6000 (some .deadlineExceeded)]

theorem failures_agree_four : ∃ s, fourRounds.foldlM execute ⟨idleStore, 0⟩ = .ok s ∧
    s.failures = 1 ∧ Runs.OnTheWay execute (fun t => t.failures = summaryFailures t.db 1)
      ⟨idleStore, 0⟩ fourRounds := by
  have h : (fourRounds.foldlM execute ⟨idleStore, 0⟩).map (·.failures) = .ok 1 := by decide +kernel
  obtain ⟨s, hs, hf⟩ := map_eq_ok.mp h
  refine ⟨s, hs, hf, (failures_agree ⟨emptyLegacy, _, rfl⟩ ⟨storedServer, by decide +kernel⟩
    (by decide +kernel) ?_ (by decide +kernel) (by decide +kernel) hs).mpr ?_⟩
  · intro x hx
    have hall : ∀ x ∈ fourRounds, x.server.id = 1 ∧ x.world.cancelled = false ∧
        x.others.isEmpty = true := by decide +kernel
    obtain ⟨hid, hc, ho⟩ := hall x hx
    refine ⟨hid, hc, ?_⟩
    rw [List.isEmpty_iff.mp ho]
    simp
  · intro fs x gs he t _ hstop
    have hx : x ∈ fourRounds := he ▸ by simp
    have hall : ∀ x ∈ fourRounds, x.stopsBeforeProbe = false := by decide +kernel
    rw [hall x hx] at hstop
    cases hstop

end

end DnsMonitor.Monitor.Backoff

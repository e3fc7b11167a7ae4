import DnsMonitor.Monitor.Round
import DnsMonitor.Store.Streak

namespace DnsMonitor.Monitor.Shutdown

open DnsMonitor.Model DnsMonitor.Lib DnsMonitor.Store.Schema DnsMonitor.Store.Current
open DnsMonitor.Store.Rounds DnsMonitor.Store.Migration DnsMonitor.Store.Run
open DnsMonitor.Store.WellFormed DnsMonitor.Store.Schedule DnsMonitor.Store.Streak
open DnsMonitor.Monitor.Probe DnsMonitor.Monitor.Round
open DnsMonitor.Go.Strings DnsMonitor.Go.Unicode DnsMonitor.Go.Errors DnsMonitor.Go.Float

variable {F : Type} [GoFloat F]

def isUnavailable (db : DB F) (serverID now : Int) : Prop :=
  ∃ server value, findServer db serverID = some server ∧
    evaluateCurrent db server db.config now = .ok value ∧ value.metrics.grade = .unavailable

theorem scoreGrade_ne (score : F) : scoreGrade score ≠ .unavailable := by
  unfold scoreGrade
  split_ifs <;> simp

theorem finish_ne (a : Accumulator F) (window minSamples minCoverageMS : Int)
    (w : RatingWeights F) :
    (finishWithThresholds a window minSamples minCoverageMS w).grade ≠ .unavailable := by
  simp only [finishWithThresholds]
  split_ifs
  · simp
  · simp
  · simp
  · exact scoreGrade_ne _

theorem adjust_unavailable {unreachable : Bool} {server : Server} {config : Config F}
    {a : Accumulator F} {value : CurrentEvaluation F} (h : value.metrics.grade ≠ .unavailable) :
    (adjust unreachable server config a value).metrics.grade = .unavailable ↔
      unreachable = true := by
  unfold adjust
  split_ifs with hu
  · simp [hu]
  all_goals simp [hu, h]

theorem isUnavailable_iff {db : DB F} {serverID now : Int} : isUnavailable db serverID now ↔
    (∃ server, findServer db serverID = some server) ∧ checkThresholds db.config now = .ok () ∧
      unreachableAt now (outcomes serverID db) = true := by
  constructor
  · rintro ⟨server, value, hs, hv, hg⟩
    simp only [evaluateCurrent, bind_eq_ok, pure_eq_ok] at hv
    obtain ⟨_, ht, rfl⟩ := hv
    rw [adjust_unavailable (finish_ne _ _ _ _ _), isUnreachable_eq, (findServer_some hs).2] at hg
    exact ⟨⟨server, hs⟩, ht, hg⟩
  · rintro ⟨⟨server, hs⟩, ht, hu⟩
    have hu : isUnreachable db server.id now = true := by
      rw [isUnreachable_eq, (findServer_some hs).2, hu]
    have hv : ∃ value, evaluateCurrent db server db.config now = .ok value ∧
        value.metrics.grade = .unavailable := by
      simp only [evaluateCurrent, bind_eq_ok, pure_eq_ok, ht, true_and, exists_const,
        exists_eq_left']
      rw [adjust_unavailable (finish_ne _ _ _ _ _), hu]
    obtain ⟨value, hv, hg⟩ := hv
    exact ⟨server, value, hs, hv, hg⟩

/-- Neither the evaluation of a server nor its failures got worse. -/
def Spares (serverID : Int) (db db' : DB F) : Prop :=
  (∀ now, isUnavailable db' serverID now → isUnavailable db serverID now) ∧
    summaryFailures db' serverID ≤ summaryFailures db serverID

section

variable [CaseTables] {db db' : DB F} {server : Server} {c : Config F} {w : World F}

/-- What the lookups of a round write: observations, and rounds outside any schedule. -/
def isLookupWrite : Event F → Bool
  | .saveTrustedObservation _ _ => true
  | .saveRound v => v.auxiliary
  | _ => false

/-- What the context shows, in the order in which the round looks at it. -/
def contextSeen (visits : List (Domain × Visit F)) : List Bool :=
  visits.flatMap fun p => [p.2.cancelled, p.2.turn.cancelled, p.2.turn.run.killed]

def ContextStays (seen : List Bool) : Prop := seen.Pairwise fun a b => a = true → b = true

instance (seen : List Bool) : Decidable (ContextStays seen) :=
  inferInstanceAs (Decidable (seen.Pairwise _))

def firstKilled (server : Server) (c : Config F) (w : World F) : Bool :=
  (roundProbes server c w).head?.any Sent.killed

omit [GoFloat F] [CaseTables] in
theorem contextStays_cons {domain : Domain} {v : Visit F} {rest : List (Domain × Visit F)}
    (h : ContextStays (contextSeen ((domain, v) :: rest))) :
    ContextStays (contextSeen rest) ∧
      (v.turn.run.killed = true → ∀ p ∈ rest, p.2.cancelled = true) := by
  have h : ContextStays ([v.cancelled, v.turn.cancelled, v.turn.run.killed] ++ contextSeen rest) := h
  obtain ⟨_, hrest, hmono⟩ := List.pairwise_append.mp h
  refine ⟨hrest, ?_⟩
  intro hk p hp
  apply hmono v.turn.run.killed (by simp) _ _ hk
  exact List.mem_flatMap.mpr ⟨p, hp, by simp⟩

theorem killed_last {visits : List (Domain × Visit F)} (h : ContextStays (contextSeen visits)) :
    (probesSent c server visits).Pairwise fun p _ => p.killed = false := by
  induction visits generalizing server with
  | nil => exact List.Pairwise.nil
  | cons visit rest ih =>
    obtain ⟨domain, v⟩ := visit
    obtain ⟨hrest, hcancelled⟩ := contextStays_cons h
    simp only [probesSent]
    by_cases hc : v.cancelled = true
    · simp [hc]
    · rw [if_neg hc]
      cases v.current server with
      | none => exact List.Pairwise.nil
      | some current =>
        dsimp only
        split_ifs with hp hgo
        · exact List.Pairwise.nil
        · refine List.pairwise_cons.mpr ⟨?_, ih hrest⟩
          intro q hq
          -- after a killed probe the loop stops before the next domain
          cases hk : v.turn.run.killed with
          | false => exact hk
          | true =>
            cases rest with
            | nil => simp [probesSent] at hq
            | cons next rest =>
              have hstop := hcancelled hk next (by simp)
              simp [probesSent, hstop] at hq
        · exact List.pairwise_singleton _ _

theorem counts_eq (hid : server.id ≠ 0) :
    received (roundResults server c w) =
        ((roundProbes server c w).filter (·.result.received)).length ∧
      successes (roundResults server c w) =
        ((roundProbes server c w).filter (·.result.success)).length := by
  have h := results_of_probes (c := c) hid (w.visits c)
  have hr := congrArg (fun l : List (Bool × Bool) => (l.filter (·.1)).length) h
  have hs := congrArg (fun l : List (Bool × Bool) => (l.filter (·.2)).length) h
  simp only [List.filter_map, List.length_map] at hr hs
  exact ⟨hr, hs⟩

theorem counts_of_probes (hid : server.id ≠ 0) (hctx : ContextStays (contextSeen (w.visits c)))
    (hfinished : ∀ p ∈ roundProbes server c w, p.killed = false → p.result.success = true)
    (hne : roundResults server c w ≠ []) :
    (received (roundResults server c w) = 0 ↔ firstKilled server c w = true) ∧
      (successes (roundResults server c w) = 0 ↔ firstKilled server c w = true) := by
  obtain ⟨hreceived, hsuccess⟩ := counts_eq (c := c) (w := w) hid
  have hlast : (roundProbes server c w).Pairwise fun p _ => p.killed = false := killed_last hctx
  have hmap := results_of_probes (c := c) hid (w.visits c)
  rw [hreceived, hsuccess, firstKilled]
  cases hp : roundProbes server c w with
  | nil =>
    rw [show probesSent c server (w.visits c) = [] from hp, List.map_nil, List.map_eq_nil_iff] at hmap
    exact absurd hmap hne
  | cons p ps =>
    rw [hp] at hlast hfinished
    rw [List.head?_cons, Option.any_some]
    cases hk : p.killed with
    | true =>
      have hps : ps = [] := by
        apply List.eq_nil_iff_forall_not_mem.mpr
        intro q hq
        rw [(List.pairwise_cons.mp hlast).1 q hq] at hk
        cases hk
      obtain ⟨hr, hs⟩ := runDoggo_killed hk p.server p.domain
      simp [hps, Sent.result, hr, hs]
    | false =>
      have hs : p.result.success = true := hfinished p (by simp) hk
      have hr : p.result.received = true := runDoggo_received hs
      simp [hr, hs]

theorem saveRound_evaluates {v : Round F} (hv : v.auxiliary = false)
    (h : saveRound db v = .ok db') : (∃ server, findServer db v.serverID = some server) ∧
      checkThresholds db.config v.finishedAt = .ok () := by
  simp only [saveRound, bind_eq_ok, require_eq_ok, hv, Bool.false_eq_true, if_false] at h
  obtain ⟨_, _, _, hs, _, _, h⟩ := h
  exact ⟨Option.isSome_iff_exists.mp hs, (saveEvaluationSnapshot_ok h).2.1⟩

/-- An evaluation sees a server, the configuration and the outcomes of the server's rounds. -/
structure SameView (serverID : Int) (db db' : DB F) : Prop where
  servers : db'.servers = db.servers
  config : db'.config = db.config
  outcomes : outcomes serverID db' = outcomes serverID db

omit [CaseTables] in
theorem isUnavailable_congr {serverID : Int} (h : SameView serverID db db') (now : Int) :
    isUnavailable db' serverID now ↔ isUnavailable db serverID now := by
  rw [isUnavailable_iff, isUnavailable_iff, h.config, h.outcomes, findServer, findServer, h.servers]

theorem sameView_write {e : Event F} (hw : WellFormed db) (he : isLookupWrite e = true)
    (serverID : Int) : SameView serverID db (step db e) := by
  have hkeep : keepsSchedule serverID e = true := by
    cases e with
    | saveRound v => simp [keepsSchedule, isScheduled, show v.auxiliary = true from he]
    | saveTrustedObservation server result => rfl
    | _ => cases he
  have ho := outcomes_step hw hkeep
  cases h : apply db e with
  | error err => simpa [step, h] using ⟨rfl, rfl, rfl⟩
  | ok db' =>
    rw [step_of_ok h] at ho ⊢
    cases e with
    | saveRound v =>
      obtain ⟨_, _, _, snapshots, rfl⟩ := saveRound_ok h
      exact ⟨rfl, rfl, ho⟩
    | saveTrustedObservation server result =>
      injection h with h
      obtain ⟨rows, hr⟩ := saveTrustedObservation_eq db server result
      rw [← h, hr] at ho ⊢
      exact ⟨rfl, rfl, ho⟩
    | _ => cases he

theorem sameView_writes (hw : WellFormed db) {writes : List (Event F)}
    (he : ∀ e ∈ writes, isLookupWrite e = true) (serverID : Int) :
    WellFormed (Runs.run step db writes) ∧ SameView serverID db (Runs.run step db writes) := by
  apply Runs.run_invariant_of (C := fun e => isLookupWrite e = true)
    (P := fun db' => WellFormed db' ∧ SameView serverID db db') ?_ ⟨hw, rfl, rfl, rfl⟩ he
  intro db₁ e he h
  have hv := sameView_write h.1 he serverID
  exact ⟨wellFormed_run h.1 [e], hv.servers.trans h.2.servers, hv.config.trans h.2.config,
    hv.outcomes.trans h.2.outcomes⟩

theorem spares_saveRound (hw : WellFormed db) {v : Round F} (hv : v.auxiliary = false)
    (h : saveRound db v = .ok db') : Spares v.serverID db db' ↔
      ((outcome (newRound db v)).isFailure = true → isUnavailable db v.serverID v.finishedAt) ∧
        (received v.results = 0 →
          v.finishedAt ≤ lastAnswered (formal v.serverID db.rounds)) := by
  have hsched : isScheduled v.serverID v = true := by simp [isScheduled, hv]
  have hos := outcomes_saveRound hsched h
  have hfresh : ∀ q ∈ outcomes v.serverID db, q.id < (outcome (newRound db v)).id :=
    fun q hq => outcome_fresh hq
  have hw' := wellFormed_saveRound hw h
  obtain ⟨hserver, hthresholds⟩ := saveRound_evaluates hv h
  obtain ⟨_, hpos, _, snapshots, rfl⟩ := saveRound_ok h
  apply and_congr
  · constructor
    · intro hkeep hf
      apply hkeep
      refine isUnavailable_iff.mpr ⟨hserver, hthresholds, ?_⟩
      rw [hos]
      exact (unreachableAt_own hfresh).trans hf
    · intro hf now hu
      obtain ⟨hs, ht, hu⟩ := isUnavailable_iff.mp hu
      rw [hos] at hu
      refine isUnavailable_iff.mpr ⟨hs, ht, ?_⟩
      exact (unreachableAt_append hfresh).mpr (fun h => (isUnavailable_iff.mp (hf h)).2.2) now hu
  · rw [summaryFailures_eq hw', summaryFailures_eq hw, hos, Int.ofNat_le, ← answeredUntil_eq]
    exact streak_append_le hpos

/-- A round in which every probe that was not killed succeeds, whenever the shutdown comes,
leaves the evaluation and the failures as they were, unless the first probe is the one that was
killed, its round is stored, and there was a worse mark to get: the server was not unavailable
already or had answered before the round finished. -/
theorem shutdown_spares (hdb : Reachable db) {writes : List (Event F)}
    (hwrites : ∀ e ∈ writes, isLookupWrite e = true) (previousFailures : Int)
    (hctx : ContextStays (contextSeen (w.visits c)))
    (hfinished : ∀ p ∈ roundProbes server c w, p.killed = false → p.result.success = true) :
    Spares server.id db (runRound (Runs.run step db writes) server c previousFailures w).1 ↔
      (firstKilled server c w = true →
        (saveRound (Runs.run step db writes)
          (finishedRound server c previousFailures w)).isOk = true →
        isUnavailable db server.id w.finishedAt ∧
          w.finishedAt ≤ lastAnswered (formal server.id db.rounds)) := by
  obtain ⟨hw, hview⟩ := sameView_writes (wellFormed_reachable hdb) hwrites server.id
  have hunavailable := isUnavailable_congr hview
  have hfailures : summaryFailures (Runs.run step db writes) server.id =
      summaryFailures db server.id := by
    rw [summaryFailures_eq hw, summaryFailures_eq (wellFormed_reachable hdb), hview.outcomes]
  have hanswered : lastAnswered (formal server.id (Runs.run step db writes).rounds) =
      lastAnswered (formal server.id db.rounds) := by
    rw [← answeredUntil_eq, ← answeredUntil_eq, hview.outcomes]
  have hspares : ∀ db', Spares server.id db db' ↔
      Spares server.id (Runs.run step db writes) db' := by
    intro db'
    simp only [Spares, hunavailable, hfailures]
  rw [hspares, ← hunavailable, ← hanswered]
  cases hs : saveRound (Runs.run step db writes) (finishedRound server c previousFailures w) with
  | error e =>
    have hr : (runRound (Runs.run step db writes) server c previousFailures w).1 =
        Runs.run step db writes := by
      simp [runRound, hs, apply_ite Prod.fst]
    rw [hr]
    simp [Spares, Except.isOk, Except.toBool]
  | ok db' =>
    obtain ⟨hid, _⟩ := saveRound_ok hs
    have hid : server.id ≠ 0 := Int.ne_of_gt hid
    by_cases hne : roundResults server c w = []
    · -- nothing is stored, and no probe was run
      have hr : (runRound (Runs.run step db writes) server c previousFailures w).1 =
          Runs.run step db writes := by
        simp [runRound, hne]
      have hk : firstKilled server c w = false := by
        have hmap := results_of_probes (c := c) hid (w.visits c)
        rw [show probeDomains c server (w.visits c) = [] from hne, List.map_nil, eq_comm,
          List.map_eq_nil_iff] at hmap
        rw [firstKilled, roundProbes, hmap]
        rfl
      rw [hr, hk]
      simp [Spares]
    · have hr : (runRound (Runs.run step db writes) server c previousFailures w).1 = db' := by
        simp [runRound, hne, hs]
      obtain ⟨hreceived, hsuccess⟩ := counts_of_probes hid hctx hfinished hne
      have hfail : (outcome (newRound (Runs.run step db writes)
          (finishedRound server c previousFailures w))).isFailure = true ↔
            firstKilled server c w = true := by
        rw [← hsuccess]
        change (decide (0 < (roundResults server c w).length) &&
          decide (successes (roundResults server c w) = 0)) = true ↔ _
        rw [decide_eq_true (List.length_pos_iff.mpr hne), Bool.true_and, decide_eq_true_iff]
      rw [hr]
      refine (spares_saveRound hw rfl hs).trans ?_
      rw [hfail]
      change _ ∧ (received (roundResults server c w) = 0 → _) ↔ _
      rw [hreceived]
      simp only [Except.isOk, Except.toBool, forall_const]
      exact forall_and.symm

end

section

local instance : CaseTables := asciiTables

def answeredServer : DB ℚ :=
  Runs.run step (openStore emptyLegacy)
    [.saveServer 900 exampleServer, .saveRound (exampleRound 1000 [exampleResult true (str "clean")])]

def killedWorld : World ℚ := exampleWorld answeredServer (some .canceled)

/-- The killed probe of a round makes a server unavailable that had answered its last one. -/
theorem killed_probe_blamed :
    (∀ p ∈ roundProbes storedServer defaultConfig killedWorld,
      p.killed = false → p.result.success = true) ∧
    ContextStays (contextSeen (killedWorld.visits defaultConfig)) ∧
    ¬ isUnavailable answeredServer 1 2010 ∧ summaryFailures answeredServer 1 = 0 ∧
    isUnavailable (runRound answeredServer storedServer defaultConfig 0 killedWorld).1 1 2010 ∧
    summaryFailures (runRound answeredServer storedServer defaultConfig 0 killedWorld).1 1 = 1 := by
  refine ⟨by decide +kernel, by decide +kernel, ?_, by decide +kernel, ?_, by decide +kernel⟩
  · intro h
    have hu := (isUnavailable_iff.mp h).2.2
    exact absurd hu (by decide +kernel)
  · refine isUnavailable_iff.mpr ⟨⟨storedServer, by decide +kernel⟩, by decide +kernel, ?_⟩
    decide +kernel

def twoDomains : Config ℚ :=
  { defaultConfig with domains := [⟨str "www.youtube.com", str "A"⟩, ⟨str "example.com", str "A"⟩] }

def secondKilled : World ℚ :=
  { killedWorld with
    visit := fun i => exampleVisit answeredServer (if i = 0 then none else some .canceled) }

theorem second_probe_spared : firstKilled storedServer twoDomains secondKilled = false ∧
    Spares 1 answeredServer
      (runRound (Runs.run step answeredServer []) storedServer twoDomains 0 secondKilled).1 := by
  have hfirst : firstKilled storedServer twoDomains secondKilled = false := by decide +kernel
  have hdb : Reachable answeredServer := ⟨emptyLegacy, _, rfl⟩
  refine ⟨hfirst, ?_⟩
  change Spares storedServer.id _ _
  apply (shutdown_spares hdb (by simp) 0 (by decide +kernel) (by decide +kernel)).mpr
  intro hk
  rw [hfirst] at hk
  cases hk

end

end DnsMonitor.Monitor.Shutdown

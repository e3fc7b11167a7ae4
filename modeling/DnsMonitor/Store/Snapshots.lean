import DnsMonitor.Store.Coverage
import DnsMonitor.Store.View

namespace DnsMonitor.Store.Snapshots

open DnsMonitor.Model DnsMonitor.Lib.Tables DnsMonitor.Lib.Timeline
open DnsMonitor.Store.Schema DnsMonitor.Store.Current DnsMonitor.Store.Rounds
open DnsMonitor.Store.Migration DnsMonitor.Store.Run DnsMonitor.Store.WellFormed
open DnsMonitor.Store.Schedule DnsMonitor.Store.Coverage DnsMonitor.Store.View
open DnsMonitor.Go.Strings DnsMonitor.Go.Unicode DnsMonitor.Go.Errors DnsMonitor.Go.Float

section

variable {F : Type} {db : DB F} {serverID now : Int}

/-- Where the round that follows comes after the time as well, its end is not seen there. -/
theorem seen_truncated (ht : Timeline serverID db) {p : RoundRow F}
    (hp : p ∈ formal serverID db.rounds) {finishedAt : Int} (hnow : now < finishedAt)
    (hnext : ∀ r ∈ formal serverID db.rounds, timeKey p < timeKey r → finishedAt < r.finishedAt) :
    seen id now { p with coveredUntil := min p.nextDue finishedAt } = seen id now p := by
  have hcov : min (min p.nextDue finishedAt) now = min p.coveredUntil now := by
    rw [ht p hp, coveredTo]
    cases hn : next timeKey p (formal serverID db.rounds) with
    | none =>
      dsimp only
      omega
    | some r =>
      obtain ⟨hr, hlt, _⟩ := next_eq_some hn
      have hlate := hnext r hr hlt
      dsimp only
      omega
  simp only [seen, hcov]

end

section

variable {F : Type} [GoFloat F] [CaseTables] {db db' : DB F} {v : Round F} {serverID now : Int}

theorem past_insertRound (hw : WellFormed db) (ht : Timeline serverID db)
    (hv : now < v.finishedAt) :
    (past serverID now (insertRound db v)).map (seen id now) =
      (past serverID now db).map (seen id now) := by
  cases h : isScheduled serverID v with
  | false => rw [past, formal_insertRound_other hw h, past]
  | true =>
    have hnew : [newRound db v].filter (·.finishedAt ≤ now) = [] := by
      apply filter_none
      intro r hr
      rw [List.mem_singleton.mp hr]
      exact decide_eq_false (not_le.mpr hv)
    rw [past, formal_insertRound h]
    cases hp : latest timeKey ((formal serverID db.rounds).filter
        (·.finishedAt ≤ v.finishedAt)) with
    | none =>
      dsimp only
      rw [List.filter_append, hnew, List.append_nil, past]
    | some p =>
      obtain ⟨hpm, hmax⟩ := latest_eq_some hp
      obtain ⟨hpm, hple⟩ := List.mem_filter.mp hpm
      have hnext : ∀ r ∈ formal serverID db.rounds, timeKey p < timeKey r →
          v.finishedAt < r.finishedAt := by
        intro r hr hlt
        by_contra hle
        have hmem : r ∈ (formal serverID db.rounds).filter (·.finishedAt ≤ v.finishedAt) :=
          List.mem_filter.mpr ⟨hr, by simpa using hle⟩
        exact absurd (hmax r hmem) (not_le.mpr hlt)
      dsimp only
      rw [truncate, filter_update fun _ => by rfl, List.filter_append, hnew, List.append_nil,
        past, update, List.map_map]
      apply List.map_congr_left
      intro q hq
      have hqm := (List.mem_filter.mp hq).1
      by_cases hid : q.id = p.id
      · obtain rfl : q = p := List.inj_on_of_nodup_map (formal_ids hw serverID) hqm hpm hid
        simpa using seen_truncated ht hpm hv hnext
      · simp [hid]

theorem sameView_insertRound (hw : WellFormed db) (ht : Timeline serverID db)
    (hv : now < v.finishedAt) : SameView id serverID now db (insertRound db v) where
  rounds := past_insertRound hw ht hv
  ids _ _ _ _ := Iff.rfl
  buckets q hq := by
    have hlt := newRoundID_fresh (mem_formal.mp ((past_sublist _ _ _).subset hq)).1
    have hne : q.id ≠ newRoundID db := by omega
    exact congrArg _ (buckets_insertRound_other v hne)
  judged q hq := by
    have hlt := newRoundID_fresh (mem_formal.mp ((past_sublist _ _ _).subset hq)).1
    congr 1
    simp only [judged, insertRound, List.filter_append, id]
    rw [@filter_none _ _ (newResults db v), List.append_nil]
    intro r hr
    obtain ⟨_, _, _, rfl⟩ := mem_resultRows hr
    have hne : newRoundID db ≠ q.id := by omega
    simp [resultRow, hne]

/-- Saves at distinct times lead to a state in which the evaluation at a time does not depend on
any round that finishes after it, saved or not. -/
theorem evaluation_before_round (hdb : Reachable db)
    (hnone : ∀ serverID, formal serverID db.rounds = []) {vs : List (Round F)}
    (hs : vs.foldlM saveRound db = .ok db') (hd : ∀ serverID, (times serverID vs).Nodup)
    {r : Round F} (hr : now < r.finishedAt) (server : Server) (config : Config F) :
    evaluateCurrent (step db' (.saveRound r)) server config now =
      evaluateCurrent db' server config now := by
  obtain ⟨hw, ht, _, _⟩ := saves_at_distinct_times (wellFormed_reachable hdb) (hnone server.id) hs
    (hd server.id)
  cases ha : apply db' (.saveRound r) with
  | error e => rw [step, ha]
  | ok db₁ =>
    obtain ⟨_, _, _, snapshots, rfl⟩ := saveRound_ok ha
    rw [step_of_ok ha]
    exact (sameView_insertRound hw ht hr).evaluateCurrent_eq config

end

section

local instance : CaseTables := asciiTables

theorem evaluation_before_middle : ∃ db,
    [exampleRound 3000 [], exampleRound 1000 []].foldlM saveRound idleServer = .ok db ∧
      evaluateCurrent (step db (.saveRound (exampleRound 2000 [exampleResult true (str "clean")])))
        { exampleServer with id := 1 } defaultConfig 1500 =
          evaluateCurrent db { exampleServer with id := 1 } defaultConfig 1500 := by
  have h : ([exampleRound 3000 [], exampleRound 1000 []].foldlM saveRound idleServer).map
      (fun db => db.rounds.length) = .ok 2 := by decide +kernel
  obtain ⟨db, hs, _⟩ := map_eq_ok.mp h
  have hdb : Reachable idleServer := ⟨emptyLegacy, [.saveServer 900 exampleServer], rfl⟩
  have hrounds : idleServer.rounds = [] := by decide +kernel
  have hnone : ∀ serverID, formal serverID idleServer.rounds = [] := by
    intro serverID
    rw [hrounds]
    rfl
  have hd : ∀ serverID, (times serverID [exampleRound 3000 [], exampleRound 1000 []]).Nodup := by
    intro serverID
    have hsub : (times serverID [exampleRound 3000 [], exampleRound 1000 []]).Sublist
        [3000, 1000] := List.filter_sublist.map _
    exact List.Nodup.sublist hsub (by decide)
  exact ⟨db, hs, evaluation_before_round hdb hnone hs hd
    (r := exampleRound 2000 [exampleResult true (str "clean")]) (by decide)
    { exampleServer with id := 1 } defaultConfig⟩

end

end DnsMonitor.Store.Snapshots

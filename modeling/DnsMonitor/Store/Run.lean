import DnsMonitor.Lib.Runs
import DnsMonitor.Store.Cleanup
import DnsMonitor.Store.Migration
import DnsMonitor.Store.References
import DnsMonitor.Store.Servers

namespace DnsMonitor.Store.Run

open DnsMonitor.Model DnsMonitor.Lib DnsMonitor.Lib.Tables DnsMonitor.Store.Schema
open DnsMonitor.Store.Current DnsMonitor.Store.Rounds DnsMonitor.Store.Override
open DnsMonitor.Store.Cleanup DnsMonitor.Store.Servers DnsMonitor.Store.References
open DnsMonitor.Store.Migration
open DnsMonitor.Go.Strings DnsMonitor.Go.Unicode DnsMonitor.Go.Errors DnsMonitor.Go.Float

/-- A call of a method of the store that writes, with the time it reads from the clock. -/
inductive Event (F : Type) where
  | saveConfig (config : Config F)
  | saveServer (now : Int) (server : Server)
  | deleteServer (id : Int)
  | importServers (now : Int) (snapshot : List Server) (items : List ServerImportItem)
  | saveRound (round : Round F)
  | saveOverride (now : Int) (override : Override)
  | saveTrustedObservation (server : Server) (result : ProbeResult F)
  | pruneTrustedReferences (now : Int) (historyHours : F)
  | cleanup (before : Int) (transaction : CleanupStep)

section

variable {F : Type} [GoFloat F]

def saveConfig (db : DB F) (c : Config F) : Except StoreError (DB F) := do
  require (isFinite c.maxBackoffHours ∧ isFinite c.referenceHistoryHours ∧
    isFinite c.ratingWAvail ∧ isFinite c.ratingWSuccess ∧ isFinite c.ratingWLatency) .json
  return { db with config := c }

variable [CaseTables]

def apply (db : DB F) : Event F → Except StoreError (DB F)
  | .saveConfig c => saveConfig db c
  | .saveServer now v => saveServer db now v
  | .deleteServer id => deleteServer db id
  | .importServers now snapshot items => (importServers db now snapshot items).map (·.1)
  | .saveRound v => saveRound db v
  | .saveOverride now v => saveOverride db now v
  | .saveTrustedObservation server result => .ok (saveTrustedObservation db server result)
  | .pruneTrustedReferences now hours => .ok (pruneTrustedReferences now hours db)
  | .cleanup before t => cleanup before t db

/-- A transaction that fails is rolled back. -/
def step (db : DB F) (e : Event F) : DB F :=
  match apply db e with
  | .ok db' => db'
  | .error _ => db

theorem step_of_ok {db db' : DB F} {e : Event F} (h : apply db e = .ok db') : step db e = db' := by
  simp [step, h]

theorem step_invariant {P : DB F → Prop}
    (h : ∀ db db' e, P db → apply db e = .ok db' → P db') (db : DB F) (e : Event F) (hp : P db) :
    P (step db e) := by
  cases ha : apply db e with
  | error err => simpa [step, ha] using hp
  | ok db' => simpa [step, ha] using h db db' e hp ha

/-- The databases the program can reach from a fresh or a legacy one. -/
def Reachable (db : DB F) : Prop :=
  ∃ (legacy : Legacy F) (es : List (Event F)), db = Runs.run step (openStore legacy) es

end

section

variable {F : Type}

theorem saveServer_ok {db db' : DB F} {now : Int} {v : Server} (h : saveServer db now v = .ok db') :
    v.id = 0 ∧ db' = insertServer db now v ∨
      (∃ s ∈ db.servers, s.id = v.id) ∧ v.id ≠ 0 ∧ db' = updateServer db v := by
  unfold saveServer at h
  by_cases hv : v.id = 0
  · rw [if_pos hv] at h
    injection h with h
    exact .inl ⟨hv, h.symm⟩
  · rw [if_neg hv] at h
    cases hs : findServer db v.id with
    | none => simp [hs] at h
    | some s =>
      simp only [hs] at h
      injection h with h
      exact .inr ⟨⟨s, findServer_some hs⟩, hv, h.symm⟩

theorem deleteServer_ok {db db' : DB F} {id : Int} (h : deleteServer db id = .ok db') :
    db' = deleteServerRows id db := by
  unfold deleteServer at h
  cases hs : findServer db id with
  | none => simp [hs] at h
  | some s =>
    simp only [hs] at h
    injection h with h
    exact h.symm

theorem importItem_ok {now : Int} {s s' : ImportState F} {item : ServerImportItem}
    (h : importItem now s item = .ok s') :
    s'.db = s.db ∧ s'.result = { s.result with skipped := s.result.skipped + 1 } ∨
      (∃ v, s'.db = insertServer s.db now v ∧
        s'.result = { s.result with created := s.result.created + 1 }) ∨
      ∃ v, s'.db = updateServer s.db v ∧
        s'.result = { s.result with updated := s.result.updated + 1 } := by
  unfold importItem at h
  split_ifs at h
  · injection h with h
    exact .inl (h ▸ ⟨rfl, rfl⟩)
  · simp only [createItem, bind_eq_ok, pure_eq_ok] at h
    obtain ⟨_, _, _, _, rfl⟩ := h
    exact .inr (.inl ⟨_, rfl, rfl⟩)
  · unfold overwriteItem at h
    dsimp only at h
    split at h
    · cases h
    · simp only [bind_eq_ok, pure_eq_ok] at h
      obtain ⟨_, _, _, _, rfl⟩ := h
      exact .inr (.inr ⟨_, rfl, rfl⟩)

theorem importItem_invariant {P : DB F → Prop}
    (hinsert : ∀ db now v, P db → P (insertServer db now v))
    (hupdate : ∀ db v, P db → P (updateServer db v)) {now : Int} {s s' : ImportState F}
    {item : ServerImportItem} (hp : P s.db) (h : importItem now s item = .ok s') : P s'.db := by
  obtain ⟨hdb, -⟩ | ⟨v, hdb, -⟩ | ⟨v, hdb, -⟩ := importItem_ok h <;> rw [hdb]
  · exact hp
  · exact hinsert _ _ _ hp
  · exact hupdate _ _ hp

theorem importServers_invariant {P : DB F → Prop}
    (hinsert : ∀ db now v, P db → P (insertServer db now v))
    (hupdate : ∀ db v, P db → P (updateServer db v)) {db : DB F} {now : Int}
    {snapshot : List Server} {items : List ServerImportItem} {r : DB F × ServerImportResult}
    (hp : P db) (h : importServers db now snapshot items = .ok r) : P r.1 := by
  simp only [importServers, bind_eq_ok, pure_eq_ok] at h
  obtain ⟨_, _, _, _, s, hs, h⟩ := h
  rw [← h]
  exact foldlM_invariant (P := fun s : ImportState F => P s.db)
    (fun _ _ _ hp h => importItem_invariant hinsert hupdate hp h) (by exact hp) hs

theorem saveTrustedObservation_eq [CaseTables] (db : DB F) (server : Server)
    (result : ProbeResult F) :
    ∃ rows, saveTrustedObservation db server result = { db with trustedObservations := rows } := by
  unfold saveTrustedObservation
  dsimp only
  split_ifs
  · exact ⟨_, rfl⟩
  · split
    · exact ⟨_, rfl⟩
    · split_ifs
      · exact ⟨_, rfl⟩
      · exact ⟨_, rfl⟩

theorem saveTrustedObservation_commutes [CaseTables] {g : DB F → DB F}
    (hservers : ∀ db, (g db).servers = db.servers)
    (hrows : ∀ db, (g db).trustedObservations = db.trustedObservations)
    (hset : ∀ db rows, g { db with trustedObservations := rows } =
      { g db with trustedObservations := rows }) (db : DB F) (server : Server)
    (result : ProbeResult F) :
    g (saveTrustedObservation db server result) = saveTrustedObservation (g db) server result := by
  have hf : findServer (g db) server.id = findServer db server.id := by
    rw [findServer, hservers, findServer]
  unfold saveTrustedObservation
  dsimp only
  rw [hf, hrows]
  split_ifs
  · rfl
  · split
    · rfl
    · split_ifs
      · exact hset db _
      · rfl

theorem saveOverride_ok [CaseTables] {db db' : DB F} {now : Int} {v : Override}
    (h : saveOverride db now v = .ok db') :
    (v.verdict = str "auto" ∨ v.verdict = str "clean" ∨ v.verdict = str "polluted") ∧
      db' = putOverride db (normalizeOverride now v) := by
  simp only [saveOverride, bind_eq_ok, require_eq_ok, pure_eq_ok] at h
  obtain ⟨_, hv, _, _, _, _, _, _, h⟩ := h
  exact ⟨by tauto, h.symm⟩

variable [GoFloat F]

theorem saveConfig_ok {db db' : DB F} {c : Config F} (h : saveConfig db c = .ok db') :
    db' = { db with config := c } := by
  simp only [saveConfig, bind_eq_ok, pure_eq_ok] at h
  obtain ⟨_, _, h⟩ := h
  exact h.symm

theorem saveEvaluationSnapshot_ok {db db' : DB F} {serverID roundID at' : Int}
    (h : saveEvaluationSnapshot db serverID roundID at' = .ok db') :
    (∃ server, findServer db serverID = some server) ∧
      checkThresholds db.config at' = .ok () ∧ ∃ row, row.roundID = roundID ∧
        db' = { db with evaluationSnapshots := db.evaluationSnapshots ++ [row] } := by
  unfold saveEvaluationSnapshot at h
  cases hs : findServer db serverID with
  | none => simp [hs] at h
  | some server =>
    simp only [hs, evaluateCurrent, bind_eq_ok, pure_eq_ok] at h
    obtain ⟨_, ⟨_, hthresholds, _⟩, _, _, h⟩ := h
    exact ⟨⟨server, rfl⟩, hthresholds, _, rfl, h.symm⟩

theorem saveTrustedObservation_ok [CaseTables] {db db' : DB F} {server : Server}
    {result : ProbeResult F} (h : apply db (.saveTrustedObservation server result) = .ok db') :
    ∃ rows, db' = { db with trustedObservations := rows } := by
  injection h with h
  obtain ⟨rows, he⟩ := saveTrustedObservation_eq db server result
  exact ⟨rows, h.symm.trans he⟩

theorem pruneTrustedReferences_ok [CaseTables] {db db' : DB F} {now : Int} {hours : F}
    (h : apply db (.pruneTrustedReferences now hours) = .ok db') :
    ∃ rows, db' = { db with trustedObservations := rows } := by
  injection h with h
  exact ⟨_, h.symm⟩

/-- A saved round is inserted, and a scheduled one gets a snapshot. -/
theorem saveRound_ok [CaseTables] {db db' : DB F} {v : Round F} (h : saveRound db v = .ok db') :
    0 < v.serverID ∧ 0 < v.finishedAt ∧ v.finishedAt < v.nextDue ∧
      ∃ snapshots, db' = { insertRound db v with evaluationSnapshots := snapshots } := by
  simp only [saveRound, checkRound, bind_eq_ok, require_eq_ok] at h
  obtain ⟨_, hc, _, _, _, _, h⟩ := h
  refine ⟨by omega, by omega, by omega, ?_⟩
  by_cases ha : v.auxiliary = true
  · rw [if_pos ha, pure_eq_ok] at h
    exact ⟨_, h.symm⟩
  · rw [if_neg ha] at h
    obtain ⟨-, -, row, -, h⟩ := saveEvaluationSnapshot_ok h
    exact ⟨_, h⟩

end

def exampleServer : Server :=
  { trustEpoch := 0, id := 0, name := str "home", provider := [], address := str "udp://1.1.1.1:53",
    protocol := .udp, enabled := true, trusted := false, notes := [], createdAt := 0 }

def exampleResult (received : Bool) (pollution : GoString) : ProbeResult ℚ :=
  { comparedAt := 0, records := [], policyVersion := 2, trusted := false, serverID := 1,
    timestamp := 0, domain := str "Example.com.", type := str "a", received,
    success := received, latencyMS := 12, rcode := str "NOERROR", answers := [str "1.2.3.4"],
    pollution, reason := [], references := [] }

def exampleRound (finishedAt : Int) (results : List (ProbeResult ℚ)) : Round ℚ :=
  { auxiliary := false, serverID := 1, startedAt := finishedAt, finishedAt,
    nextDue := finishedAt + 300000, results }

end DnsMonitor.Store.Run

import DnsMonitor.Store.Answers

namespace DnsMonitor.Store.Auxiliary

open DnsMonitor.Model DnsMonitor.Lib DnsMonitor.Lib.Tables DnsMonitor.Lib.Batches
open DnsMonitor.Store.Schema DnsMonitor.Store.Rounds DnsMonitor.Store.Cleanup
open DnsMonitor.Store.Migration DnsMonitor.Store.Run DnsMonitor.Store.WellFormed
open DnsMonitor.Store.Retained DnsMonitor.Store.Partial DnsMonitor.Store.Retention
open DnsMonitor.Store.StatusHistory DnsMonitor.Store.Summary DnsMonitor.Store.History
open DnsMonitor.Store.Owners DnsMonitor.Store.Hidden DnsMonitor.Store.Answers
open DnsMonitor.Go.Strings DnsMonitor.Go.Unicode DnsMonitor.Go.Errors DnsMonitor.Go.Float

section

variable {F : Type}

/-- A whole call: `Cleanup` is one too, with all of its transactions. -/
inductive Call (F : Type) where
  | event (e : Event F) (whole : ∀ before t, e ≠ .cleanup before t)
  | cleanup (before : Int)

def Call.saveRound (v : Round F) : Call F := .event (.saveRound v) fun _ _ => by simp

variable [GoFloat F]

def Ends (o : Orders) (before : Int) (db db' : DB F) : Prop :=
  ∃ bound, ∀ passes, bound < passes → cleanupAll o passes before db = some (.ok db')

variable [CaseTables]

inductive Performs : DB F → Call F → DB F → Prop where
  | event (db : DB F) (e : Event F) (whole : ∀ before t, e ≠ .cleanup before t) :
      Performs db (.event e whole) (step db e)
  | cleanup (o : Orders) (before : Int) {db db' : DB F} (h : Ends o before db db') :
      Performs db (.cleanup before) db'

inductive PerformsAll : DB F → List (Call F) → DB F → Prop where
  | nil (db : DB F) : PerformsAll db [] db
  | cons {db db₁ db' : DB F} {c : Call F} {cs : List (Call F)} (h : Performs db c db₁)
      (hs : PerformsAll db₁ cs db') : PerformsAll db (c :: cs) db'

/-- The second list has the calls of the first and some that save auxiliary rounds. -/
inductive WithAuxiliary : List (Call F) → List (Call F) → Prop where
  | nil : WithAuxiliary [] []
  | both (c : Call F) {cs ds : List (Call F)} (h : WithAuxiliary cs ds) :
      WithAuxiliary (c :: cs) (c :: ds)
  | extra {v : Round F} (hv : v.auxiliary = true) {cs ds : List (Call F)}
      (h : WithAuxiliary cs ds) : WithAuxiliary cs (.saveRound v :: ds)

/-- Every question about the monitoring is answered alike. -/
structure SameAnswers (a b : DB F) : Prop where
  summary : ∀ since now, summary b since now = summary a since now
  history : ∀ serverID since now stepMS,
    history b serverID since now stepMS = history a serverID since now stepMS
  current : ∀ serverID now, currentEvaluation b serverID now = currentEvaluation a serverID now
  status : ∀ serverID since now includeLatest,
    statusHistory b serverID since now includeLatest =
      statusHistory a serverID since now includeLatest

end

section

variable {F : Type} [GoFloat F] {f : Int → Int} {a b a' b' : DB F}

theorem cleanupAll_invariant {P : DB F → Prop} {before : Int}
    (hP : ∀ t db db', P db → cleanup before t db = .ok db' → P db') {o : Orders} {passes : Nat}
    {db db' : DB F} (hdb : P db) (h : cleanupAll o passes before db = some (.ok db')) : P db' := by
  rw [cleanupAll] at h
  obtain ⟨db₁, h₁, h⟩ := bind_eq_some_ok.mp h
  obtain ⟨db₂, h₂, h⟩ := bind_eq_some_ok.mp h
  obtain ⟨db₃, h₃, h⟩ := bind_eq_some_ok.mp h
  have hp₁ : P db₁ := drain_invariant (fun s batch s' => hP (.pruneReferences batch) s s')
    (hP .pruneObservations _ _ hdb rfl) h₁
  have hp₂ : P db₂ := drain_invariant (fun s batch s' => hP (.dropRounds batch) s s') hp₁ h₂
  have hp₃ : P db₃ := drain_invariant (fun s batch s' => hP (.pruneResults batch) s s') hp₂ h₃
  exact drain_invariant (fun s batch s' => hP (.dropAudit batch) s s') hp₃ h

theorem tidy_ends [CaseTables] {o : Orders} {before : Int} (ta : Tidy a)
    (h : Ends o before a a') : Tidy a' := by
  obtain ⟨bound, hend⟩ := h
  exact cleanupAll_invariant (fun t _ _ ht hok => tidy_apply (e := .cleanup before t) ht hok) ta
    (hend (bound + 1) (by omega))

theorem ends_settled {o : Orders} {before : Int} (ta : Tidy a) (h : Ends o before a a') :
    ∃ settled, Settled before (pruned before a) settled ∧
      a' = { settled with overrideAudit := delete (·.timestamp < before) a.overrideAudit } := by
  obtain ⟨settled, hsettled, bound', hend'⟩ := cleanupAll_ends o ta.wellFormed ta.decode before
  obtain ⟨bound, hend⟩ := h
  have he := (hend (bound + bound' + 1) (by omega)).symm.trans
    (hend' (bound + bound' + 1) (by omega))
  injection he with he
  injection he with he
  exact ⟨settled, hsettled, he⟩

theorem sameSchedule_ends (h : SameSchedule f a b) (ta : Tidy a) (tb : Tidy b) {o o' : Orders}
    {before : Int} (ha : Ends o before a a') (hb : Ends o' before b b') :
    SameSchedule f a' b' := by
  obtain ⟨settled, hs, rfl⟩ := ends_settled ta ha
  obtain ⟨settled', hs', rfl⟩ := ends_settled tb hb
  have hpruned : SameSchedule f (pruned before a) (pruned before b) :=
    sameSchedule_deleteRounds (sameSchedule_prune h before)
      (wellFormed_prunedResults ta.wellFormed before)
      (wellFormed_prunedResults tb.wellFormed before)
      (ta.origins.same rfl (List.Subset.refl _) (List.Subset.refl _)) fun _ => rfl
  have hprune : Origins { pruneObservations before a with
      results := update (isOld before) (prunedResult before) a.results } :=
    ta.origins.same rfl (List.Subset.refl _) (List.Subset.refl _)
  have ho : Origins (pruned before a) := origins_deleteRounds hprune _
  have hsame := sameSchedule_settled hpruned ho hs hs'
  refine ⟨?_, hsame.schedule, hsame.ids, hsame.snapshots⟩
  have hothers := hsame.others
  have haudit : b.overrideAudit = a.overrideAudit := congrArg (·.2.2.2.2.1) h.others
  simp only [rest, Prod.mk.injEq] at hothers ⊢
  rw [haudit]
  tauto

variable [CaseTables]

theorem tidy_performs {c : Call F} (ta : Tidy a) (h : Performs a c a') : Tidy a' := by
  cases h with
  | event db e whole =>
    exact step_invariant (fun _ _ _ ht hok => tidy_apply ht hok) a e ta
  | cleanup o before h => exact tidy_ends ta h

theorem sameSchedule_performs {c : Call F} (h : SameSchedule f a b) (ta : Tidy a) (tb : Tidy b)
    (ha : Performs a c a') (hb : Performs b c b') : ∃ f', SameSchedule f' a' b' := by
  cases ha with
  | event db e whole =>
    cases hb
    exact sameSchedule_step h ta tb whole
  | cleanup o before ha =>
    cases hb with
    | cleanup o' before hb => exact ⟨f, sameSchedule_ends h ta tb ha hb⟩

theorem sameSchedule_extra {v : Round F} (hv : v.auxiliary = true) (h : SameSchedule f a b)
    (hb : Performs b (.saveRound v) b') : SameSchedule f a b' := by
  cases hb
  cases hok : apply b (.saveRound v) with
  | error e => simpa only [step, hok] using h
  | ok b₁ =>
    have hsave : saveRound b v = .ok b₁ := hok
    simp only [saveRound, hv, if_true, bind_eq_ok, pure_eq_ok] at hsave
    obtain ⟨_, _, _, _, _, _, hb₁⟩ := hsave
    rw [step_of_ok hok, ← hb₁]
    exact h.extra hv

theorem sameSchedule_run {cs ds : List (Call F)} (hc : WithAuxiliary cs ds)
    (h : SameSchedule f a b) (ta : Tidy a) (tb : Tidy b) (ha : PerformsAll a cs a')
    (hb : PerformsAll b ds b') : (∃ f', SameSchedule f' a' b') ∧ Tidy a' := by
  induction hc generalizing f a b with
  | nil =>
    cases ha
    cases hb
    exact ⟨⟨f, h⟩, ta⟩
  | both c _ ih =>
    cases ha with
    | cons ha₁ ha =>
      cases hb with
      | cons hb₁ hb =>
        obtain ⟨f₁, h₁⟩ := sameSchedule_performs h ta tb ha₁ hb₁
        exact ih h₁ (tidy_performs ta ha₁) (tidy_performs tb hb₁) ha hb
  | extra hv _ ih =>
    cases hb with
    | cons hb₁ hb => exact ih (sameSchedule_extra hv h hb₁) ta (tidy_performs tb hb₁) ha hb

/-- Rounds of reference lookups never show in what is asked about the monitoring: a run with more
of them ends in the same answers. -/
theorem auxiliary_unseen (legacy : Legacy F) (hl : Tidy legacy.db) {cs ds : List (Call F)}
    (hc : WithAuxiliary cs ds) (ha : PerformsAll (openStore legacy) cs a)
    (hb : PerformsAll (openStore legacy) ds b) : SameAnswers a b := by
  have ht : Tidy (openStore legacy) := tidy_migrate hl
  obtain ⟨⟨f, h⟩, ta⟩ := sameSchedule_run hc (sameSchedule_refl _) ht ht ha hb
  exact ⟨summary_eq h ta.origins, history_eq h, currentEvaluation_eq h,
    statusHistory_eq h ta.origins⟩

theorem performs_cleanup (ta : Tidy a) (before : Int) :
    ∃ a', Performs a (.cleanup before) a' := by
  obtain ⟨settled, _, hend⟩ := cleanupAll_ends ⟨.table, .table, .table, .table⟩ ta.wellFormed
    ta.decode before
  exact ⟨_, .cleanup _ _ hend⟩

omit [CaseTables] in
theorem tidy_empty : Tidy (emptyLegacy (F := F)).db where
  wellFormed := emptyLegacy.wellFormed
  decode _ hr := absurd hr List.not_mem_nil
  origins := ⟨fun _ hb => absurd hb List.not_mem_nil, fun _ hs => absurd hs List.not_mem_nil⟩

end

section

local instance : CaseTables := asciiTables

def addServer : Call ℚ := .event (.saveServer 900 exampleServer) fun _ _ => by simp

def plainRound : Call ℚ := .saveRound (exampleRound 2000 [exampleResult true (str "clean")])

def lookupRound : Round ℚ :=
  { exampleRound 1900 [exampleResult true (str "polluted")] with auxiliary := true }

def plainRun : DB ℚ := Runs.run step (openStore emptyLegacy)
  [.saveServer 900 exampleServer, .saveRound (exampleRound 2000 [exampleResult true (str "clean")])]

def lookupRun : DB ℚ := Runs.run step (openStore emptyLegacy)
  [.saveServer 900 exampleServer, .saveRound lookupRound,
    .saveRound (exampleRound 2000 [exampleResult true (str "clean")])]

theorem auxiliary_unseen_lookup : SameAnswers plainRun lookupRun ∧ plainRun.rounds.length = 1 ∧
    lookupRun.rounds.length = 2 := by
  have hc : WithAuxiliary [addServer, plainRound] [addServer, .saveRound lookupRound, plainRound] :=
    .both _ (.extra rfl (.both _ .nil))
  have ha : PerformsAll (openStore emptyLegacy) [addServer, plainRound] plainRun :=
    .cons (.event _ _ _) (.cons (.event _ _ _) (.nil _))
  have hb : PerformsAll (openStore emptyLegacy)
      [addServer, .saveRound lookupRound, plainRound] lookupRun :=
    .cons (.event _ _ _) (.cons (.event _ _ _) (.cons (.event _ _ _) (.nil _)))
  exact ⟨auxiliary_unseen emptyLegacy tidy_empty hc ha hb, by decide +kernel, by decide +kernel⟩

end

end DnsMonitor.Store.Auxiliary

import DnsMonitor.Lib.Intervals
import DnsMonitor.Store.Aggregates
import DnsMonitor.Store.Schedule
import DnsMonitor.Store.Summary
import Mathlib.Algebra.Order.Field.Rat
import Mathlib.Tactic.Positivity

namespace DnsMonitor.Store.Spacing

open DnsMonitor.Model DnsMonitor.Lib DnsMonitor.Lib.Tables DnsMonitor.Lib.Intervals
open DnsMonitor.Store.Schema DnsMonitor.Store.Current DnsMonitor.Store.Rounds
open DnsMonitor.Store.Override DnsMonitor.Store.Cleanup DnsMonitor.Store.Servers
open DnsMonitor.Store.Migration DnsMonitor.Store.Run DnsMonitor.Store.WellFormed
open DnsMonitor.Store.Schedule DnsMonitor.Store.Summary DnsMonitor.Store.Aggregates
open DnsMonitor.Go.Strings DnsMonitor.Go.Unicode DnsMonitor.Go.Errors DnsMonitor.Go.Float

section

variable {F : Type}

/-- Of two rounds the one that comes first ends before the other is finished. -/
def Spaced (rows : List (RoundRow F)) : Prop :=
  ∀ q ∈ rows, ∀ r ∈ rows, timeKey q < timeKey r → q.coveredUntil ≤ r.finishedAt

def AllSpaced (db : DB F) : Prop := ∀ serverID, Spaced (formal serverID db.rounds)

def spanKey (r : RoundRow F) : (Int × Bool) × (Int ×ₗ Int) × Int :=
  ((r.serverID, r.auxiliary), timeKey r, r.coveredUntil)

variable {db db' : DB F} {rows rows' : List (RoundRow F)}

theorem Spaced.sublist (h : Spaced rows) (hs : rows'.Sublist rows) : Spaced rows' :=
  fun q hq r hr hlt => h q (hs.subset hq) r (hs.subset hr) hlt

theorem AllSpaced.sublist (h : AllSpaced db) (hs : db'.rounds.Sublist db.rounds) : AllSpaced db' :=
  fun serverID => (h serverID).sublist (hs.filter _)

theorem AllSpaced.congr (h : AllSpaced db)
    (hk : db'.rounds.map spanKey = db.rounds.map spanKey) : AllSpaced db' := by
  have hold : ∀ serverID, ∀ q ∈ formal serverID db'.rounds,
      ∃ p ∈ formal serverID db.rounds, spanKey p = spanKey q := by
    intro serverID q hq
    obtain ⟨hq, hserver, haux⟩ := mem_formal.mp hq
    obtain ⟨p, hp, he⟩ := List.mem_map.mp (hk ▸ List.mem_map_of_mem hq)
    have howner : (p.serverID, p.auxiliary) = (q.serverID, q.auxiliary) := congrArg Prod.fst he
    obtain ⟨hs, ha⟩ := Prod.mk.inj howner
    exact ⟨p, mem_formal.mpr ⟨hp, hs.trans hserver, ha.trans haux⟩, he⟩
  intro serverID q hq r hr hlt
  obtain ⟨q₀, hq₀, hqe⟩ := hold serverID q hq
  obtain ⟨r₀, hr₀, hre⟩ := hold serverID r hr
  obtain ⟨-, hqe⟩ := Prod.mk.inj hqe
  obtain ⟨-, hre⟩ := Prod.mk.inj hre
  obtain ⟨hqt, hqc⟩ := Prod.mk.inj hqe
  obtain ⟨hrt, -⟩ := Prod.mk.inj hre
  have hfin : r₀.finishedAt = r.finishedAt := congrArg (fun k => (ofLex k).1) hrt
  rw [← hqc, ← hfin]
  apply h serverID q₀ hq₀ r₀ hr₀
  rw [hqt, hrt]
  exact hlt

theorem timeKey_inj (h : (rows.map (·.id)).Nodup) :
    ∀ s ∈ rows, ∀ t ∈ rows, timeKey s = timeKey t → s = t := by
  intro s hs t ht he
  apply List.inj_on_of_nodup_map h hs ht
  simpa [timeKey] using congrArg (fun k => (ofLex k).2) he

theorem Spaced.disjoint (h : Spaced rows) (hids : (rows.map (·.id)).Nodup) :
    rows.Pairwise fun q r => q.coveredUntil ≤ r.finishedAt ∨ r.coveredUntil ≤ q.finishedAt := by
  apply (List.Nodup.of_map _ hids).pairwise_of_forall_ne
  intro q hq r hr hne
  cases lt_trichotomy (timeKey q) (timeKey r) with
  | inl hlt => exact .inl (h q hq r hr hlt)
  | inr hge =>
    cases hge with
    | inl he => exact absurd (timeKey_inj hids q hq r hr he) hne
    | inr hlt => exact .inr (h r hr q hq hlt)

theorem Spaced.overlap_old (h : Spaced rows) {q r : RoundRow F} (hq : q ∈ rows) (hr : r ∈ rows)
    (hlt : timeKey q < timeKey r) {since : Int} (hs : r.finishedAt < since) :
    q.coveredUntil ≤ since :=
  (h q hq r hr hlt).trans hs.le

theorem spaced_deleteRounds (h : AllSpaced db) (p : RoundRow F → Bool) :
    AllSpaced (deleteRounds p db) :=
  h.sublist (delete_sublist p db.rounds)

theorem spaced_migrate (h : AllSpaced db) : AllSpaced (migrate db) := by
  apply h.congr
  simp only [migrate, List.map_map]
  rfl

end

section

variable {F : Type} [GoFloat F]

theorem spaced_rebuildRound {db db' : DB F} {id : Int} (h : AllSpaced db)
    (hs : rebuildRound id db = .ok db') : AllSpaced db' := by
  cases rebuilt hs with
  | dropped _ => exact spaced_deleteRounds h _
  | recounted _ _ _ => exact h.congr (map_update (fun _ => by rfl) _)

theorem spaced_rebuildPartial {db db' : DB F} {before : Int} {ids : List Int} (h : AllSpaced db)
    (hs : rebuildPartial before ids db = .ok db') : AllSpaced db' :=
  rebuildPartial_keeps
    (fun _ _ _ _ hd hround => spaced_rebuildRound (hd.congr (by rfl)) hround) h hs

theorem spaced_cleanup {db db' : DB F} {before : Int} {t : CleanupStep} (h : AllSpaced db)
    (hs : cleanup before t db = .ok db') : AllSpaced db' := by
  cases t with
  | pruneObservations =>
    injection hs with hs
    exact hs ▸ h.congr rfl
  | pruneReferences ids =>
    obtain rfl := pruneReferences_ok hs
    exact h.congr rfl
  | dropRounds ids =>
    injection hs with hs
    exact hs ▸ spaced_deleteRounds h _
  | pruneResults ids => exact spaced_rebuildPartial h hs
  | dropAudit ids =>
    injection hs with hs
    exact hs ▸ h.congr rfl

variable [CaseTables] {db db' : DB F} {v : Round F} {serverID : Int}

theorem newRound_coveredUntil (h : isScheduled serverID v = true) (db : DB F) :
    (newRound db v).coveredUntil =
      match (((formal serverID db.rounds).map (·.finishedAt)).filter (v.finishedAt ≤ ·)).min? with
      | some next => min v.nextDue next
      | none => v.nextDue := by
  simp only [isScheduled, Bool.and_eq_true, decide_eq_true_eq, Bool.not_eq_true'] at h
  simp only [newRound, roundRow, coveredUntil, h.2, Bool.false_eq_true, if_false, h.1]
  cases (((formal serverID db.rounds).map (·.finishedAt)).filter (v.finishedAt ≤ ·)).min? with
  | none => rfl
  | some next =>
    dsimp only
    rw [min_def]
    split_ifs <;> omega

theorem newRound_ends (h : isScheduled serverID v = true) {r : RoundRow F}
    (hr : r ∈ formal serverID db.rounds) (hle : v.finishedAt ≤ r.finishedAt) :
    (newRound db v).coveredUntil ≤ r.finishedAt := by
  rw [newRound_coveredUntil h]
  have hmem : r.finishedAt ∈
      ((formal serverID db.rounds).map (·.finishedAt)).filter (v.finishedAt ≤ ·) :=
    List.mem_filter.mpr ⟨List.mem_map_of_mem hr, by simpa using hle⟩
  cases hm : (((formal serverID db.rounds).map (·.finishedAt)).filter (v.finishedAt ≤ ·)).min? with
  | none =>
    rw [List.min?_eq_none_iff.mp hm] at hmem
    cases hmem
  | some next => exact (min_le_right _ _).trans ((List.min?_eq_some_iff.mp hm).2 _ hmem)

theorem spaced_newRound (hs : Spaced (formal serverID db.rounds))
    (h : isScheduled serverID v = true) {q r : RoundRow F}
    (hq : q ∈ formal serverID db.rounds ++ [newRound db v])
    (hr : r ∈ formal serverID db.rounds ++ [newRound db v]) (hlt : timeKey q < timeKey r)
    (hlast : latest timeKey ((formal serverID db.rounds).filter (·.finishedAt ≤ v.finishedAt)) ≠
      some q) (hids : ((formal serverID db.rounds).map (·.id)).Nodup) :
    q.coveredUntil ≤ r.finishedAt := by
  have hfin : (newRound db v).finishedAt = v.finishedAt := rfl
  have hnid : (newRound db v).id = newRoundID db := rfl
  cases List.mem_append.mp hq with
  | inl hq =>
    cases List.mem_append.mp hr with
    | inl hr => exact hs q hq r hr hlt
    | inr hr =>
      rw [List.mem_singleton.mp hr] at hlt ⊢
      have hle := timeKey_lt.mp hlt
      have hqmem : q ∈ (formal serverID db.rounds).filter (·.finishedAt ≤ v.finishedAt) :=
        List.mem_filter.mpr ⟨hq, by simp only [decide_eq_true_eq]; omega⟩
      cases hp : latest timeKey ((formal serverID db.rounds).filter
          (·.finishedAt ≤ v.finishedAt)) with
      | none =>
        rw [latest_eq_none.mp hp] at hqmem
        cases hqmem
      | some p =>
        obtain ⟨hpm, hmax⟩ := latest_eq_some hp
        obtain ⟨hpm, hple⟩ := List.mem_filter.mp hpm
        have hqp : timeKey q < timeKey p := by
          apply lt_of_le_of_ne (hmax q hqmem)
          intro he
          exact hlast (by rw [hp, timeKey_inj hids q hq p hpm he])
        exact (hs q hq p hpm hqp).trans (of_decide_eq_true hple)
  | inr hq =>
    rw [List.mem_singleton.mp hq] at hlt ⊢
    cases List.mem_append.mp hr with
    | inl hr =>
      have hle := timeKey_lt.mp hlt
      exact newRound_ends h hr (by omega)
    | inr hr =>
      rw [List.mem_singleton.mp hr] at hlt
      exact absurd hlt (lt_irrefl _)

theorem spaced_insertRound (hw : WellFormed db) (hs : Spaced (formal serverID db.rounds))
    (h : isScheduled serverID v = true) : Spaced (formal serverID (insertRound db v).rounds) := by
  have hids := formal_ids hw serverID
  rw [formal_insertRound h]
  cases hp : latest timeKey ((formal serverID db.rounds).filter
      (·.finishedAt ≤ v.finishedAt)) with
  | none =>
    intro q hq r hr hlt
    exact spaced_newRound hs h hq hr hlt (by simp [hp]) hids
  | some p =>
    obtain ⟨hpm, hmax⟩ := latest_eq_some hp
    obtain ⟨hpm, hple⟩ := List.mem_filter.mp hpm
    have hkey : ∀ r : RoundRow F, timeKey (if decide (r.id = p.id) = true then
        { r with coveredUntil := min r.nextDue v.finishedAt } else r) = timeKey r := by
      intro r
      split_ifs <;> rfl
    have hfinished : ∀ r : RoundRow F, (if decide (r.id = p.id) = true then
        { r with coveredUntil := min r.nextDue v.finishedAt } else r).finishedAt =
          r.finishedAt := by
      intro r
      split_ifs <;> rfl
    intro q' hq' r' hr' hlt
    obtain ⟨q, hq, rfl⟩ := mem_update.mp hq'
    obtain ⟨r, hr, rfl⟩ := mem_update.mp hr'
    rw [hkey, hkey] at hlt
    rw [hfinished]
    by_cases hid : q.id = p.id
    · rw [if_pos (by simpa using hid)]
      -- no round lies between the one that is cut and the new one
      apply (min_le_right _ _).trans
      obtain rfl : q = p := List.inj_on_of_nodup_map (formal_insert_ids hw serverID v) hq
        (List.mem_append_left _ hpm) hid
      cases List.mem_append.mp hr with
      | inl hr =>
        by_contra hearly
        have hmem : r ∈ (formal serverID db.rounds).filter (·.finishedAt ≤ v.finishedAt) :=
          List.mem_filter.mpr ⟨hr, by simp only [decide_eq_true_eq]; omega⟩
        exact absurd (hmax r hmem) (not_le.mpr hlt)
      | inr hr =>
        rw [List.mem_singleton.mp hr]
        exact le_rfl
    · rw [if_neg (by simpa using hid)]
      apply spaced_newRound hs h hq hr hlt _ hids
      rw [hp]
      intro he
      exact hid (congrArg RoundRow.id (Option.some.inj he)).symm

theorem spaced_apply {e : Event F} (hw : WellFormed db) (h : AllSpaced db)
    (hs : apply db e = .ok db') : AllSpaced db' := by
  cases e with
  | saveConfig c =>
    obtain rfl := saveConfig_ok hs
    exact h.congr rfl
  | saveServer now v =>
    cases saveServer_ok hs with
    | inl hi => exact hi.2 ▸ h.congr rfl
    | inr hu => exact hu.2.2 ▸ h.congr rfl
  | deleteServer id => exact deleteServer_ok hs ▸ (spaced_deleteRounds h _).congr rfl
  | importServers now snapshot items =>
    simp only [apply, map_eq_ok] at hs
    obtain ⟨r, hr, rfl⟩ := hs
    exact importServers_invariant (P := AllSpaced) (fun _ _ _ h => h.congr rfl)
      (fun _ _ h => h.congr rfl) h hr
  | saveRound v =>
    obtain ⟨_, _, _, snapshots, rfl⟩ := saveRound_ok hs
    intro serverID
    cases hv : isScheduled serverID v with
    | true => exact spaced_insertRound hw (h serverID) hv
    | false =>
      have hother := formal_insertRound_other hw hv
      exact hother ▸ h serverID
  | saveOverride now v =>
    exact (saveOverride_ok hs).2 ▸ h.congr (putOverride_rounds (fun _ _ => rfl) _ _)
  | saveTrustedObservation server result =>
    obtain ⟨rows, rfl⟩ := saveTrustedObservation_ok hs
    exact h.congr rfl
  | pruneTrustedReferences now hours =>
    obtain ⟨rows, rfl⟩ := pruneTrustedReferences_ok hs
    exact h.congr rfl
  | cleanup before t => exact spaced_cleanup h hs

theorem spaced_run (hw : WellFormed db) (h : AllSpaced db) (es : List (Event F)) :
    AllSpaced (Runs.run step db es) := by
  refine (Runs.run_invariant (P := fun db => WellFormed db ∧ AllSpaced db) ?_ ⟨hw, h⟩ es).2
  exact step_invariant fun _ _ _ h hs => ⟨wellFormed_apply h.1 hs, spaced_apply h.1 h.2 hs⟩

end

section

variable {F : Type} {db : DB F} {serverID since now : Int}

/-- Only the last round before the window reaches into it. -/
theorem crossingRound_eq (hw : WellFormed db) (hs : Spaced (formal serverID db.rounds)) :
    crossingRound db serverID since =
      ((formal serverID db.rounds).filter (·.finishedAt < since)).filter
        (since < ·.coveredUntil) := by
  have hids := formal_ids hw serverID
  rw [crossingRound]
  cases hl : latest timeKey ((formal serverID db.rounds).filter (·.finishedAt < since)) with
  | none =>
    rw [latest_eq_none.mp hl]
    rfl
  | some c =>
    obtain ⟨hc, hmax⟩ := latest_eq_some hl
    obtain ⟨hcf, hcs⟩ := List.mem_filter.mp hc
    have hnd : ((formal serverID db.rounds).filter (·.finishedAt < since)).Nodup :=
      (List.Nodup.of_map _ hids).filter _
    rw [filter_single hnd hc]
    · simp only [decide_eq_true_eq]
    · intro r hr hne
      have hrf := (List.mem_filter.mp hr).1
      have hlt : timeKey r < timeKey c :=
        lt_of_le_of_ne (hmax r hr) fun he => hne (timeKey_inj hids r hrf c hcf he)
      have hold := hs.overlap_old hrf hcf hlt (of_decide_eq_true hcs)
      simpa using hold

/-- The evaluation of a server selects the rounds of the full scan. -/
theorem eligible_perm_scan (hw : WellFormed db) (hs : Spaced (formal serverID db.rounds))
    (h : since ≤ now) : (eligible db serverID since now).Perm (scan db serverID since now) := by
  have hwindow : (scan db serverID since now).filter (since ≤ ·.finishedAt) =
      windowRounds db serverID since now := by
    rw [scan, windowRounds, List.filter_filter]
    apply List.filter_congr
    intro r _
    cases hr : decide (since ≤ r.finishedAt) <;> simp
  have hcrossing : (scan db serverID since now).filter (fun r => !decide (since ≤ r.finishedAt)) =
      crossingRound db serverID since := by
    rw [scan, crossingRound_eq hw hs, List.filter_filter, List.filter_filter]
    apply List.filter_congr
    intro r _
    rw [Bool.eq_iff_iff]
    simp only [Bool.and_eq_true, Bool.or_eq_true, Bool.not_eq_true', decide_eq_true_eq,
      decide_eq_false_iff_not]
    omega
  rw [eligible, ← hwindow, ← hcrossing]
  exact List.filter_append_perm _ _

theorem overlap_sum_le (hw : WellFormed db) (hs : Spaced (formal serverID db.rounds))
    (h : since ≤ now) : ((scan db serverID since now).map (overlap since now)).sum ≤ now - since := by
  have hsub : (scan db serverID since now).Sublist (formal serverID db.rounds) :=
    List.filter_sublist
  exact sum_common_le ((hs.sublist hsub).disjoint ((formal_ids hw serverID).sublist
    (hsub.map _))) h

end

section

theorem ofInt_rat (n : Int) : (ofInt n : ℚ) = n := rfl

theorem availableIn_le (since now : Int) {r : RoundRow ℚ} (h : r.received ≤ r.samples) :
    0 ≤ availableIn since now r ∧ availableIn since now r ≤ overlap since now r := by
  have hspan : (0 : ℚ) ≤ overlap since now r := by
    exact_mod_cast common_nonneg since now r.finishedAt r.coveredUntil
  have hsamples : (0 : ℚ) < (max 1 (r.samples : Int) : Int) := by
    exact_mod_cast lt_of_lt_of_le one_pos (le_max_left _ _)
  have hshare : ((r.received : Int) : ℚ) ≤ (max 1 (r.samples : Int) : Int) :=
    Int.cast_le.mpr ((Int.ofNat_le.mpr h).trans (le_max_right _ _))
  have hreceived : (0 : ℚ) ≤ ((r.received : Int) : ℚ) := by positivity
  simp only [availableIn, ofInt_rat, Int.cast_one, mul_one]
  constructor
  · positivity
  · rw [div_le_iff₀ hsamples]
    exact mul_le_mul_of_nonneg_left hshare hspan

theorem available_sum_le (since now : Int) {rows : List (RoundRow ℚ)}
    (h : ∀ r ∈ rows, r.received ≤ r.samples) :
    0 ≤ (rows.map (availableIn since now)).sum ∧
      (rows.map (availableIn since now)).sum ≤ ((rows.map (overlap since now)).sum : Int) := by
  induction rows with
  | nil => simp
  | cons r rows ih =>
    obtain ⟨hlow, hhigh⟩ := ih fun q hq => h q (by simp [hq])
    obtain ⟨hl, hh⟩ := availableIn_le since now (h r (by simp))
    simp only [List.map_cons, List.sum_cons, Int.cast_add]
    exact ⟨add_nonneg hl hlow, add_le_add hh hhigh⟩

/-- In every state, the single round before the window that the evaluation of a server reads is
the only one of the full scan, so both sum up the same covered and available time. The intervals
do not overlap: the covered time is not more than the window, and the available time not more
than the covered time. -/
theorem evaluation_of_scan [CaseTables] (legacy : Legacy ℚ) (hs : AllSpaced legacy.db)
    (ha : Aggregated legacy.db) (es : List (Event ℚ)) {db : DB ℚ}
    (hdb : db = Runs.run step (openStore legacy) es) (server : Server) (now : Int)
    {config : Config ℚ} (hc : checkThresholds config now = .ok ()) {since : Int}
    (hsince : since = now - config.ratingWindowMinutes * 60 * 1000) :
    let current := accumulate db server since now
    let full := summaryAccumulator db server.id since now
    (formal server.id db.rounds).Pairwise (fun q r =>
      q.coveredUntil ≤ r.finishedAt ∨ r.coveredUntil ≤ q.finishedAt) ∧
    current.covered = full.covered ∧ current.available = full.available ∧
    0 ≤ current.available ∧ current.available ≤ current.covered ∧
    current.covered ≤ ofInt (now - since) := by
  have hw : WellFormed db := wellFormed_reachable ⟨legacy, es, hdb⟩
  have hspaced : Spaced (formal server.id db.rounds) := by
    rw [hdb]
    exact spaced_run (wellFormed_migrate legacy.wellFormed) (spaced_migrate hs) es server.id
  have hcounts : ∀ r ∈ scan db server.id since now, r.received ≤ r.samples := by
    intro r hr
    have hmem := (mem_formal.mp (List.mem_filter.mp hr).1).1
    obtain ⟨_, _, _, _, _, _, _, _, hle, _⟩ := counts_of_results legacy ha es hdb r hmem
    exact hle
  have hle : since ≤ now := by
    rw [checkThresholds, require_eq_ok] at hc
    omega
  have hperm := eligible_perm_scan hw hspaced hle
  have hcovered : coveredMS db server.id since now =
      ((scan db server.id since now).map (overlap since now)).sum :=
    (hperm.map _).sum_eq
  have havailable : availableMS db server.id since now =
      ((scan db server.id since now).map (availableIn since now)).sum :=
    (hperm.map _).sum_eq
  obtain ⟨hlow, hhigh⟩ := available_sum_le since now hcounts
  refine ⟨hspaced.disjoint (formal_ids hw server.id), ?_, havailable, ?_, ?_, ?_⟩
  · exact congrArg ofInt hcovered
  · exact hlow.trans_eq havailable.symm
  · simp only [accumulate, ofInt_rat, hcovered, havailable]
    exact hhigh
  · simp only [accumulate, ofInt_rat, hcovered]
    exact_mod_cast overlap_sum_le hw hspaced hle

theorem spaced_empty : AllSpaced (emptyLegacy (F := ℚ)).db := by
  intro serverID q hq
  cases hq

end

section

local instance : CaseTables := asciiTables

def spacedRun : List (Event ℚ) :=
  [.saveServer 900 exampleServer,
    .saveRound (exampleRound 3600000 [exampleResult true (str "clean")]),
    .saveRound (exampleRound 3500000 [exampleResult true (str "clean")]),
    .saveRound (exampleRound 3600000 [exampleResult false (str "unknown")])]

theorem evaluation_of_scan_spaced :
    let db := Runs.run step (openStore emptyLegacy) spacedRun
    let current := accumulate db { exampleServer with id := 1 } 3550000 7150000
    current.covered = 50000 ∧
      current.covered = (summaryAccumulator db 1 3550000 7150000).covered ∧
      current.available ≤ current.covered := by
  have hc : checkThresholds defaultConfig (F := ℚ) 7150000 = .ok () := by decide +kernel
  obtain ⟨_, hcovered, _, _, hle, _⟩ := evaluation_of_scan emptyLegacy spaced_empty
    aggregated_empty spacedRun rfl { exampleServer with id := 1 } 7150000 hc
    (show 3550000 = 7150000 - (defaultConfig (F := ℚ)).ratingWindowMinutes * 60 * 1000 by
      decide +kernel)
  exact ⟨by decide +kernel, hcovered, hle⟩

end

end DnsMonitor.Store.Spacing

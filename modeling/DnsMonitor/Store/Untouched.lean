import DnsMonitor.Store.Bundles

namespace DnsMonitor.Store.Untouched

open DnsMonitor.Model DnsMonitor.Lib DnsMonitor.Lib.Runs DnsMonitor.Lib.Tables
open DnsMonitor.Store.Schema DnsMonitor.Store.Current DnsMonitor.Store.Rounds
open DnsMonitor.Store.Override DnsMonitor.Store.Cleanup DnsMonitor.Store.Migration
open DnsMonitor.Store.Run
open DnsMonitor.Store.WellFormed DnsMonitor.Store.Schedule DnsMonitor.Store.Owners
open DnsMonitor.Store.Bundles
open DnsMonitor.Go.Strings DnsMonitor.Go.Unicode DnsMonitor.Go.Errors DnsMonitor.Go.Float

section

variable {F : Type}

/-- A call that runs at the same time: a round or a verdict is saved, or the store cleaned up. -/
def isWriter : Event F → Bool
  | .saveRound _ => true
  | .saveOverride _ _ => true
  | .cleanup _ _ => true
  | _ => false

def lastOf (serverID : Int) (p : Int → Bool) (db : DB F) : Option (RoundRow F) :=
  latest timeKey ((formal serverID db.rounds).filter fun r => p r.finishedAt)

/-- The transaction deletes the round, or counts its results again. -/
def rewrites (db : DB F) (q : RoundRow F) : Event F → Prop
  | .cleanup before (.dropRounds ids) => q.id ∈ ids.take 1000 ∧ q.finishedAt < before
  | .cleanup before (.pruneResults ids) => q.id ∈ partialRounds before ids db
  | _ => False

/-- The transaction saves a round behind the last one of a kind, or rewrites that one. -/
def supersedes (serverID : Int) (p : Int → Bool) (db : DB F) : Event F → Prop
  | .saveRound v => isScheduled serverID v = true ∧ p v.finishedAt = true ∧
      ∀ q, lastOf serverID p db = some q → q.finishedAt ≤ v.finishedAt
  | e => ∃ q, lastOf serverID p db = some q ∧ rewrites db q e

/-- The round takes part in the counters: it finished in the window or is the last one before. -/
def IsRead (serverID since now : Int) (db : DB F) (q : RoundRow F) : Prop :=
  q ∈ windowRounds db serverID since now ∨ lastOf serverID (· < since) db = some q

/-- The transaction rewrites a round of the counters, adds one to them, or moves the end of the
interval of one of them. -/
def moves (serverID since now : Int) (db : DB F) : Event F → Prop
  | .saveRound v => isScheduled serverID v = true ∧
      (since ≤ v.finishedAt ∧ v.finishedAt ≤ now ∨
        v.finishedAt < since ∧
          (∀ q, lastOf serverID (· < since) db = some q → q.finishedAt ≤ v.finishedAt) ∨
        ∃ q, IsRead serverID since now db q ∧ lastOf serverID (· ≤ v.finishedAt) db = some q ∧
          min (min q.nextDue v.finishedAt) now ≠ min q.coveredUntil now)
  | e => ∃ q, IsRead serverID since now db q ∧ rewrites db q e

/-- The transaction changes which round of the window is the last one, or a verdict of its
results. -/
def judges [CaseTables] (serverID since now : Int) (db : DB F) : Event F → Prop
  | .saveOverride at' v => ∃ q, lastOf serverID (fun t => since ≤ t && t ≤ now) db = some q ∧
      ∃ r ∈ db.results, r.roundID = q.id ∧
        isOf (normalizeOverride at' v).serverID (normalizeOverride at' v).domain
          (normalizeOverride at' v).type r = true ∧
        overriddenCode v.verdict r ≠ r.effectivePollution
  | e => supersedes serverID (fun t => since ≤ t && t ≤ now) db e

end

section

variable {F : Type}

def core (r : RoundRow F) : RoundRow F := { r with coveredUntil := 0, pollution := 0 }

/-- Some rounds change or go. Their ids and finish times stay, and so do rounds under other ids
than the given ones. -/
def Reworked (ids : List Int) (rows rows' : List (RoundRow F)) : Prop :=
  ∃ h : RoundRow F → Option (RoundRow F), rows' = rows.filterMap h ∧
    (∀ q q', h q = some q' → timeKey q' = timeKey q) ∧ ∀ q ∈ rows, q.id ∉ ids → h q = some q

theorem reworked_trans {ids : List Int} {rows rows₁ rows₂ : List (RoundRow F)}
    (h₁ : Reworked ids rows rows₁) (h₂ : Reworked ids rows₁ rows₂) : Reworked ids rows rows₂ := by
  obtain ⟨g, rfl, hkey, hsame⟩ := h₁
  obtain ⟨h, rfl, hkey', hsame'⟩ := h₂
  refine ⟨fun q => (g q).bind h, List.filterMap_filterMap, ?_, ?_⟩
  · intro q q'' hq
    obtain ⟨q', hq', hq''⟩ := Option.bind_eq_some_iff.mp hq
    exact (hkey' q' q'' hq'').trans (hkey q q' hq')
  · intro q hq hid
    have hg := hsame q hq hid
    have hmem : q ∈ rows.filterMap g := List.mem_filterMap.mpr ⟨q, hq, hg⟩
    exact Option.bind_eq_some_iff.mpr ⟨q, hg, hsame' q hmem hid⟩

theorem formal_delete (serverID : Int) (p : RoundRow F → Bool) (rows : List (RoundRow F)) :
    formal serverID (delete p rows) = delete p (formal serverID rows) := by
  rw [formal, delete, List.filter_filter, delete, formal, List.filter_filter]
  apply List.filter_congr
  intro q _
  exact Bool.and_comm _ _

theorem formal_update {p : RoundRow F → Bool} {g : RoundRow F → RoundRow F}
    (hg : ∀ q, (g q).serverID = q.serverID ∧ (g q).auxiliary = q.auxiliary) (serverID : Int)
    (rows : List (RoundRow F)) :
    formal serverID (update p g rows) = update p g (formal serverID rows) := by
  apply filter_update
  intro q
  rw [(hg q).1, (hg q).2]

theorem reworked_delete {ids : List Int} {rows : List (RoundRow F)} {p : RoundRow F → Bool}
    (hp : ∀ q ∈ rows, q.id ∉ ids → p q = false) : Reworked ids rows (delete p rows) := by
  refine ⟨fun q => if p q then none else some q, delete_eq_filterMap p rows, ?_, ?_⟩
  · intro q q' hq
    dsimp only at hq
    split_ifs at hq
    rw [Option.some.inj hq]
  · intro q hq hid
    exact if_neg (by simp [hp q hq hid])

theorem reworked_update {ids : List Int} {rows : List (RoundRow F)} {p : RoundRow F → Bool}
    {g : RoundRow F → RoundRow F} (hkey : ∀ q, timeKey (g q) = timeKey q)
    (hp : ∀ q ∈ rows, q.id ∉ ids → p q = false) : Reworked ids rows (update p g rows) := by
  refine ⟨fun q => some (if p q then g q else q), update_eq_filterMap p g rows, ?_, ?_⟩
  · intro q q' hq
    rw [← Option.some.inj hq]
    split_ifs
    · exact hkey q
    · rfl
  · intro q hq hid
    exact congrArg some (if_neg (by simp [hp q hq hid]))

variable {db : DB F} {serverID since now : Int} {e : Event F}

/-- The round is the same, but for its pollution and for an interval that a new round may end. -/
def Kept (serverID : Int) (db : DB F) (e : Event F) (q q' : RoundRow F) : Prop :=
  core q' = core q ∧ (q'.coveredUntil = q.coveredUntil ∨ ∃ v, e = .saveRound v ∧
    isScheduled serverID v = true ∧ lastOf serverID (· ≤ v.finishedAt) db = some q ∧
    q'.coveredUntil = min q.nextDue v.finishedAt)

theorem kept_refl (q : RoundRow F) : Kept serverID db e q q := ⟨rfl, .inl rfl⟩

def plain (now : Int) (r : RoundRow F) : RoundRow F :=
  { r with coveredUntil := min r.coveredUntil now, pollution := 0 }

theorem plain_of_kept {q q' : RoundRow F} (hk : Kept serverID db e q q')
    (hcut : ∀ v, e = .saveRound v → isScheduled serverID v = true →
      lastOf serverID (· ≤ v.finishedAt) db = some q →
        min (min q.nextDue v.finishedAt) now = min q.coveredUntil now) :
    plain now q' = plain now q := by
  obtain ⟨hcore, hcov⟩ := hk
  have hmin : min q'.coveredUntil now = min q.coveredUntil now := by
    rcases hcov with hcov | ⟨v, he, hv, hq, hcov⟩
    · rw [hcov]
    · rw [hcov, hcut v he hv hq]
  have hfrom : ∀ r : RoundRow F,
      plain now r = { core r with coveredUntil := min r.coveredUntil now } := fun _ => rfl
  rw [hfrom q', hfrom q, hcore, hmin]

theorem read_window (h : moves serverID since now db e → False) {q : RoundRow F}
    (hq : IsRead serverID since now db q) : ¬ rewrites db q e := by
  intro hr
  cases e with
  | saveRound v => exact hr
  | _ => exact h ⟨q, hq, hr⟩

theorem not_rewrites_last {p : Int → Bool} (h : ¬ supersedes serverID p db e) {q : RoundRow F}
    (hq : lastOf serverID p db = some q) : ¬ rewrites db q e := by
  intro hr
  cases e with
  | saveRound v => exact hr
  | _ => exact h ⟨q, hq, hr⟩

theorem finishedAt_of_key {q r : RoundRow F} (h : timeKey q = timeKey r) :
    q.id = r.id ∧ q.finishedAt = r.finishedAt :=
  ⟨congrArg Prod.snd h, congrArg Prod.fst h⟩

def verdicts (db : DB F) (id : Int) : List (GoString × Nat) :=
  (db.results.filter (·.roundID = id)).map fun r => (r.type, r.effectivePollution)

theorem judged_verdicts (db : DB F) (id : Int) :
    maxOf (fun r => severityCode r.effectivePollution) (judged db id) =
      maxOf (fun x => severityCode x.2)
        ((verdicts db id).filter fun x => x.1 = str "A" || 0 < x.2) := by
  rw [verdicts, List.filter_map, maxOf_map, List.filter_filter, judged]
  congr 1
  apply List.filter_congr
  intro r _
  exact Bool.and_comm _ _

theorem severity_last (db : DB F) (serverID since now : Int) :
    severity db serverID since now =
      (lastOf serverID (fun t => since ≤ t && t ≤ now) db).elim 0 fun q =>
        maxOf (fun r => severityCode r.effectivePollution) (judged db q.id) := by
  have hlast : latest timeKey (windowRounds db serverID since now) =
      lastOf serverID (fun t => since ≤ t && t ≤ now) db := rfl
  rw [severity, hlast]
  cases lastOf serverID (fun t => since ≤ t && t ≤ now) db <;> rfl

theorem isUnreachable_last (db : DB F) (serverID now : Int) : isUnreachable db serverID now =
    ((lastOf serverID (· ≤ now) db).map core).elim false fun q =>
      0 < q.samples && q.successes = 0 := by
  have hlast : latestRound db serverID now = lastOf serverID (· ≤ now) db := rfl
  rw [isUnreachable, hlast]
  cases lastOf serverID (· ≤ now) db <;> rfl

end

section

variable {F : Type} [GoFloat F] {db db' : DB F} {serverID since now : Int} {e : Event F}

theorem reworked_rebuildPartial {before : Int} {ids : List Int}
    (hs : rebuildPartial before ids db = .ok db') :
    Reworked ids (formal serverID db.rounds) (formal serverID db'.rounds) := by
  refine rebuildPartial_keeps
    (P := fun d => Reworked ids (formal serverID db.rounds) (formal serverID d.rounds)) ?_ ?_ hs
  · intro id hid d d' hd hround
    have hother : ∀ q ∈ formal serverID d.rounds, q.id ∉ ids → decide (q.id = id) = false :=
      fun q _ hnot => decide_eq_false fun he => hnot (he ▸ hid)
    apply reworked_trans hd
    cases rebuilt hround with
    | dropped _ =>
      change Reworked ids _ (formal serverID (delete _ d.rounds))
      rw [formal_delete]
      exact reworked_delete hother
    | recounted raw _ _ =>
      change Reworked ids _ (formal serverID (update _ (recountedRound _ raw) d.rounds))
      rw [formal_update fun _ => by exact ⟨rfl, rfl⟩]
      exact reworked_update (fun _ => rfl) hother
  · exact ⟨some, List.filterMap_some.symm, fun _ _ hq => congrArg timeKey (Option.some.inj hq).symm,
      fun _ _ _ => rfl⟩

theorem verdicts_rebuildPartial {before id : Int} {ids : List Int} (hid : id ∉ ids)
    (hs : rebuildPartial before ids db = .ok db') : verdicts db' id = verdicts db id := by
  refine rebuildPartial_keeps (P := fun d => verdicts d id = verdicts db id) ?_ rfl hs
  intro i hi d d' hd hround
  have hne : id ≠ i := fun he => hid (he ▸ hi)
  have hexpired : (delete (fun r => r.roundID = i && r.timestamp < before) d.results).filter
      (·.roundID = id) = d.results.filter (·.roundID = id) := by
    apply filter_delete
    intro r _ hr
    simp [of_decide_eq_true hr, hne]
  rw [← hd, verdicts, verdicts, ← hexpired]
  cases rebuilt hround with
  | dropped _ =>
    congr 1
    apply filter_delete
    intro r _ hr
    rw [of_decide_eq_true hr, List.any_eq_false]
    intro q _
    simp only [Bool.and_eq_true, decide_eq_true_eq]
    rintro ⟨hqi, hqid⟩
    exact hne (hqid.symm.trans hqi)
  | recounted _ _ _ => rfl

variable [CaseTables]

/-- No transaction of a run that commits disturbs what is read. -/
def Spared (disturbs : DB F → Event F → Prop) (db : DB F) (es : List (Event F)) :
    Prop :=
  EachStep step (fun d e => (∃ d', apply d e = .ok d') → ¬ disturbs d e) db es

/-- What the transactions of a run keep that do not disturb it. -/
theorem spared_run {β : Type} {g : DB F → β} {disturbs : DB F → Event F → Prop}
    (hg : ∀ d d' e, WellFormed d → Origins d → isWriter e = true → ¬ disturbs d e →
      apply d e = .ok d' → g d' = g d)
    (hw : WellFormed db) (ho : Origins db) {es : List (Event F)}
    (hes : ∀ e ∈ es, isWriter e = true) (h : Spared disturbs db es) :
    g (run step db es) = g db := by
  apply run_eq_of_eachStep (I := fun d : DB F => WellFormed d ∧ Origins d)
    (C := fun d e => isWriter e = true ∧ ((∃ d', apply d e = .ok d') → ¬ disturbs d e))
  · exact step_invariant fun _ _ _ hd hs => ⟨wellFormed_apply hd.1 hs, origins_apply hd.1 hd.2 hs⟩
  · rintro d e ⟨hdw, hdo⟩ ⟨he, hquiet⟩
    cases hs : apply d e with
    | error err => simp [step, hs]
    | ok d' =>
      rw [step_of_ok hs]
      exact hg d d' e hdw hdo he (hquiet ⟨d', hs⟩) hs
  · exact ⟨hw, ho⟩
  · intro fs e gs hsplit
    exact ⟨hes e (by simp [hsplit]), h fs e gs hsplit⟩

structure Changes (serverID : Int) (db db' : DB F) (e : Event F)
    (h : RoundRow F → Option (RoundRow F)) (added : List (RoundRow F)) : Prop where
  rounds : formal serverID db'.rounds = (formal serverID db.rounds).filterMap h ++ added
  key : ∀ q q', h q = some q' → timeKey q' = timeKey q
  kept : ∀ q ∈ formal serverID db.rounds, ¬ rewrites db q e →
    ∃ q', h q = some q' ∧ Kept serverID db e q q'
  added : ∀ r ∈ added, ∃ v, e = .saveRound v ∧ isScheduled serverID v = true ∧ r = newRound db v

theorem changes_reworked {ids : List Int}
    (h : Reworked ids (formal serverID db.rounds) (formal serverID db'.rounds))
    (hids : ∀ q ∈ formal serverID db.rounds, ¬ rewrites db q e → q.id ∉ ids) :
    ∃ g added, Changes serverID db db' e g added := by
  obtain ⟨g, hrounds, hkey, hsame⟩ := h
  refine ⟨g, [], by rw [hrounds, List.append_nil], hkey, ?_, fun _ hr => absurd hr List.not_mem_nil⟩
  exact fun q hq hnot => ⟨q, hsame q hq (hids q hq hnot), kept_refl q⟩

theorem changes_same (h : formal serverID db'.rounds = formal serverID db.rounds) :
    ∃ g added, Changes serverID db db' e g added := by
  refine ⟨some, [], ?_, ?_, fun q _ _ => ⟨q, rfl, kept_refl q⟩,
    fun _ hr => absurd hr List.not_mem_nil⟩
  · rw [h, List.filterMap_some, List.append_nil]
  · exact fun q q' hq => congrArg timeKey (Option.some.inj hq).symm

theorem changes_insertRound (hw : WellFormed db) (v : Round F)
    (hrounds : db'.rounds = (insertRound db v).rounds) :
    ∃ g added, Changes serverID db db' (.saveRound v) g added := by
  cases hv : isScheduled serverID v with
  | false =>
    apply changes_same
    rw [hrounds, formal_insertRound_other hw hv]
  | true =>
    have hformal := formal_insertRound hv db
    have hadded : ∀ r ∈ [newRound db v], ∃ w, Event.saveRound v = .saveRound w ∧
        isScheduled serverID w = true ∧ r = newRound db w :=
      fun r hr => ⟨v, rfl, hv, List.mem_singleton.mp hr⟩
    cases hp : latest timeKey ((formal serverID db.rounds).filter
        (·.finishedAt ≤ v.finishedAt)) with
    | none =>
      rw [hp] at hformal
      refine ⟨some, [newRound db v], ?_, ?_, fun q _ _ => ⟨q, rfl, kept_refl q⟩, hadded⟩
      · rw [hrounds, hformal, List.filterMap_some]
      · exact fun q q' hq => congrArg timeKey (Option.some.inj hq).symm
    | some p =>
      rw [hp] at hformal
      have hpm := (mem_formal.mp (List.mem_filter.mp (latest_eq_some hp).1).1).1
      have hlt := newRoundID_fresh hpm
      have hnew : truncate p.id v.finishedAt [newRound db v] = [newRound db v] := by
        apply update_of_none
        intro q hq
        rw [List.mem_singleton.mp hq]
        apply decide_eq_false
        change newRoundID db ≠ p.id
        omega
      refine ⟨fun q => some (if decide (q.id = p.id) then
        { q with coveredUntil := min q.nextDue v.finishedAt } else q), [newRound db v], ?_, ?_, ?_,
        hadded⟩
      · rw [hrounds, hformal]
        change update _ _ (_ ++ _) = _
        rw [update, List.map_append]
        exact congrArg₂ _ (update_eq_filterMap _ _ _) hnew
      · intro q q' hq
        rw [← Option.some.inj hq]
        split_ifs <;> rfl
      · intro q hq _
        refine ⟨_, rfl, ?_⟩
        split_ifs with hid
        · have hpf := (List.mem_filter.mp (latest_eq_some hp).1).1
          obtain rfl : q = p := List.inj_on_of_nodup_map (formal_ids hw serverID) hq hpf
            (of_decide_eq_true hid)
          exact ⟨rfl, .inr ⟨v, rfl, hv, hp, rfl⟩⟩
        · exact kept_refl q

theorem changes_putOverride (v : Override) :
    ∃ h added, Changes serverID db (putOverride db v) e h added := by
  refine ⟨fun q => some (if ((putOverride db v).results.any fun r =>
      isOf v.serverID v.domain v.type r && r.roundID = q.id) then
        { q with pollution := worstEffective (putOverride db v).results q.id } else q), [], ?_, ?_, ?_,
    fun _ hr => absurd hr List.not_mem_nil⟩
  · change formal serverID (update _ _ db.rounds) = _
    rw [formal_update fun _ => by exact ⟨rfl, rfl⟩, List.append_nil, update_eq_filterMap]
    rfl
  · intro q q' hq
    rw [← Option.some.inj hq]
    split_ifs <;> rfl
  · intro q _ _
    refine ⟨_, rfl, ?_⟩
    split_ifs
    · exact ⟨rfl, .inl rfl⟩
    · exact kept_refl q

theorem changes_dropRounds (before : Int) (ids : List Int) : ∃ h added, Changes serverID db
    (dropRounds before ids db) (.cleanup before (.dropRounds ids)) h added := by
  refine ⟨fun q => if (ids.take 1000).contains q.id && q.finishedAt < before then none else some q,
    [], ?_, ?_, ?_, fun _ hr => absurd hr List.not_mem_nil⟩
  · change formal serverID (delete _ db.rounds) = _
    rw [formal_delete, delete_eq_filterMap, List.append_nil]
  · intro q q' hq
    split_ifs at hq
    rw [Option.some.inj hq]
  · intro q _ hnot
    refine ⟨q, if_neg ?_, kept_refl q⟩
    simpa [rewrites] using hnot

theorem changes_apply (serverID : Int) (hw : WellFormed db) (he : isWriter e = true)
    (hs : apply db e = .ok db') :
    ∃ h added, Changes serverID db db' e h added := by
  cases e with
  | saveRound v =>
    obtain ⟨_, _, _, snapshots, rfl⟩ := saveRound_ok hs
    exact changes_insertRound hw v rfl
  | saveOverride now v =>
    rw [(saveOverride_ok hs).2]
    exact changes_putOverride _
  | cleanup before t =>
    cases t with
    | dropRounds ids =>
      injection hs with hs
      rw [← hs]
      exact changes_dropRounds before ids
    | pruneResults ids =>
      apply changes_reworked (reworked_rebuildPartial hs)
      exact fun q _ hnot => hnot
    | pruneReferences ids =>
      obtain rfl := pruneReferences_ok hs
      exact changes_same rfl
    | _ =>
      injection hs with hs
      exact changes_same (hs ▸ rfl)
  | _ => cases he

variable {h : RoundRow F → Option (RoundRow F)} {added : List (RoundRow F)} {p : Int → Bool}

theorem Changes.mem (hc : Changes serverID db db' e h added) {q' : RoundRow F}
    (hq : q' ∈ formal serverID db'.rounds) :
    (∃ q ∈ formal serverID db.rounds, h q = some q') ∨ q' ∈ added := by
  rw [hc.rounds] at hq
  cases List.mem_append.mp hq with
  | inl hold => exact .inl (List.mem_filterMap.mp hold)
  | inr hnew => exact .inr hnew

theorem Changes.mem_of_eq (hc : Changes serverID db db' e h added) {q q' : RoundRow F}
    (hq : q ∈ formal serverID db.rounds) (hqq' : h q = some q') :
    q' ∈ formal serverID db'.rounds := by
  rw [hc.rounds]
  exact List.mem_append_left _ (List.mem_filterMap.mpr ⟨q, hq, hqq'⟩)

theorem Changes.mem_kind (hc : Changes serverID db db' e h added) {q q' : RoundRow F}
    (hq : q ∈ formal serverID db.rounds) (hqq' : h q = some q') (hp : p q'.finishedAt = true) :
    q ∈ (formal serverID db.rounds).filter fun r => p r.finishedAt := by
  rw [(finishedAt_of_key (hc.key q q' hqq')).2] at hp
  exact List.mem_filter.mpr ⟨hq, hp⟩

/-- A new round of a kind comes before one that is there. -/
theorem Changes.added_before (hc : Changes serverID db db' e h added)
    (hnot : ¬ supersedes serverID p db e) {r : RoundRow F} (hr : r ∈ added)
    (hp : p r.finishedAt = true) :
    ∃ q, lastOf serverID p db = some q ∧ r.finishedAt < q.finishedAt := by
  obtain ⟨v, rfl, hv, rfl⟩ := hc.added r hr
  by_contra hnone
  apply hnot
  refine ⟨hv, hp, fun q hq => ?_⟩
  by_contra hlt
  exact hnone ⟨q, hq, not_le.mp hlt⟩

theorem Changes.lastOf_none (hc : Changes serverID db db' e h added)
    (hnot : ¬ supersedes serverID p db e) (hl : lastOf serverID p db = none) :
    lastOf serverID p db' = none := by
  refine latest_eq_none.mpr (List.filter_eq_nil_iff.mpr fun q' hq' hp => ?_)
  cases hc.mem hq' with
  | inl hq =>
    obtain ⟨q, hq, hqq'⟩ := hq
    have hmem := hc.mem_kind hq hqq' hp
    rw [latest_eq_none.mp hl] at hmem
    exact List.not_mem_nil hmem
  | inr hq =>
    obtain ⟨q, hq, _⟩ := hc.added_before hnot hq hp
    exact absurd (hl.symm.trans hq) (Option.some_ne_none q).symm

theorem Changes.lastOf_some (hc : Changes serverID db db' e h added) (hw' : WellFormed db')
    (hnot : ¬ supersedes serverID p db e) {q : RoundRow F} (hl : lastOf serverID p db = some q) :
    ∃ q', lastOf serverID p db' = some q' ∧ Kept serverID db e q q' := by
  obtain ⟨hqm, hmax⟩ := latest_eq_some hl
  obtain ⟨hqm, hqp⟩ := List.mem_filter.mp hqm
  obtain ⟨q', hqq', hk⟩ := hc.kept q hqm (not_rewrites_last hnot hl)
  have hkey := hc.key q q' hqq'
  have hq' := hc.mem_of_eq hqm hqq'
  refine ⟨q', latest_of_max ?_ ?_ ?_, hk⟩
  · refine List.mem_filter.mpr ⟨hq', ?_⟩
    rw [(finishedAt_of_key hkey).2]
    exact hqp
  · intro r' hr'
    obtain ⟨hr', hp⟩ := List.mem_filter.mp hr'
    rw [hkey]
    cases hc.mem hr' with
    | inl hr =>
      obtain ⟨r, hr, hrr'⟩ := hr
      rw [hc.key r r' hrr']
      exact hmax r (hc.mem_kind hr hrr' hp)
    | inr hr =>
      obtain ⟨g, hg, hlt⟩ := hc.added_before hnot hr hp
      obtain rfl := Option.some.inj (hl.symm.trans hg)
      exact timeKey_le.mpr (.inl hlt)
  · intro r' hr' he
    exact List.inj_on_of_nodup_map (formal_ids hw' serverID) (List.mem_filter.mp hr').1 hq'
      (finishedAt_of_key he).1

/-- The last round of a kind stays the last one, unless a transaction supersedes it. -/
theorem Changes.lastOf (hc : Changes serverID db db' e h added) (hw' : WellFormed db')
    (hnot : ¬ supersedes serverID p db e) {β : Type} {g : RoundRow F → β}
    (hg : ∀ q, lastOf serverID p db = some q → ∀ q', Kept serverID db e q q' → g q' = g q) :
    (Untouched.lastOf serverID p db').map g = (Untouched.lastOf serverID p db).map g := by
  cases hl : Untouched.lastOf serverID p db with
  | none => rw [hc.lastOf_none hnot hl]
  | some q =>
    obtain ⟨q', hq', hk⟩ := hc.lastOf_some hw' hnot hl
    rw [hq', Option.map_some, Option.map_some, hg q hl q' hk]

theorem Changes.rows (hc : Changes serverID db db' e h added) {β : Type} {g : RoundRow F → β}
    (hadd : ∀ v, e = .saveRound v → isScheduled serverID v = true → p v.finishedAt = false)
    (hkept : ∀ q ∈ formal serverID db.rounds, p q.finishedAt = true →
      ¬ rewrites db q e ∧ ∀ q', Kept serverID db e q q' → g q' = g q) :
    ((formal serverID db'.rounds).filter fun r => p r.finishedAt).map g =
      ((formal serverID db.rounds).filter fun r => p r.finishedAt).map g := by
  have hadded : added.filter (fun r => p r.finishedAt) = [] := by
    apply filter_none
    intro r hr
    obtain ⟨v, he, hv, rfl⟩ := hc.added r hr
    exact hadd v he hv
  have hrow : ∀ q ∈ formal serverID db.rounds,
      ((h q).filter fun r => p r.finishedAt).map g =
        if p q.finishedAt then some (g q) else none := by
    intro q hq
    cases hp : p q.finishedAt with
    | false =>
      cases hqq' : h q with
      | none => rfl
      | some q' => simp [Option.filter, (finishedAt_of_key (hc.key q q' hqq')).2, hp]
    | true =>
      obtain ⟨hnot, hsame⟩ := hkept q hq hp
      obtain ⟨q', hqq', hk⟩ := hc.kept q hq hnot
      rw [hqq']
      simp [Option.filter, (finishedAt_of_key (hc.key q q' hqq')).2, hp, hsame q' hk]
  rw [hc.rounds, List.filter_append, hadded, List.append_nil, List.filter_filterMap,
    List.map_filterMap, List.filterMap_congr hrow, ← List.filterMap_eq_filter, List.map_filterMap]
  apply List.filterMap_congr
  intro q _
  cases hp : p q.finishedAt <;> simp [Option.guard, hp]

theorem counted_apply (hw : WellFormed db) (he : isWriter e = true)
    (h : ¬ moves serverID since now db e) (hs : apply db e = .ok db') :
    (windowRounds db' serverID since now).map (plain now) =
        (windowRounds db serverID since now).map (plain now) ∧
      (lastOf serverID (· < since) db').map (plain now) =
        (lastOf serverID (· < since) db).map (plain now) := by
  obtain ⟨g, added, hc⟩ := changes_apply serverID hw he hs
  have hplain : ∀ q, IsRead serverID since now db q → ∀ q', Kept serverID db e q q' →
      plain now q' = plain now q := by
    intro q hq q' hk
    apply plain_of_kept hk
    rintro v rfl hv hlast
    by_contra hne
    exact h ⟨hv, .inr (.inr ⟨q, hq, hlast, hne⟩)⟩
  constructor
  · apply hc.rows (p := fun t => since ≤ t && t ≤ now)
    · rintro v rfl hv
      by_contra hp
      simp only [Bool.not_eq_false, Bool.and_eq_true, decide_eq_true_eq] at hp
      exact h ⟨hv, .inl hp⟩
    · intro q hq hp
      have hread : IsRead serverID since now db q := .inl (List.mem_filter.mpr ⟨hq, hp⟩)
      exact ⟨read_window h hread, hplain q hread⟩
  · refine hc.lastOf (wellFormed_apply hw hs) (fun hsup => ?_) fun q hl => hplain q (.inr hl)
    cases e with
    | saveRound v =>
      obtain ⟨hv, hp, hmax⟩ := hsup
      exact h ⟨hv, .inr (.inl ⟨of_decide_eq_true hp, hmax⟩)⟩
    | _ =>
      obtain ⟨q, hq, hr⟩ := hsup
      exact h ⟨q, .inr hq, hr⟩

theorem last_apply {p : Int → Bool} (hw : WellFormed db) (he : isWriter e = true)
    (h : ¬ supersedes serverID p db e) (hs : apply db e = .ok db') :
    (lastOf serverID p db').map core = (lastOf serverID p db).map core := by
  obtain ⟨g, added, hc⟩ := changes_apply serverID hw he hs
  exact hc.lastOf (wellFormed_apply hw hs) h fun q _ q' hk => hk.1

theorem verdicts_apply (hw : WellFormed db) (he : isWriter e = true) (hs : apply db e = .ok db')
    {q : RoundRow F} (hq : q ∈ db.rounds) (hnot : ¬ rewrites db q e)
    (hsame : ∀ at' v, e = .saveOverride at' v → ∀ r ∈ db.results, r.roundID = q.id →
      isOf (normalizeOverride at' v).serverID (normalizeOverride at' v).domain
        (normalizeOverride at' v).type r = true → overriddenCode v.verdict r = r.effectivePollution) :
    verdicts db' q.id = verdicts db q.id := by
  cases e with
  | saveRound v =>
    obtain ⟨_, _, _, snapshots, rfl⟩ := saveRound_ok hs
    have hlt := newRoundID_fresh hq
    exact congrArg _ (results_insertRound_other v (by omega))
  | saveOverride at' v =>
    rw [(saveOverride_ok hs).2, verdicts, putOverride]
    dsimp only
    rw [filter_update fun _ => by rfl, verdicts]
    apply map_update_of
    intro r hr hof
    obtain ⟨hr, hid⟩ := List.mem_filter.mp hr
    exact congrArg (Prod.mk r.type) (hsame at' v rfl r hr (of_decide_eq_true hid) hof)
  | cleanup before t =>
    cases t with
    | dropRounds ids =>
      injection hs with hs
      rw [← hs, verdicts, verdicts]
      congr 1
      apply filter_delete
      intro r _ hr
      rw [of_decide_eq_true hr]
      refine (isGone_eq hw hq).trans ?_
      simpa [rewrites] using hnot
    | pruneResults ids => exact verdicts_rebuildPartial hnot hs
    | pruneReferences ids =>
      obtain rfl := pruneReferences_ok hs
      rw [verdicts, filter_update fun _ => by rfl, verdicts]
      exact map_update (fun _ => by rfl) _
    | _ =>
      injection hs with hs
      rw [← hs]
      rfl
  | _ => cases he

theorem severity_apply (hw : WellFormed db) (he : isWriter e = true)
    (h : ¬ judges serverID since now db e) (hs : apply db e = .ok db') :
    severity db' serverID since now = severity db serverID since now := by
  have hsup : ¬ supersedes serverID (fun t => since ≤ t && t ≤ now) db e := by
    intro hsup
    cases e with
    | saveOverride at' v =>
      obtain ⟨_, _, hr⟩ := hsup
      exact hr
    | _ => exact h hsup
  have hlast := last_apply hw he hsup hs
  rw [severity_last, severity_last]
  cases hl : lastOf serverID (fun t => since ≤ t && t ≤ now) db with
  | none =>
    rw [hl, Option.map_none, Option.map_eq_none_iff] at hlast
    rw [hlast]
    rfl
  | some q =>
    rw [hl, Option.map_some] at hlast
    obtain ⟨q', hq', hcore⟩ := Option.map_eq_some_iff.mp hlast
    have hid := congrArg RoundRow.id hcore
    change q'.id = q.id at hid
    have hq := (mem_formal.mp (List.mem_filter.mp (latest_eq_some hl).1).1).1
    rw [hq', Option.elim_some, Option.elim_some, judged_verdicts, judged_verdicts, hid,
      verdicts_apply hw he hs hq (not_rewrites_last hsup hl)]
    rintro at' v rfl r hr hrid hof
    by_contra hne
    exact h ⟨q, hl, r, hr, hrid, hof, hne⟩

theorem isUnreachable_apply (hw : WellFormed db) (he : isWriter e = true)
    (h : ¬ supersedes serverID (· ≤ now) db e) (hs : apply db e = .ok db') :
    isUnreachable db' serverID now = isUnreachable db serverID now := by
  rw [isUnreachable_last, last_apply hw he h hs, ← isUnreachable_last]

end

section

variable {F : Type} {serverID since now : Int} {a b : DB F}

def counted (serverID since now : Int) (db : DB F) :
    List (RoundRow F) × Option (RoundRow F) :=
  ((windowRounds db serverID since now).map (plain now),
    (lastOf serverID (· < since) db).map (plain now))

theorem map_of_plain {β : Type} {g : RoundRow F → β} (hg : ∀ r, g (plain now r) = g r)
    {rows rows' : List (RoundRow F)} (h : rows'.map (plain now) = rows.map (plain now)) :
    rows'.map g = rows.map g := by
  have hkey : ∀ rows : List (RoundRow F), rows.map g = (rows.map (plain now)).map g := by
    intro rows
    rw [List.map_map]
    exact List.map_congr_left fun r _ => (hg r).symm
  rw [hkey rows', h, ← hkey rows]

theorem eligible_plain (hs : since < now)
    (h : counted serverID since now b = counted serverID since now a) :
    (eligible b serverID since now).map (plain now) =
      (eligible a serverID since now).map (plain now) := by
  obtain ⟨hwindow, hlast⟩ := Prod.mk.inj h
  have hcross : ∀ db : DB F, (crossingRound db serverID since).map (plain now) =
      (((lastOf serverID (· < since) db).map (plain now)).filter
        fun r => since < r.coveredUntil).toList := by
    intro db
    have hbefore : latest timeKey ((formal serverID db.rounds).filter (·.finishedAt < since)) =
        lastOf serverID (· < since) db := rfl
    rw [crossingRound, hbefore]
    cases lastOf serverID (· < since) db with
    | none => rfl
    | some r =>
      have hcov : since < r.coveredUntil ↔ since < (plain now r).coveredUntil := by
        simp [plain, hs]
      dsimp only
      by_cases hc : since < r.coveredUntil
      · simp [Option.filter, hc, hcov.mp hc]
      · simp [Option.filter, hc, mt hcov.mpr hc]
  rw [eligible, eligible, List.map_append, List.map_append, hwindow, hcross, hcross, hlast]

theorem overlap_plain (since : Int) (r : RoundRow F) :
    overlap since now (plain now r) = overlap since now r := by
  simp [overlap, plain]

theorem qualityTime_counted (hs : since < now)
    (h : counted serverID since now b = counted serverID since now a) :
    qualityTime since (eligible b serverID since now) =
      qualityTime since (eligible a serverID since now) := by
  rw [qualityTime, qualityTime, map_of_plain (fun _ => rfl) (eligible_plain hs h)]

variable [GoFloat F]

theorem accumulate_counted {server : Server} (hs : since < now)
    (h : counted server.id since now b = counted server.id since now a) :
    accumulate b server since now =
      { accumulate a server since now with
        buckets := bucketsIn b server.id since now
        pollution := (accumulate b server since now).pollution } := by
  have hrows := eligible_plain hs h
  have hcovered : coveredMS b server.id since now = coveredMS a server.id since now := by
    rw [coveredMS, coveredMS, map_of_plain (overlap_plain since) hrows]
  have hcount : ∀ count : RoundRow F → Nat, (∀ r, count (plain now r) = count r) →
      countIn since count (eligible b server.id since now) =
        countIn since count (eligible a server.id since now) := by
    intro count hc
    rw [countIn, countIn, map_of_plain _ hrows]
    intro r
    rw [hc]
    rfl
  have havailable : availableMS b server.id since now = availableMS a server.id since now := by
    rw [availableMS, availableMS, map_of_plain _ hrows]
    intro r
    rw [overlap_plain]
    rfl
  have hsum : latencySumIn since (eligible b server.id since now) =
      latencySumIn since (eligible a server.id since now) := by
    rw [latencySumIn, latencySumIn, map_of_plain (fun _ => rfl) hrows]
  simp only [accumulate, hcovered, havailable, hsum, hcount (·.samples) fun _ => rfl,
    hcount (·.received) fun _ => rfl, hcount (·.successes) fun _ => rfl,
    hcount (·.latencyCount) fun _ => rfl]

end

end DnsMonitor.Store.Untouched

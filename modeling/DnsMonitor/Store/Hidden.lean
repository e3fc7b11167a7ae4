import DnsMonitor.Store.Bundles

namespace DnsMonitor.Store.Hidden

open DnsMonitor.Model DnsMonitor.Lib DnsMonitor.Lib.Tables DnsMonitor.Store.Schema
open DnsMonitor.Store.Current DnsMonitor.Store.Rounds DnsMonitor.Store.Override
open DnsMonitor.Store.Cleanup DnsMonitor.Store.Servers DnsMonitor.Store.Migration
open DnsMonitor.Store.References
open DnsMonitor.Store.Run DnsMonitor.Store.WellFormed DnsMonitor.Store.Retained
open DnsMonitor.Store.Partial DnsMonitor.Store.Retention DnsMonitor.Store.Schedule
open DnsMonitor.Store.View DnsMonitor.Store.Owners DnsMonitor.Store.Bundles
open DnsMonitor.Go.Strings DnsMonitor.Go.Unicode DnsMonitor.Go.Errors DnsMonitor.Go.Float

section

variable {F : Type}

def renamed (f : Int → Int) (q : RoundRow F) : RoundRow F := { q with id := f q.id }

def renamedSnapshot (f : Int → Int) (s : SnapshotRow F) : SnapshotRow F :=
  { s with roundID := f s.roundID }

def Bundle.renamed (f : Int → Int) (x : Bundle F) : Bundle F :=
  { x with round := Hidden.renamed f x.round }

def rest (db : DB F) :=
  (db.config, db.servers, db.serverSeq, db.overrides, db.overrideAudit, db.trustedObservations)

/-- The second database has the scheduled rounds of the first under other ids. -/
structure SameSchedule (f : Int → Int) (a b : DB F) : Prop where
  others : rest b = rest a
  schedule : bundles b = (bundles a).map (Bundle.renamed f)
  ids : ∀ q ∈ scheduled a.rounds, ∀ r ∈ scheduled a.rounds, f q.id < f r.id ↔ q.id < r.id
  snapshots : b.evaluationSnapshots = a.evaluationSnapshots.map (renamedSnapshot f)

theorem sameSchedule_refl (db : DB F) : SameSchedule id db db where
  others := rfl
  schedule := (List.map_id _).symm
  ids _ _ _ _ := Iff.rfl
  snapshots := (List.map_id _).symm

variable {f : Int → Int} {a b a' b' : DB F}

theorem SameSchedule.rounds (h : SameSchedule f a b) :
    scheduled b.rounds = (scheduled a.rounds).map (renamed f) := by
  have hkey : ∀ db : DB F, scheduled db.rounds = (bundles db).map (·.round) := by
    intro db
    rw [bundles, List.map_map]
    exact (List.map_id _).symm
  rw [hkey b, h.schedule, hkey a, List.map_map, List.map_map]
  rfl

theorem SameSchedule.bundle_renamed (h : SameSchedule f a b) {q : RoundRow F}
    (hq : q ∈ scheduled a.rounds) : bundle b (renamed f q) = Bundle.renamed f (bundle a q) := by
  have hmap := h.schedule
  rw [bundles, bundles, h.rounds, List.map_map, List.map_map] at hmap
  exact List.map_inj_left.mp hmap q hq

theorem SameSchedule.bundle_eq (h : SameSchedule f a b) {q : RoundRow F}
    (hq : q ∈ scheduled a.rounds) :
    resultsOf b (f q.id) = resultsOf a q.id ∧ bucketsOf b (f q.id) = bucketsOf a q.id :=
  ⟨congrArg Bundle.results (h.bundle_renamed hq), congrArg Bundle.buckets (h.bundle_renamed hq)⟩

theorem SameSchedule.mem (h : SameSchedule f a b) {q : RoundRow F} (hq : q ∈ scheduled a.rounds) :
    renamed f q ∈ scheduled b.rounds := by
  rw [h.rounds]
  exact List.mem_map_of_mem hq

theorem SameSchedule.findServer_eq (h : SameSchedule f a b) (id : Int) :
    findServer b id = findServer a id := by
  have hservers : b.servers = a.servers := congrArg (·.2.1) h.others
  rw [findServer, hservers, findServer]

theorem SameSchedule.formal_eq (h : SameSchedule f a b) (serverID : Int) :
    formal serverID b.rounds = (formal serverID a.rounds).map (renamed f) := by
  rw [formal_scheduled, formal_scheduled, h.rounds, List.filter_map]
  rfl

theorem SameSchedule.ids_formal (h : SameSchedule f a b) (serverID : Int) :
    ∀ q ∈ formal serverID a.rounds, ∀ r ∈ formal serverID a.rounds,
      f q.id < f r.id ↔ q.id < r.id := by
  rw [formal_scheduled]
  exact fun q hq r hr => h.ids q (List.mem_filter.mp hq).1 r (List.mem_filter.mp hr).1

theorem SameSchedule.sameView (h : SameSchedule f a b) (serverID now : Int) :
    SameView f serverID now a b where
  rounds := by
    rw [past, past, h.formal_eq, List.filter_map, List.map_map]
    rfl
  ids q hq r hr := h.ids_formal serverID q (List.mem_filter.mp hq).1 r (List.mem_filter.mp hr).1
  buckets q hq := by
    have hq := (List.mem_filter.mp hq).1
    rw [formal_scheduled] at hq
    exact (h.bundle_eq (List.mem_filter.mp hq).1).2
  judged q hq := by
    have hq := (List.mem_filter.mp hq).1
    rw [formal_scheduled] at hq
    have hkey : ∀ (db : DB F) id, (judged db id).map (·.effectivePollution) =
        ((resultsOf db id).filter fun r => r.type = str "A" || 0 < r.effectivePollution).map
          (·.effectivePollution) := by
      intro db id
      rw [resultsOf, List.filter_map, List.map_map, List.filter_filter, judged]
      congr 1
      apply List.filter_congr
      intro r _
      exact Bool.and_comm _ _
    rw [hkey, hkey, (h.bundle_eq (List.mem_filter.mp hq).1).1]

theorem ids_of_rounds (h : SameSchedule f a b)
    (hr : ∀ q ∈ scheduled a'.rounds, ∃ q' ∈ scheduled a.rounds, q'.id = q.id) :
    ∀ q ∈ scheduled a'.rounds, ∀ r ∈ scheduled a'.rounds, f q.id < f r.id ↔ q.id < r.id := by
  intro q hq r hr'
  obtain ⟨q', hq', hqid⟩ := hr q hq
  obtain ⟨r', hr', hrid⟩ := hr r hr'
  rw [← hqid, ← hrid]
  exact h.ids q' hq' r' hr'

theorem SameSchedule.snapshots_delete (h : SameSchedule f a b) (ho : Origins a)
    {p p' : SnapshotRow F → Bool}
    (hp : ∀ s, ∀ q ∈ scheduled a.rounds, q.id = s.roundID → p' (renamedSnapshot f s) = p s) :
    delete p' b.evaluationSnapshots = (delete p a.evaluationSnapshots).map (renamedSnapshot f) := by
  rw [h.snapshots, delete, delete, List.filter_map]
  congr 1
  apply List.filter_congr
  intro s hs
  obtain ⟨q, hq, hid⟩ := ho.snapshot s hs
  simp only [Function.comp_apply, hp s q hq hid]

theorem sameSchedule_deleteRounds (h : SameSchedule f a b) (hwa : WellFormed a)
    (hwb : WellFormed b) (ho : Origins a) {p : RoundRow F → Bool}
    (hp : ∀ q, p (renamed f q) = p q) :
    SameSchedule f (deleteRounds p a) (deleteRounds p b) where
  others := h.others
  schedule := by
    rw [bundles_deleteRounds hwa, bundles_deleteRounds hwb, h.schedule, List.filter_map]
    congr 2
    funext x
    exact congrArg _ (hp x.round)
  ids := by
    apply ids_of_rounds h
    intro q hq
    change q ∈ scheduled (delete p a.rounds) at hq
    rw [scheduled_delete] at hq
    exact ⟨q, (List.mem_filter.mp hq).1, rfl⟩
  snapshots := by
    apply h.snapshots_delete ho
    intro s q hq hid
    have hqa := (mem_scheduled.mp hq).1
    have hqb := (mem_scheduled.mp (h.mem hq)).1
    have hga := isGone_eq (p := p) hwa hqa
    have hgb := isGone_eq (p := p) hwb hqb
    rw [hid] at hga
    rw [hp, ← hga] at hgb
    have hfid : (renamed f q).id = (renamedSnapshot f s).roundID := congrArg f hid
    rw [← hfid]
    exact hgb

theorem sameSchedule_deleteServerRows (h : SameSchedule f a b) (hwa : WellFormed a)
    (hwb : WellFormed b) (ho : Origins a) (id : Int) :
    SameSchedule f (deleteServerRows id a) (deleteServerRows id b) := by
  have hd := sameSchedule_deleteRounds (p := fun q => q.serverID = id) h hwa hwb ho fun _ => rfl
  refine ⟨?_, ?_, hd.ids, ?_⟩
  · have hr := h.others
    simp only [rest, Prod.mk.injEq] at hr
    obtain ⟨hconfig, hservers, hseq, hoverrides, haudit, hobservations⟩ := hr
    simp only [rest, deleteServerRows, deleteRounds, hconfig, hservers, hseq, hoverrides, haudit,
      hobservations]
  · rw [bundles_deleteServerRows hwa, bundles_deleteServerRows hwb, h.schedule, List.filter_map]
    rfl
  · apply hd.snapshots_delete (origins_deleteRounds ho _)
    intro s _ _ _
    rfl

theorem override_renamed (v : Override) (x : Bundle F) :
    (Bundle.renamed f x).override v = Bundle.renamed f (x.override v) := by
  have hround : ∀ (c : Bool) (n : Nat),
      (if c then { renamed f x.round with pollution := n } else renamed f x.round) =
        renamed f (if c then { x.round with pollution := n } else x.round) := by
    intro c n
    split_ifs <;> rfl
  exact congrArg (fun q => (⟨q, (x.override v).results, x.buckets⟩ : Bundle F)) (hround _ _)

theorem sameSchedule_putOverride (h : SameSchedule f a b) (v : Override) :
    SameSchedule f (putOverride a v) (putOverride b v) where
  others := by
    have hr := h.others
    simp only [rest, Prod.mk.injEq] at hr
    obtain ⟨hconfig, hservers, hseq, hoverrides, haudit, hobservations⟩ := hr
    simp only [rest, putOverride, hconfig, hservers, hseq, hoverrides, haudit, hobservations]
  schedule := by
    rw [bundles_putOverride, bundles_putOverride, h.schedule, List.map_map, List.map_map]
    congr 1
    funext x
    exact override_renamed v x
  ids := by
    apply ids_of_rounds h
    intro q hq
    obtain ⟨hq, ha⟩ := mem_scheduled.mp hq
    obtain ⟨q', hq', rfl⟩ := mem_update.mp hq
    refine ⟨q', mem_scheduled.mpr ⟨hq', ?_⟩, ?_⟩
    · split_ifs at ha <;> exact ha
    · split_ifs <;> rfl
  snapshots := h.snapshots

def withRounds (b db : DB F) : DB F :=
  { db with
    rounds := b.rounds
    results := b.results
    resultSeq := b.resultSeq
    latencyBuckets := b.latencyBuckets
    evaluationSnapshots := b.evaluationSnapshots }

theorem withRounds_view (b : DB F) : ServerView (withRounds b) where
  servers _ := rfl
  serverSeq _ := rfl
  insert _ _ _ := rfl
  update _ _ := rfl

theorem withRounds_of_rest (h : rest b = rest a) : withRounds b a = b := by
  simp only [rest, Prod.mk.injEq] at h
  obtain ⟨hconfig, hservers, hseq, hoverrides, haudit, hobservations⟩ := h
  simp only [withRounds, ← hconfig, ← hservers, ← hseq, ← hoverrides, ← haudit, ← hobservations]

theorem SameSchedule.withRounds (h : SameSchedule f a b) (db : DB F) :
    SameSchedule f (withRounds a db) (withRounds b db) where
  others := rfl
  schedule := h.schedule
  ids := h.ids
  snapshots := h.snapshots

/-- Two outcomes of a call: the same error, or two such databases again. -/
def Alike (x y : Except StoreError (DB F)) : Prop :=
  (∃ e, x = .error e ∧ y = .error e) ∨
    ∃ f a b, x = .ok a ∧ y = .ok b ∧ SameSchedule f a b

theorem alike_bind {α : Type} (x : Except StoreError α) {g g' : α → Except StoreError (DB F)}
    (h : ∀ r, Alike (g r) (g' r)) : Alike (x >>= g) (x >>= g') := by
  cases x with
  | error e => exact .inl ⟨e, rfl, rfl⟩
  | ok r => exact h r

theorem sameSchedule_view (h : SameSchedule f a b) (call : DB F → Except StoreError (DB F))
    (hview : ∀ b db : DB F, (call db).map (Hidden.withRounds b) = call (Hidden.withRounds b db)) :
    Alike (call a) (call b) := by
  have hb := hview b a
  have ha := hview a a
  rw [withRounds_of_rest h.others] at hb
  rw [withRounds_of_rest rfl] at ha
  cases hc : call a with
  | error e =>
    rw [hc] at hb
    exact .inl ⟨e, rfl, hb.symm⟩
  | ok a' =>
    rw [hc] at ha hb
    have hsame := h.withRounds a'
    rw [Except.ok.inj ha] at hsame
    exact .inr ⟨f, a', _, rfl, hb.symm, hsame⟩

end

section

variable {F : Type} [GoFloat F] {f : Int → Int} {a b : DB F}

theorem alike_saveConfig (h : SameSchedule f a b) (c : Config F) :
    Alike (saveConfig a c) (saveConfig b c) := by
  apply sameSchedule_view h
  intro b db
  simp only [saveConfig, exceptMap_bind]
  rfl

variable [CaseTables]

omit [GoFloat F] in
theorem saveTrustedObservation_view (b db : DB F) (server : Server) (result : ProbeResult F) :
    saveTrustedObservation (withRounds b db) server result =
      withRounds b (saveTrustedObservation db server result) :=
  (saveTrustedObservation_commutes (g := withRounds b) (fun _ => rfl) (fun _ => rfl)
    (fun _ _ => rfl) db server result).symm

theorem SameSchedule.extra (h : SameSchedule f a b) {v : Round F} (hv : v.auxiliary = true) :
    SameSchedule f a (insertRound b v) where
  others := h.others
  schedule := by rw [bundles_auxiliary hv, h.schedule]
  ids := h.ids
  snapshots := h.snapshots

theorem SameSchedule.auxiliary (h : SameSchedule f a b) {v : Round F} (hv : v.auxiliary = true) :
    SameSchedule f (insertRound a v) (insertRound b v) where
  others := h.others
  schedule := by rw [bundles_auxiliary hv, bundles_auxiliary hv, h.schedule]
  ids := by
    rw [scheduled_auxiliary hv]
    exact h.ids
  snapshots := h.snapshots

def extended (f : Int → Int) (a b : DB F) : Int → Int :=
  Function.update f (newRoundID a) (newRoundID b)

omit [GoFloat F] [CaseTables] in
theorem extended_old (f : Int → Int) (b : DB F) {q : RoundRow F} (hq : q ∈ a.rounds) :
    extended f a b q.id = f q.id := by
  have hlt := newRoundID_fresh hq
  exact Function.update_of_ne (by omega) _ _

omit [GoFloat F] [CaseTables] in
theorem extended_new (f : Int → Int) (a b : DB F) : extended f a b (newRoundID a) = newRoundID b :=
  Function.update_self _ _ _

omit [GoFloat F] [CaseTables] in
theorem cut_ids (v : Round F) (rows : List (RoundRow F)) :
    (cutOff v rows).map (·.id) = rows.map (·.id) := by
  rw [cutOff]
  split
  · exact map_update (fun _ => by rfl) _
  · rfl

omit [GoFloat F] [CaseTables] in
theorem cut_renamed {rows : List (RoundRow F)} (v : Round F)
    (hids : ∀ q ∈ rows, ∀ r ∈ rows, f q.id < f r.id ↔ q.id < r.id) :
    cutOff v (rows.map (renamed f)) = (cutOff v rows).map (renamed f) := by
  have hfilter : (rows.map (renamed f)).filter
      (fun q => q.serverID = v.serverID && q.finishedAt ≤ v.finishedAt) =
      (rows.filter fun q => q.serverID = v.serverID && q.finishedAt ≤ v.finishedAt).map
        (renamed f) := by
    rw [List.filter_map]
    rfl
  have hlatest : latest timeKey ((rows.filter fun q =>
      q.serverID = v.serverID && q.finishedAt ≤ v.finishedAt).map (renamed f)) =
      (latest timeKey (rows.filter fun q =>
        q.serverID = v.serverID && q.finishedAt ≤ v.finishedAt)).map (renamed f) := by
    apply latest_map_of
    intro q hq r hr
    simp only [timeKey_lt, renamed, hids q (List.mem_filter.mp hq).1 r (List.mem_filter.mp hr).1]
  rw [cutOff, cutOff, hfilter, hlatest]
  cases hp : latest timeKey (rows.filter fun q =>
      q.serverID = v.serverID && q.finishedAt ≤ v.finishedAt) with
  | none => rfl
  | some p =>
    have hpm := (List.mem_filter.mp (latest_eq_some hp).1).1
    rw [Option.map_some]
    dsimp only
    rw [truncate, truncate, update, update, List.map_map, List.map_map]
    apply List.map_congr_left
    intro q hq
    have hpq := hids p hpm q hq
    have hqp := hids q hq p hpm
    have hid : (renamed f q).id = (renamed f p).id ↔ q.id = p.id := by
      simp only [renamed]
      omega
    simp only [Function.comp_apply, decide_eq_true_eq, hid]
    split_ifs <;> rfl

omit [GoFloat F] [CaseTables] in
theorem coveredUntil_renamed {rows rows' : List (RoundRow F)} (v : Round F)
    (h : formal v.serverID rows' = (formal v.serverID rows).map (renamed f)) :
    coveredUntil rows' v = coveredUntil rows v := by
  rw [coveredUntil, coveredUntil, h, List.map_map]
  rfl

theorem newRound_renamed (h : SameSchedule f a b) (v : Round F) :
    newRound b v = renamed (extended f a b) (newRound a v) := by
  have hoverrides : b.overrides = a.overrides := congrArg (·.2.2.2.1) h.others
  have hworst : maxOf (·.effectivePollution) (newResults b v) =
      maxOf (·.effectivePollution) (newResults a v) := by
    have hkey : ∀ overrides roundID seq, maxOf (·.effectivePollution)
        (resultRows overrides roundID v seq v.results) = maxOf (·.effectivePollution)
          ((resultRows overrides roundID v seq v.results).map bareRow) := by
      intro overrides roundID seq
      rw [maxOf_map]
      rfl
    rw [newResults, newResults, hkey, hoverrides, bare_resultRows _ _ (newRoundID a) _ a.resultSeq,
      ← hkey]
  rw [newRound, newRound, hworst, roundRow, roundRow, coveredUntil_renamed v (h.formal_eq _)]
  simp only [renamed, extended_new]

omit [GoFloat F] [CaseTables] in
theorem SameSchedule.snapshots_extended (h : SameSchedule f a b) (ho : Origins a) :
    b.evaluationSnapshots = a.evaluationSnapshots.map (renamedSnapshot (extended f a b)) := by
  rw [h.snapshots]
  apply List.map_congr_left
  intro s hs
  obtain ⟨q, hq, hid⟩ := ho.snapshot s hs
  rw [renamedSnapshot, renamedSnapshot, ← hid, extended_old f b (mem_scheduled.mp hq).1]

omit [GoFloat F] [CaseTables] in
/-- The renaming may be extended to the next id of each. -/
theorem SameSchedule.extend (h : SameSchedule f a b) (ho : Origins a) :
    SameSchedule (extended f a b) a b where
  others := h.others
  schedule := by
    rw [h.schedule, bundles, List.map_map, List.map_map]
    apply List.map_congr_left
    intro q hq
    simp only [Function.comp_apply, Bundle.renamed, bundle, renamed,
      extended_old f b (mem_scheduled.mp hq).1]
  ids q hq r hr := by
    rw [extended_old f b (mem_scheduled.mp hq).1, extended_old f b (mem_scheduled.mp hr).1]
    exact h.ids q hq r hr
  snapshots := h.snapshots_extended ho

theorem mem_scheduled_insertRound {v : Round F} (hv : v.auxiliary = false) {q : RoundRow F}
    (hq : q ∈ scheduled (insertRound a v).rounds) :
    (∃ q' ∈ scheduled a.rounds, q'.id = q.id) ∨ q = newRound a v := by
  rw [scheduled_insertRound hv, List.mem_append, List.mem_singleton] at hq
  refine hq.imp (fun hcut => ?_) id
  have hid : q.id ∈ (scheduled a.rounds).map (·.id) := by
    rw [← cut_ids v]
    exact List.mem_map_of_mem hcut
  exact List.mem_map.mp hid

theorem SameSchedule.bundles_insertRound (h : SameSchedule f a b) (hwa : WellFormed a)
    (hwb : WellFormed b) (hoa : Origins a) (hob : Origins b) {v : Round F}
    (hv : v.auxiliary = false) :
    bundles (insertRound b v) =
      (bundles (insertRound a v)).map (Bundle.renamed (extended f a b)) := by
  have hg := h.extend hoa
  have hcut : scheduled (insertRound b v).rounds =
      (scheduled (insertRound a v).rounds).map (renamed (extended f a b)) := by
    rw [scheduled_insertRound hv, scheduled_insertRound hv, hg.rounds, cut_renamed v hg.ids,
      newRound_renamed h, List.map_append]
    rfl
  rw [bundles, hcut, bundles, List.map_map, List.map_map]
  apply List.map_congr_left
  intro q hq
  cases mem_scheduled_insertRound hv hq with
  | inl hold =>
    obtain ⟨q', hq', hid⟩ := hold
    obtain ⟨hresults, hbuckets⟩ := hg.bundle_eq hq'
    have hrenamed : (renamed (extended f a b) q).id = (renamed (extended f a b) q').id :=
      congrArg (extended f a b) hid.symm
    have ha := bundle_insertRound v (mem_scheduled.mp hq').1 hid.symm
    have hb := bundle_insertRound v (mem_scheduled.mp (hg.mem hq')).1 hrenamed
    rw [Function.comp_apply, Function.comp_apply, ha, hb]
    change (⟨_, resultsOf b (extended f a b q'.id), bucketsOf b (extended f a b q'.id)⟩ :
      Bundle F) = _
    rw [hresults, hbuckets]
    rfl
  | inr hnew =>
    have hoverrides : b.overrides = a.overrides := congrArg (·.2.2.2.1) h.others
    rw [Function.comp_apply, Function.comp_apply, hnew, ← newRound_renamed h,
      bundle_newRound hwa hoa, bundle_newRound hwb hob, newRound_renamed h, hoverrides]
    rfl

theorem SameSchedule.ids_insertRound (h : SameSchedule f a b) (hoa : Origins a) {v : Round F}
    (hv : v.auxiliary = false) :
    ∀ q ∈ scheduled (insertRound a v).rounds, ∀ r ∈ scheduled (insertRound a v).rounds,
      extended f a b q.id < extended f a b r.id ↔ q.id < r.id := by
  have hg := h.extend hoa
  have hsmall : ∀ q ∈ scheduled a.rounds, q.id < newRoundID a ∧
      extended f a b q.id < newRoundID b := fun q hq =>
    ⟨newRoundID_fresh (mem_scheduled.mp hq).1, newRoundID_fresh (mem_scheduled.mp (hg.mem hq)).1⟩
  have hnewid : (newRound a v).id = newRoundID a := rfl
  intro q hq r hr
  cases mem_scheduled_insertRound hv hq with
  | inl hq =>
    obtain ⟨q', hq', hqid⟩ := hq
    cases mem_scheduled_insertRound hv hr with
    | inl hr =>
      obtain ⟨r', hr', hrid⟩ := hr
      rw [← hqid, ← hrid]
      exact hg.ids q' hq' r' hr'
    | inr hnew =>
      have hs := hsmall q' hq'
      rw [hnew, hnewid, extended_new, ← hqid]
      omega
  | inr hnew =>
    rw [hnew, hnewid, extended_new]
    cases mem_scheduled_insertRound hv hr with
    | inl hr =>
      obtain ⟨r', hr', hrid⟩ := hr
      have hs := hsmall r' hr'
      rw [← hrid]
      omega
    | inr hnew =>
      rw [hnew, hnewid, extended_new]
      omega

/-- Saving a scheduled round in both adds the same bundle under the next id of each. -/
theorem sameSchedule_insertRound (h : SameSchedule f a b) (hwa : WellFormed a) (hwb : WellFormed b)
    (hoa : Origins a) (hob : Origins b) {v : Round F} (hv : v.auxiliary = false) :
    SameSchedule (extended f a b) (insertRound a v) (insertRound b v) where
  others := h.others
  schedule := h.bundles_insertRound hwa hwb hoa hob hv
  ids := h.ids_insertRound hoa hv
  snapshots := h.snapshots_extended hoa

theorem alike_saveRound (h : SameSchedule f a b) (ta : Tidy a) (tb : Tidy b) (v : Round F) :
    Alike (saveRound a v) (saveRound b v) := by
  simp only [saveRound, h.findServer_eq]
  apply alike_bind
  intro _
  apply alike_bind
  intro _
  apply alike_bind
  intro _
  by_cases hv : v.auxiliary = true
  · rw [if_pos hv, if_pos hv]
    exact .inr ⟨f, _, _, rfl, rfl, h.auxiliary hv⟩
  · rw [if_neg hv, if_neg hv]
    have hinsert := sameSchedule_insertRound h ta.wellFormed tb.wellFormed ta.origins tb.origins
      (Bool.eq_false_iff.mpr hv)
    have hconfig : (insertRound b v).config = (insertRound a v).config :=
      congrArg (·.1) h.others
    rw [saveEvaluationSnapshot, saveEvaluationSnapshot, hinsert.findServer_eq, hconfig]
    cases findServer (insertRound a v) v.serverID with
    | none => exact .inl ⟨_, rfl, rfl⟩
    | some server =>
      dsimp only
      rw [(hinsert.sameView server.id v.finishedAt).evaluateCurrent_eq]
      apply alike_bind
      intro _
      apply alike_bind
      intro _
      have hothers := hinsert.others
      simp only [rest, Prod.mk.injEq] at hothers
      refine .inr ⟨extended f a b, _, _, rfl, rfl, ?_, hinsert.schedule, hinsert.ids, ?_⟩
      · simp only [rest, Prod.mk.injEq]
        exact ⟨trivial, hothers.2⟩
      dsimp only
      rw [hinsert.snapshots, List.map_append, List.map_singleton, renamedSnapshot, extended_new]

omit [GoFloat F] in
theorem alike_saveOverride (h : SameSchedule f a b) (now : Int) (v : Override) :
    Alike (saveOverride a now v) (saveOverride b now v) := by
  have htrusted : ∀ v, checkTrusted b v = checkTrusted a v := by
    intro v
    rw [checkTrusted, checkTrusted, h.findServer_eq]
  simp only [saveOverride, h.findServer_eq, htrusted]
  apply alike_bind
  intro _
  apply alike_bind
  intro _
  apply alike_bind
  intro _
  apply alike_bind
  intro _
  exact .inr ⟨f, _, _, rfl, rfl, sameSchedule_putOverride h _⟩

omit [GoFloat F] [CaseTables] in
theorem alike_deleteServer (h : SameSchedule f a b) (hwa : WellFormed a) (hwb : WellFormed b)
    (ho : Origins a) (id : Int) : Alike (deleteServer a id) (deleteServer b id) := by
  rw [deleteServer, deleteServer, h.findServer_eq]
  cases findServer a id with
  | none => exact .inl ⟨_, rfl, rfl⟩
  | some _ => exact .inr ⟨f, _, _, rfl, rfl, sameSchedule_deleteServerRows h hwa hwb ho id⟩

theorem alike_apply (h : SameSchedule f a b) (ta : Tidy a) (tb : Tidy b) {e : Event F}
    (he : ∀ before t, e ≠ .cleanup before t) : Alike (apply a e) (apply b e) := by
  cases e with
  | saveConfig c => exact alike_saveConfig h c
  | saveServer now v =>
    exact sameSchedule_view h _ fun b db => saveServer_view (withRounds_view b) db now v
  | deleteServer id => exact alike_deleteServer h ta.wellFormed tb.wellFormed ta.origins id
  | importServers now snapshot items =>
    exact sameSchedule_view h _ fun b db => importServers_view (withRounds_view b) db now snapshot items
  | saveRound v => exact alike_saveRound h ta tb v
  | saveOverride now v => exact alike_saveOverride h now v
  | saveTrustedObservation server result =>
    apply sameSchedule_view h fun db => apply db (.saveTrustedObservation server result)
    intro b db
    simp only [apply, saveTrustedObservation_view]
    rfl
  | pruneTrustedReferences now hours =>
    apply sameSchedule_view h fun db => apply db (.pruneTrustedReferences now hours)
    intro b db
    rfl
  | cleanup before t => exact absurd rfl (he before t)

theorem sameSchedule_step (h : SameSchedule f a b) (ta : Tidy a) (tb : Tidy b) {e : Event F}
    (he : ∀ before t, e ≠ .cleanup before t) : ∃ f', SameSchedule f' (step a e) (step b e) := by
  cases alike_apply h ta tb he with
  | inl herror =>
    obtain ⟨_, ha, hb⟩ := herror
    simp only [step, ha, hb]
    exact ⟨f, h⟩
  | inr hok =>
    obtain ⟨f', a', b', ha, hb, h'⟩ := hok
    rw [step_of_ok ha, step_of_ok hb]
    exact ⟨f', h'⟩

omit [CaseTables] in
theorem settle_renamed (before : Int) (x : Bundle F) :
    (Bundle.renamed f x).settle before = (x.settle before).map (Bundle.renamed f) := by
  have hleft : (Bundle.renamed f x).left before = x.left before := rfl
  have hexpired : (Bundle.renamed f x).hasExpired before = x.hasExpired before := rfl
  simp only [Bundle.settle, hleft, hexpired]
  split_ifs <;> rfl

omit [GoFloat F] [CaseTables] in
theorem sameSchedule_prune (h : SameSchedule f a b) (before : Int) :
    SameSchedule f
      { pruneObservations before a with
        results := update (isOld before) (prunedResult before) a.results }
      { pruneObservations before b with
        results := update (isOld before) (prunedResult before) b.results } where
  others := by
    have hr := h.others
    simp only [rest, Prod.mk.injEq] at hr
    obtain ⟨hconfig, hservers, hseq, hoverrides, haudit, hobservations⟩ := hr
    simp only [rest, pruneObservations, hconfig, hservers, hseq, hoverrides, haudit, hobservations]
  schedule := by
    rw [bundles_prune, bundles_prune, h.schedule, List.map_map, List.map_map]
    rfl
  ids := h.ids
  snapshots := h.snapshots

def Bundle.isEmptied (before : Int) (x : Bundle F) : Bool :=
  x.hasExpired before && x.left before = []

omit [GoFloat F] [CaseTables] in
theorem isEmptied_eq (db : DB F) (before : Int) (q : RoundRow F) :
    isEmptied before db q.id = Bundle.isEmptied before (bundle db q) := by
  rw [isEmptied, Bundle.isEmptied, bundle_hasExpired, bundle_left]
  simp only [List.map_eq_nil_iff]

omit [CaseTables] in
theorem sameSchedule_settled {before : Int} {settled settled' : DB F} (h : SameSchedule f a b)
    (ho : Origins a) (hs : Settled before a settled) (hs' : Settled before b settled') :
    SameSchedule f settled settled' where
  others := by
    have ha : rest settled = rest a := by
      have hrest := congrArg rest hs.others
      exact hrest
    have hb : rest settled' = rest b := by
      have hrest := congrArg rest hs'.others
      exact hrest
    rw [ha, hb, h.others]
  schedule := by
    rw [bundles_settled hs, bundles_settled hs', h.schedule, List.filterMap_map,
      List.map_filterMap]
    congr 1
    funext x
    exact settle_renamed before x
  ids := by
    apply ids_of_rounds h
    intro q hq
    obtain ⟨hq, ha⟩ := mem_scheduled.mp hq
    rw [hs.rounds] at hq
    obtain ⟨q', hq', hsettled⟩ := List.mem_filterMap.mp hq
    rw [settledRound] at hsettled
    split_ifs at hsettled
    · obtain rfl := Option.some.inj hsettled
      exact ⟨q', mem_scheduled.mpr ⟨hq', ha⟩, rfl⟩
    · obtain rfl := Option.some.inj hsettled
      exact ⟨q', mem_scheduled.mpr ⟨hq', ha⟩, rfl⟩
  snapshots := by
    rw [hs.snapshots, hs'.snapshots]
    apply h.snapshots_delete ho
    intro s q hq hid
    have hfid : (renamed f q).id = (renamedSnapshot f s).roundID := congrArg f hid
    rw [← hfid, ← hid, isEmptied_eq, isEmptied_eq, h.bundle_renamed hq]
    rfl

end

end DnsMonitor.Store.Hidden

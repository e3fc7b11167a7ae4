import DnsMonitor.Monitor.Collecting

namespace DnsMonitor.Monitor.SingleFlight

open DnsMonitor.Model DnsMonitor.Lib DnsMonitor.Lib.Logs DnsMonitor.Store.Migration
open DnsMonitor.Store.WellFormed DnsMonitor.Store.References
open DnsMonitor.Store.Run (exampleServer)
open DnsMonitor.Monitor.Lookup (noResult)
open DnsMonitor.Monitor.Collector DnsMonitor.Monitor.Sweep DnsMonitor.Monitor.Collecting
open DnsMonitor.Go.Strings DnsMonitor.Go.Unicode DnsMonitor.Go.Float

section

variable {F : Type} {s t : System F} {i : Nat} {c : Caller F}

def Ready (now : Int) : Phase → Prop
  | .timed t => t ≤ now
  | .missed t _ => t ≤ now
  | .listed t _ trusted _ => t ≤ now ∧ (trusted.map (·.id)).Nodup
  | _ => True

theorem Ready.mono {now now' : Int} {phase : Phase} (h : Ready now phase) (hnow : now ≤ now') :
    Ready now' phase := by
  cases phase with
  | timed t => exact le_trans h hnow
  | missed t refs => exact le_trans h hnow
  | listed t refs trusted fingerprint => exact ⟨h.1.trans hnow, h.2⟩
  | _ => trivial

structure Sound (s : System F) : Prop where
  inv : Inv s
  wellFormed : WellFormed s.db
  ready : ∀ i c, s.callers i = some c → Ready s.now c.phase

theorem trustedSources_nodup {db : Store.Schema.DB F} (h : WellFormed db) :
    ((trustedSources db).map (·.id)).Nodup := by
  have hperm : ((trustedSources db).map (·.id)).Perm
      ((db.servers.filter fun s => s.enabled && s.trusted).map (·.id)) :=
    (List.perm_insertionSort _ _).map _
  exact hperm.nodup_iff.mpr (h.server_ids.sublist (List.filter_sublist.map _))

theorem ready_update {d : Caller F} (h : ∀ j e, s.callers j = some e → Ready s.now e.phase)
    (hcallers : t.callers = Function.update s.callers i (some d)) (hnow : t.now = s.now)
    (hd : Ready s.now d.phase) : ∀ j e, t.callers j = some e → Ready t.now e.phase := by
  intro j e he
  rw [hcallers, Function.update_apply] at he
  rw [hnow]
  split_ifs at he
  · cases he
    exact hd
  · exact h j e he

theorem sound_goto (h : Sound s) (hc : s.callers i = some c) {phase : Phase}
    (hbefore : workOf c.phase = none) (hafter : workOf phase = none)
    (hready : Ready s.now phase) : Sound (s.goto i c phase) where
  inv := h.inv.same (same_goto hc hbefore hafter)
  wellFormed := h.wellFormed
  ready := ready_update h.ready rfl rfl hready

theorem sound_entry (h : Sound s) (key : GoString) : Sound (s.entry key).1 := by
  obtain ⟨-, hcallers, -, hnow, hdb, -⟩ := entry_spec s key
  refine ⟨inv_entry h.inv key, hdb ▸ h.wellFormed, ?_⟩
  rw [hcallers, hnow]
  exact h.ready

/-- Under the lock a call gives up, joins another collection, waits for the next one to be due, or
collects. -/
theorem sound_lock (h : Sound s) (hc : s.callers i = some c) {now : Int} {refs : List Reference}
    {trusted : List Server} {fp : GoString} (hphase : c.phase = .listed now refs trusted fp) :
    Sound (lock s i c now refs trusted fp) := by
  have hbefore : workOf c.phase = none := by rw [hphase]; rfl
  have hready := h.ready i c hc
  rw [hphase] at hready
  obtain ⟨hnow, hnodup⟩ := hready
  unfold lock
  by_cases hzero : s.concurrency = 0
  · rw [if_pos hzero]
    exact sound_goto h hc hbefore rfl trivial
  · rw [if_neg hzero]
    obtain ⟨hp, hcallers, hconcurrency, htime, -, -⟩ := entry_spec s (referenceKey c.domain)
    have hentry := sound_entry h (referenceKey c.domain)
    generalize s.entry (referenceKey c.domain) = e at *
    obtain ⟨t, p⟩ := e
    have hct : t.callers i = some c := by rw [hcallers, hc]
    dsimp only at *
    split
    · exact sound_goto hentry hct hbefore rfl trivial
    · rename_i hfree
      split_ifs with hdue
      · exact sound_goto hentry hct hbefore rfl trivial
      · refine ⟨inv_begin hentry.inv hct hbefore hp hfree ?_ ?_ hdue refs hnodup,
          hentry.wellFormed, ready_update hentry.ready rfl rfl trivial⟩
        · rwa [hconcurrency]
        · rwa [htime]

variable [GoFloat F] [CaseTables]

inductive Collects (s : System F) (i : Nat) (c : Caller F) (w : Work) (stage : Stage) :
    System F → Prop where
  | finish (finished : Int) (late : Bool) : Collects s i c w stage (finish s i c w finished late)
  | turn (u : Turn) (h : Turned c.cancelled w stage u) :
      Collects s i c w stage (turnTo s i c w.done u)

theorem collect_cases {w : Work} {stage : Stage} {m : Move} (ha : collect s i c w stage m = some t) :
    Collects s i c w stage t := by
  unfold collect at ha
  split at ha
  · cases ha
    exact .finish _ _
  · obtain ⟨u, hu, rfl⟩ := Option.map_eq_some_iff.mp ha
    exact .turn u (turned hu)

inductive Advances (s : System F) (i : Nat) (c : Caller F) : System F → Prop where
  | quiet (phase : Phase) (hbefore : workOf c.phase = none) (hafter : workOf phase = none)
      (hready : WellFormed s.db → Ready s.now c.phase → Ready s.now phase) :
      Advances s i c (s.goto i c phase)
  | locks (now : Int) (refs : List Reference) (trusted : List Server) (fp : GoString)
      (hphase : c.phase = .listed now refs trusted fp) :
      Advances s i c (lock s i c now refs trusted fp)
  | collects (w : Work) (stage : Stage) (t : System F) (hphase : c.phase = .collecting w stage)
      (h : Collects s i c w stage t) : Advances s i c t

theorem advance_cases {digest : GoString → GoString} {m : Move}
    (ha : advance digest s i c m = some t) : Advances s i c t := by
  unfold advance at ha
  split at ha
  · rename_i hphase
    cases ha
    apply Advances.quiet _ (by rw [hphase]; rfl)
    · split_ifs <;> rfl
    · intro _ _
      split_ifs <;> trivial
  · rename_i hphase
    cases ha
    exact .quiet _ (by rw [hphase]; rfl) rfl fun _ _ => le_rfl
  · rename_i hphase
    cases ha
    apply Advances.quiet _ (by rw [hphase]; rfl)
    · split_ifs <;> rfl
    · intro _ hready
      rw [hphase] at hready
      split_ifs
      · trivial
      · trivial
      · exact hready
  · rename_i hphase
    cases ha
    apply Advances.quiet _ (by rw [hphase]; rfl)
    · split_ifs <;> rfl
    · intro hw hready
      rw [hphase] at hready
      split_ifs
      · trivial
      · exact ⟨hready, trustedSources_nodup hw⟩
  · rename_i hphase
    cases ha
    exact .locks _ _ _ _ hphase
  · rename_i hphase
    cases ha
    exact .quiet _ (by rw [hphase]; rfl) rfl fun _ _ => trivial
  · rename_i hphase
    cases ha
    apply Advances.quiet _ (by rw [hphase]; rfl)
    · split_ifs <;> rfl
    · intro _ _
      split_ifs <;> trivial
  · rename_i hphase
    split_ifs at ha
    cases ha
    exact .quiet _ (by rw [hphase]; rfl) rfl fun _ _ => trivial
  · rename_i hphase
    split_ifs at ha
    cases ha
    exact .quiet _ (by rw [hphase]; rfl) rfl fun _ _ => trivial
  · rename_i hphase
    exact .collects _ _ t hphase (collect_cases ha)
  · cases ha

theorem sound_advance {digest : GoString → GoString} (h : Sound s) (hc : s.callers i = some c)
    {m : Move} (ha : advance digest s i c m = some t) : Sound t := by
  cases advance_cases ha with
  | quiet phase hbefore hafter hready =>
    exact sound_goto h hc hbefore hafter (hready h.wellFormed (h.ready i c hc))
  | locks now refs trusted fp hphase => exact sound_lock h hc hphase
  | collects w stage t hphase hcollects =>
    cases hcollects with
    | finish finished late =>
      exact ⟨inv_finish h.inv hc hphase finished late, h.wellFormed,
        ready_update h.ready rfl rfl trivial⟩
    | turn u hu =>
      exact ⟨inv_turn h.inv hc hphase hu, h.wellFormed, ready_update h.ready rfl rfl trivial⟩

omit [GoFloat F] [CaseTables] in
theorem same_env (s : System F) {db : Store.Schema.DB F} {now : Int} {batch : Refresh.BatchState}
    {changed : Nat} (hgen : batch.cacheGeneration = s.batch.cacheGeneration) :
    Same s { s with db, now, batch, changed } :=
  ⟨rfl, rfl, rfl, rfl, rfl, rfl, rfl, hgen, fun _ => rfl, fun _ => id⟩

theorem sound_step (digest : GoString → GoString) (s : System F) (a : Action F) (h : Sound s) :
    Sound (step digest s a) := by
  cases a with
  | tick ms =>
    refine ⟨h.inv.same (same_env s rfl), h.wellFormed, ?_⟩
    exact fun i c hc => (h.ready i c hc).mono (Int.le_add_of_nonneg_right (Int.natCast_nonneg ms))
  | store e =>
    refine ⟨h.inv.same (same_env s rfl), ?_, h.ready⟩
    exact Store.Run.step_invariant (fun _ _ _ => wellFormed_apply) s.db e h.wellFormed
  | queueAll c servers =>
    have hgen := Refresh.queueAll_generation c servers s.batch
    simp only [step]
    split_ifs with hstart
    · exact ⟨inv_resetAll h.inv _, h.wellFormed, h.ready⟩
    · rw [if_neg hstart] at hgen
      exact ⟨h.inv.same (same_env s hgen), h.wellFormed, h.ready⟩
  | startMember serverID => exact ⟨h.inv.same (same_env s rfl), h.wellFormed, h.ready⟩
  | completeBatch refreshID serverID error =>
    have hgen := Refresh.completeBatch_generation refreshID serverID error s.batch
    exact ⟨h.inv.same (same_env s hgen), h.wellFormed, h.ready⟩
  | cancelBatch reason =>
    have hgen := Refresh.cancelBatch_generation reason s.batch
    exact ⟨h.inv.same (same_env s hgen), h.wellFormed, h.ready⟩
  | refresh c valid => exact ⟨inv_refresh h.inv c valid, h.wellFormed, h.ready⟩
  | signal => exact ⟨h.inv.same (same_env s rfl), h.wellFormed, h.ready⟩
  | call i domain config =>
    simp only [step]
    split_ifs with hnone
    · rw [Option.isNone_iff_eq_none] at hnone
      refine ⟨h.inv.same ⟨rfl, rfl, rfl, rfl, rfl, rfl, rfl, rfl, ?_, ?_⟩, h.wellFormed,
        ready_update h.ready rfl rfl trivial⟩
      · intro j
        rw [runs_update (s := s) rfl j]
        split_ifs with hj
        · rw [hj, runs, hnone]
          rfl
        · rfl
      · intro j hdone
        rw [isDone_update (s := s) rfl j]
        split_ifs with hj
        · rw [hj, isDone, hnone] at hdone
          cases hdone
        · exact hdone
    · exact h
  | cancel i =>
    simp only [step]
    cases hc : s.callers i with
    | none => exact h
    | some c =>
      refine ⟨h.inv.same ⟨rfl, rfl, rfl, rfl, rfl, rfl, rfl, rfl, ?_, ?_⟩, h.wellFormed,
        ready_update h.ready rfl rfl (h.ready i c hc)⟩
      · intro j
        rw [runs_update (s := s) rfl j]
        split_ifs with hj
        · rw [hj, runs_of_caller hc]
        · rfl
      · intro j hdone
        rw [isDone_update (s := s) rfl j]
        split_ifs
        · rfl
        · exact hdone
  | move i m =>
    simp only [step]
    cases hc : s.callers i with
    | none => exact h
    | some c =>
      dsimp only
      cases ha : advance digest s i c m with
      | none => exact h
      | some t => exact sound_advance h hc ha

theorem sound_run (digest : GoString → GoString) (legacy : Legacy F) (now : Int)
    (as : List (Action F)) :
    Sound (Runs.run (step digest) (initial (openStore legacy) now) as) := by
  refine Runs.run_invariant (sound_step digest) ?_ as
  refine ⟨inv_initial _ now, wellFormed_migrate legacy.wellFormed, ?_⟩
  intro i c hc
  cases hc

def fits (digest : GoString → GoString) (s : System F) (i : Nat) (m : Move) : Bool :=
  (s.callers i).any fun c => (advance digest s i c m).isSome

def isMove (digest : GoString → GoString) (i : Nat) (s : System F) : Action F → Bool
  | .move j m => j = i && fits digest s i m
  | _ => false

omit [GoFloat F] [CaseTables] in
theorem lock_frame (s : System F) (i : Nat) (c : Caller F) (now : Int) (refs : List Reference)
    (trusted : List Server) (fp : GoString) :
    (∃ d, (lock s i c now refs trusted fp).callers = Function.update s.callers i (some d)) ∧
      (lock s i c now refs trusted fp).closed = s.closed := by
  obtain ⟨-, hcallers, -, -, -, hclosed⟩ := entry_spec s (referenceKey c.domain)
  unfold lock
  split_ifs
  · exact ⟨⟨_, rfl⟩, rfl⟩
  · generalize s.entry (referenceKey c.domain) = e at *
    obtain ⟨t, p⟩ := e
    dsimp only at *
    rw [← hcallers, ← hclosed]
    split
    · exact ⟨⟨_, rfl⟩, rfl⟩
    · split_ifs <;> exact ⟨⟨_, rfl⟩, rfl⟩

theorem advance_frame {digest : GoString → GoString} {m : Move}
    (ha : advance digest s i c m = some t) :
    (∃ d, t.callers = Function.update s.callers i (some d)) ∧ s.closed ⊆ t.closed := by
  cases advance_cases ha with
  | quiet phase hbefore hafter hready => exact ⟨⟨_, rfl⟩, List.Subset.refl _⟩
  | locks now refs trusted fp hphase =>
    obtain ⟨hcallers, hclosed⟩ := lock_frame s i c now refs trusted fp
    exact ⟨hcallers, hclosed.symm ▸ List.Subset.refl _⟩
  | collects w stage t hphase hcollects =>
    cases hcollects with
    | finish finished late => exact ⟨⟨_, rfl⟩, List.subset_cons_self _ _⟩
    | turn u hu => exact ⟨⟨_, rfl⟩, List.Subset.refl _⟩

/-- A step of the call that collects ends the collection or brings the end nearer. -/
theorem advance_collecting {digest : GoString → GoString} {m : Move} {w : Work} {stage : Stage}
    (hphase : c.phase = .collecting w stage) (ha : advance digest s i c m = some t) :
    w.done ∈ t.closed ∨ ∃ u : Turn, runs t i = some (u.work, u.stage) ∧ u.work.done = w.done ∧
      rank u.work u.stage < rank w stage := by
  simp only [advance, hphase] at ha
  cases collect_cases ha with
  | finish finished late => exact .inl List.mem_cons_self
  | turn u hu =>
    have hcallers : (turnTo s i c w.done u).callers = Function.update s.callers i
        (some { c with phase := .collecting u.work u.stage }) := rfl
    have hnext := runs_update hcallers i
    rw [if_pos rfl] at hnext
    exact .inr ⟨u, hnext, (turned_same hu).2.2.1, rank_turned hu⟩

theorem closed_step (digest : GoString → GoString) (s : System F) (a : Action F) :
    s.closed ⊆ (step digest s a).closed := by
  cases a with
  | queueAll c servers =>
    simp only [step]
    split_ifs <;> exact List.Subset.refl _
  | call i domain config =>
    simp only [step]
    split_ifs <;> exact List.Subset.refl _
  | cancel i =>
    simp only [step]
    split <;> exact List.Subset.refl _
  | move i m =>
    simp only [step]
    split
    · exact List.Subset.refl _
    · rename_i c _
      cases ha : advance digest s i c m with
      | none => exact List.Subset.refl _
      | some t => exact (advance_frame ha).2
  | _ => exact List.Subset.refl _

theorem runs_step {digest : GoString → GoString} {a : Action F} {w : Work} {stage : Stage}
    (hi : runs s i = some (w, stage)) (ha : isMove digest i s a = false) :
    runs (step digest s a) i = some (w, stage) := by
  cases a with
  | queueAll c servers =>
    simp only [step]
    split_ifs <;> exact hi
  | call j domain config =>
    simp only [step]
    split_ifs with hnone
    · rw [runs_update (s := s) rfl i, if_neg, hi]
      rintro rfl
      rw [Option.isNone_iff_eq_none] at hnone
      rw [runs, hnone] at hi
      cases hi
    · exact hi
  | cancel j =>
    simp only [step]
    cases hc : s.callers j with
    | none => exact hi
    | some c =>
      dsimp only
      rw [runs_update (s := s) rfl i]
      split_ifs with hij
      · rw [← hi, hij, runs_of_caller hc]
      · exact hi
  | move j m =>
    simp only [step]
    cases hc : s.callers j with
    | none => exact hi
    | some c =>
      dsimp only
      cases hadv : advance digest s j c m with
      | none => exact hi
      | some t =>
        obtain ⟨⟨d, hcallers⟩, -⟩ := advance_frame hadv
        rw [Option.getD_some, runs_update hcallers i, if_neg, hi]
        rintro rfl
        simp [isMove, fits, hc, hadv] at ha
  | _ => exact hi

theorem near_step (digest : GoString → GoString) (a : Action F) {w : Work} {stage : Stage}
    (hi : runs s i = some (w, stage)) : w.done ∈ (step digest s a).closed ∨
      ∃ w' stage', runs (step digest s a) i = some (w', stage') ∧ w'.done = w.done ∧
        (if isMove digest i s a then 1 else 0) + rank w' stage' ≤ rank w stage := by
  by_cases ha : isMove digest i s a = true
  · rw [if_pos ha]
    cases a with
    | move j m =>
      simp only [isMove, fits, Bool.and_eq_true, decide_eq_true_eq] at ha
      obtain ⟨rfl, hfits⟩ := ha
      cases hc : s.callers j with
      | none => simp [hc] at hfits
      | some c =>
        have hphase : c.phase = .collecting w stage := phase_of_runs hc hi
        rw [hc] at hfits
        obtain ⟨t, ht⟩ := Option.isSome_iff_exists.mp hfits
        simp only [step, hc, ht, Option.getD_some]
        cases advance_collecting hphase ht with
        | inl hclosed => exact .inl hclosed
        | inr hnear =>
          obtain ⟨u, hu, hdone, hrank⟩ := hnear
          exact .inr ⟨u.work, u.stage, hu, hdone, by omega⟩
    | _ => cases ha
  · rw [if_neg ha]
    exact .inr ⟨w, stage, runs_step hi (Bool.eq_false_of_not_eq_true ha), rfl, by omega⟩

/-- A collection is over after as many steps of its call as it is from its end. -/
theorem collection_ends (digest : GoString → GoString) {w : Work} {stage : Stage}
    (hi : runs s i = some (w, stage)) {as : List (Action F)}
    (has : rank w stage ≤ Runs.steps (step digest) (isMove digest i) s as) :
    w.done ∈ (Runs.run (step digest) s as).closed := by
  let left : System F → Nat := fun s => (runs s i).elim 0 fun p => rank p.1 p.2
  have hleft : left s = rank w stage := by simp [left, hi]
  refine Runs.reaches (D := fun s => w.done ∈ s.closed)
    (I := fun s => w.done ∈ s.closed ∨ ∃ w' stage', runs s i = some (w', stage') ∧ w'.done = w.done)
    left ?_ (fun s a hd => closed_step digest s a hd) ?_ ?_ (.inr ⟨w, stage, hi, rfl⟩)
    (hleft.trans_le has)
  · rintro s a (hd | ⟨w', stage', hi', hdone⟩)
    · exact .inl (closed_step digest s a hd)
    · rw [← hdone]
      refine (near_step digest a hi').imp id ?_
      rintro ⟨w'', stage'', hi'', hdone', -⟩
      exact ⟨w'', stage'', hi'', hdone'⟩
  · rintro s (hd | ⟨w', stage', hi', -⟩) hnot
    · exact absurd hd hnot
    · simp [left, hi', rank_pos]
  · rintro s a (hd | ⟨w', stage', hi', hdone⟩) hnot
    · exact absurd hd hnot
    · rw [← hdone]
      refine (near_step digest a hi').imp id ?_
      rintro ⟨w'', stage'', hi'', -, hrank⟩
      simpa [left, hi', hi''] using hrank

theorem exists_fitting (digest : GoString → GoString) (h : Inv s) {w : Work} {stage : Stage}
    (hi : runs s i = some (w, stage)) : ∃ m, fits digest s i m = true := by
  obtain ⟨-, -, -, -, fp, t', sources, -, -, hkept⟩ := h.running i w stage hi
  cases hc : s.callers i with
  | none =>
    rw [runs, hc] at hi
    cases hi
  | some c =>
    have hphase : c.phase = .collecting w stage := phase_of_runs hc hi
    by_cases hend : ∃ finished, stage = .ending finished
    · obtain ⟨finished, rfl⟩ := hend
      exact ⟨.finish false, by simp [fits, hc, advance, hphase, collect]⟩
    · have hnot : ∀ finished, stage ≠ .ending finished := fun f hf => hend ⟨f, hf⟩
      obtain ⟨m, hm⟩ := exists_move (s.view c) c.config.referenceHistoryHours c.domain hkept.left
        hnot
      refine ⟨m, ?_⟩
      simp only [fits, hc, Option.any_some, advance, hphase, collect]
      split
      · rfl
      · rwa [Option.isSome_map]

/-- The channel is closed, and nothing has it as the one of a running collection. -/
def Over (s : System F) (done : Nat) : Prop :=
  done ∈ s.closed ∧ ∀ p, (s.heap p).done ≠ some done

omit [GoFloat F] [CaseTables] in
theorem over_of_closed (h : Inv s) {done : Nat} (hd : done ∈ s.closed) : Over s done := by
  refine ⟨hd, ?_⟩
  intro p hp
  obtain ⟨i, w, stage, hi, -, rfl⟩ := h.held p done hp
  exact (h.running i w stage hi).closed hd

/-- What the collections of references keep to, in a state that a run has reached. -/
structure Disciplined (digest : GoString → GoString) (s : System F) : Prop where
  /-- For each domain at most one call collects. -/
  single : ∀ i j w w' stage stage', runs s i = some (w, stage) → runs s j = some (w', stage') →
    w.key = w'.key → i = j
  /-- No collection starts for a domain before the last one has ended, or too early, and none
  queries twice or after it has seen what stops it. -/
  allowed : Each Allowed s.log
  /-- Each collection that has started is over, or a call runs it. -/
  started : ∀ k done fp t sources, .started k done fp t sources ∈ s.log →
    Over s done ∨ ∃ i w stage, runs s i = some (w, stage) ∧ w.done = done
  /-- A call that runs a collection can go on, and it ends the collection when it does. -/
  ends : ∀ i w stage, runs s i = some (w, stage) → (∃ m, fits digest s i m = true) ∧
    ∀ as, rank w stage ≤ Runs.steps (step digest) (isMove digest i) s as →
      Over (Runs.run (step digest) s as) w.done

/-- Whatever happens and in which order. -/
theorem collections_disciplined (digest : GoString → GoString) (legacy : Legacy F) (now : Int)
    (as : List (Action F)) :
    Disciplined digest (Runs.run (step digest) (initial (openStore legacy) now) as) := by
  have hsound := sound_run digest legacy now as
  refine ⟨fun i j w w' stage stage' hi hj hkey => hsound.inv.single hi hj hkey,
    hsound.inv.allowed, ?_, ?_⟩
  · intro k done fp t sources hmem
    cases (hsound.inv.started k done fp t sources hmem).2 with
    | inl hover => exact .inl (over_of_closed hsound.inv hover.1)
    | inr hrun =>
      obtain ⟨i, w, stage, hi, hdone, -⟩ := hrun
      exact .inr ⟨i, w, stage, hi, hdone⟩
  · intro i w stage hi
    refine ⟨exists_fitting digest hsound.inv hi, ?_⟩
    intro bs hbs
    have hend := Runs.run_invariant (sound_step digest) hsound bs
    exact over_of_closed hend.inv (collection_ends digest hi hbs)

end

section

local instance : CaseTables := asciiTables

def exampleDomain : Domain := ⟨str "example.com", str "A"⟩

def exampleConfig : Config ℚ := { defaultConfig with domains := [exampleDomain] }

def firstSource : Server := { exampleServer with trusted := true }

def secondSource : Server := { firstSource with address := str "9.9.9.9" }

def firstAnswer : ProbeResult ℚ :=
  { noResult with
    success := true
    domain := exampleDomain.name
    type := exampleDomain.type
    records := [⟨str "192.0.2.1", 300, 1000, 301000⟩] }

def pausedRun : List (Action ℚ) :=
  [.store (.saveServer 900 firstSource), .store (.saveServer 900 secondSource),
    .call 0 exampleDomain exampleConfig, .move 0 .context, .move 0 .clock, .move 0 (.readPool []),
    .move 0 (.listServers []), .move 0 .lock, .move 0 .clock, .move 0 (.readPool []),
    .move 0 (.getServer true), .refresh { exampleConfig with concurrency := 0 } [1, 2],
    .move 0 (.attempt true), .refresh exampleConfig [1, 2], .move 0 .clock, .move 0 (.readPool []),
    .move 0 .context, .move 0 .lock, .move 0 .clock, .move 0 (.readPool []),
    .move 0 (.getServer true), .move 0 (.attempt true), .move 0 .context, .move 0 (.getServer true),
    .store (.saveTrustedObservation { firstSource with id := 1 } firstAnswer)]

/-- The second source is queried after the collection has met a pause, and while the pool is
usable. -/
theorem queried_after_pause :
    let s := Runs.run (step id) (initial (openStore emptyLegacy) 1000) pausedRun
    let hours := exampleConfig.referenceHistoryHours
    .noted 0 .refused ∈ s.log ∧
      hasUsableReference (trustedReferences s.db exampleDomain s.now hours) s.now hours = true ∧
      (step id s (.move 0 .probe)).log = s.log ++ [.noted 0 (.queried 2)] := by
  decide +kernel

end

end DnsMonitor.Monitor.SingleFlight

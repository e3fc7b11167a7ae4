import DnsMonitor.Monitor.Interleaving
import DnsMonitor.Monitor.Round

namespace DnsMonitor.Monitor.Observation

open DnsMonitor.Model DnsMonitor.Lib DnsMonitor.Lib.Runs DnsMonitor.Lib.Epochs
open DnsMonitor.Store.Schema DnsMonitor.Store.References DnsMonitor.Store.Migration
open DnsMonitor.Store.WellFormed DnsMonitor.Store.Trust
open DnsMonitor.Monitor.Probe DnsMonitor.Monitor.Lookup DnsMonitor.Monitor.Refresh
open DnsMonitor.Monitor.Interleaving DnsMonitor.Monitor.Round
open DnsMonitor.Store.Run (exampleServer)
open DnsMonitor.Go.Strings DnsMonitor.Go.Unicode DnsMonitor.Go.Float

section

variable {F : Type}

/-- The commit of the lookup gets as far as to write rows. -/
def CanWrite (s : System F) (i : Nat) (l : InFlight F) : Prop :=
  s.lookups i = some l ∧ isSource s.db l.server = true ∧ ∃ g result, l.phase = .saving g result

def BeginsBatch (s : System F) : Action F → Prop
  | .queueAll c _ => s.mutex = none ∧ startsBatch c s.refresh = true
  | _ => False

/-- The generation, which starts from zero again with the program. -/
def batchEpoch (s : System F) : Nat ×ₗ Nat := toLex (s.starts, s.refresh.cacheGeneration)

theorem batchEpoch_le {s t : System F} (hs : t.starts = s.starts)
    (hg : s.refresh.cacheGeneration ≤ t.refresh.cacheGeneration) :
    batchEpoch s ≤ batchEpoch t :=
  Prod.Lex.toLex_le_toLex.mpr (.inr ⟨hs.symm, hg⟩)

theorem changeBatch_epoch_le (s : System F) {f : BatchState → BatchState}
    (hf : ∀ m, m.cacheGeneration ≤ (f m).cacheGeneration) :
    batchEpoch s ≤ batchEpoch (s.changeBatch f) := by
  unfold System.changeBatch
  split_ifs
  · exact batchEpoch_le rfl (hf _)
  · exact le_rfl

@[simp] theorem changeBatch_db (s : System F) (f : BatchState → BatchState) :
    (s.changeBatch f).db = s.db := by
  unfold System.changeBatch
  split_ifs <;> rfl

@[simp] theorem changeBatch_lookups (s : System F) (f : BatchState → BatchState) :
    (s.changeBatch f).lookups = s.lookups := by
  unfold System.changeBatch
  split_ifs <;> rfl

@[simp] theorem changeBatch_starts (s : System F) (f : BatchState → BatchState) :
    (s.changeBatch f).starts = s.starts := by
  unfold System.changeBatch
  split_ifs <;> rfl

variable [GoFloat F] [CaseTables]

/-- What a step does to the store: a call that saves no observation, or the commit of a lookup. -/
theorem step_db {s : System F} (h : Inv s) (a : Action F) :
    Evolves s.db (step s a).db ∨
      ∃ i l g result, a = .move i .commit ∧ s.lookups i = some l ∧ l.phase = .saving g result ∧
        (step s a).db = saveTrustedObservation s.db l.server result := by
  cases a with
  | store e =>
    simp only [step]
    split_ifs with he
    · exact .inl (Evolves.refl s.db)
    · exact .inl (evolves_step h.wellFormed (Bool.eq_false_iff.mpr he))
  | move i m =>
    cases hl : s.lookups i with
    | none =>
      rw [step_idle hl]
      exact .inl (Evolves.refl s.db)
    | some l =>
      rw [step_move hl]
      obtain he | ⟨phase, _, he⟩ | ⟨g, result, rfl, hp, he⟩ | he := advance_cases s i l m
      · rw [he]
        exact .inl (Evolves.refl s.db)
      · rw [he]
        exact .inl (Evolves.refl s.db)
      · rw [he]
        exact .inr ⟨i, l, g, result, rfl, hl, hp, rfl⟩
      · rw [he]
        exact .inl (Evolves.refl s.db)
  | restart => exact .inl (Evolves.refl s.db)
  | begin server domain => exact .inl (Evolves.refl s.db)
  | _ => simp [step, Evolves.refl]

theorem sourceVersioned (id : Int) :
    Versioned (step (F := F)) Inv (fun s => stampOf id s.db) (fun s => sourceOf id s.db) where
  keeps := inv_step
  epoch_le s a h := by
    cases step_db h a with
    | inl he => exact he.stamp id
    | inr hc =>
      obtain ⟨_, l, _, result, _, _, _, hdb⟩ := hc
      obtain ⟨rows, hr⟩ := Store.Run.saveTrustedObservation_eq s.db l.server result
      rw [hdb, hr]
      exact (stampOf_observations id s.db rows).ge
  value_eq s a h he := by
    cases step_db h a with
    | inl hev => exact hev.source id he
    | inr hc =>
      obtain ⟨_, l, _, result, _, _, _, hdb⟩ := hc
      obtain ⟨rows, hr⟩ := Store.Run.saveTrustedObservation_eq s.db l.server result
      rw [hdb, hr]
      rfl

theorem batchVersioned :
    Versioned (step (F := F)) Inv batchEpoch (fun _ => ()) where
  keeps := inv_step
  epoch_le s a _ := by
    cases a with
    | store e =>
      simp only [step]
      split_ifs
      · exact le_rfl
      · exact le_rfl
    | queueAll c servers =>
      apply changeBatch_epoch_le s (f := fun m => (Refresh.queueAll c servers m).2)
      intro m
      rw [queueAll_generation]
      split_ifs <;> omega
    | updateBatch valid paused =>
      exact changeBatch_epoch_le s fun m => (updateBatch_generation _ paused m).ge
    | startMember serverID => exact changeBatch_epoch_le s fun _ => le_rfl
    | completeBatch refreshID serverID error =>
      exact changeBatch_epoch_le s fun m => (completeBatch_generation refreshID serverID error m).ge
    | cancelBatch reason =>
      exact changeBatch_epoch_le s fun m => (cancelBatch_generation reason m).ge
    | restart => exact Prod.Lex.toLex_le_toLex.mpr (.inl (Nat.lt_succ_self _))
    | begin server domain => exact le_rfl
    | move i m =>
      cases hl : s.lookups i with
      | none => rw [step_idle hl]
      | some l =>
        rw [step_move hl]
        obtain he | ⟨phase, _, he⟩ | ⟨g, result, _, _, he⟩ | he := advance_cases s i l m
        · rw [he]
        · rw [he]
          exact le_rfl
        · rw [he]
          exact le_rfl
        · rw [he]
          exact le_rfl
  value_eq _ _ _ _ := rfl

theorem beginsBatch_lt {s : System F} {a : Action F} (h : BeginsBatch s a) :
    batchEpoch s < batchEpoch (step s a) := by
  cases a with
  | queueAll c servers =>
    obtain ⟨hm, hb⟩ := h
    have hg : (Refresh.queueAll c servers s.refresh).2.cacheGeneration =
        s.refresh.cacheGeneration + 1 := by rw [queueAll_generation, if_pos hb]
    simp only [step, System.changeBatch, hm, if_true]
    exact Prod.Lex.toLex_lt_toLex.mpr (.inr ⟨rfl, by simp [hg]⟩)
  | _ => cases h

/-- No step of the run changes the source of the server, not even to change it back, or begins a
new batch. -/
structure Undisturbed (s : System F) (id : Int) (es : List (Action F)) : Prop where
  epoch : ∀ fs, fs <+: es → stampOf id (run step s fs).db = stampOf id s.db
  source : ∀ fs, fs <+: es → sourceOf id (run step s fs).db = sourceOf id s.db
  batch : ∀ fs a, fs ++ [a] <+: es → ¬ BeginsBatch (run step s fs) a

theorem undisturbed_of_epochs {s : System F} (h : Inv s) {id : Int} {es : List (Action F)}
    (hsource : stampOf id (run step s es).db = stampOf id s.db)
    (hbatch : batchEpoch (run step s es) = batchEpoch s) : Undisturbed s id es where
  epoch fs hfs := by
    obtain ⟨gs, rfl⟩ := hfs
    exact (sourceVersioned id).epoch_between h hsource
  source fs hfs := by
    obtain ⟨gs, rfl⟩ := hfs
    exact (sourceVersioned id).value_between h hsource
  batch fs a hfs hb := by
    obtain ⟨gs, rfl⟩ := hfs
    have hlast := batchVersioned.epoch_between h hbatch
    have hfirst := batchVersioned.epoch_between h hlast
    have hlt := beginsBatch_lt hb
    rw [run_append, run_cons, run_nil] at hlast
    rw [hlast, hfirst] at hlt
    exact lt_irrefl _ hlt

omit [GoFloat F] [CaseTables] in
theorem probing_moves {s : System F} {l : InFlight F} {m : Move F} {phase : Phase F}
    (h : Moves s l m phase) (hp : phase.isProbing = true) :
    l.phase.generation = phase.generation ∧
      (l.phase.isProbing = true ∨ m = .startProbe ∧ ∃ g, l.phase = .checked g) := by
  cases h with
  | readGeneration => cases hp
  | checkSource => cases hp
  | startProbe hphase => exact ⟨hphase ▸ rfl, .inr ⟨rfl, _, hphase⟩⟩
  | answer _ _ _ hphase => exact ⟨hphase ▸ rfl, .inl (hphase ▸ rfl)⟩
  | confirmSource hphase => exact ⟨hphase ▸ rfl, .inl (hphase ▸ rfl)⟩
  | lock hphase => exact ⟨hphase ▸ rfl, .inl (hphase ▸ rfl)⟩

omit [GoFloat F] [CaseTables] in
theorem lookups_finish {s : System F} {i j : Nat} {l : InFlight F}
    (h : (s.finish j).lookups i = some l) : s.lookups i = some l := by
  by_cases hij : i = j
  · simp [System.finish, hij] at h
  · simpa [System.finish, hij] using h

/-- A lookup that is past the start of its probe was so before the step, unless the step has
started the probe. -/
theorem step_probing {s : System F} {a : Action F} {i : Nat} {l : InFlight F}
    (hl : (step s a).lookups i = some l) (hp : l.phase.isProbing = true) :
    (step s a).starts = s.starts ∧ ∃ l₀, s.lookups i = some l₀ ∧ l₀.server = l.server ∧
      l₀.phase.generation = l.phase.generation ∧
      (l₀.phase.isProbing = true ∨ a = .move i .startProbe ∧ ∃ g, l₀.phase = .checked g) := by
  cases a with
  | store e =>
    simp only [step] at hl ⊢
    split_ifs at hl ⊢
    · exact ⟨rfl, l, hl, rfl, rfl, .inl hp⟩
    · exact ⟨rfl, l, hl, rfl, rfl, .inl hp⟩
  | restart => cases hl
  | begin server domain =>
    refine ⟨rfl, l, ?_, rfl, rfl, .inl hp⟩
    by_cases hi : i = s.nextLookup
    · have hl : (⟨server, domain, .started⟩ : InFlight F) = l := by simpa [step, hi] using hl
      rw [← hl] at hp
      cases hp
    · simpa [step, hi] using hl
  | move j m =>
    cases hj : s.lookups j with
    | none =>
      rw [step_idle hj] at hl ⊢
      exact ⟨rfl, l, hl, rfl, rfl, .inl hp⟩
    | some k =>
      rw [step_move hj] at hl ⊢
      obtain he | ⟨phase, hm, he⟩ | ⟨_, _, _, _, he⟩ | he := advance_cases s j k m
      · rw [he] at hl ⊢
        exact ⟨rfl, l, hl, rfl, rfl, .inl hp⟩
      · rw [he] at hl ⊢
        refine ⟨rfl, ?_⟩
        by_cases hij : i = j
        · subst hij
          have hl : { k with phase } = l := by simpa [System.moveTo] using hl
          subst hl
          obtain ⟨hgen, hstart⟩ := probing_moves hm hp
          exact ⟨k, hj, rfl, hgen, hstart.imp_right fun h => ⟨by rw [h.1], h.2⟩⟩
        · exact ⟨l, by simpa [System.moveTo, hij] using hl, rfl, rfl, .inl hp⟩
      · rw [he] at hl ⊢
        exact ⟨rfl, l, lookups_finish hl, rfl, rfl, .inl hp⟩
      · rw [he] at hl ⊢
        exact ⟨rfl, l, lookups_finish hl, rfl, rfl, .inl hp⟩
  | _ =>
    simp only [step, changeBatch_lookups] at hl
    exact ⟨changeBatch_starts s _, l, hl, rfl, rfl, .inl hp⟩

def after (legacy : Legacy F) (es : List (Action F)) : System F :=
  run step (initial (openStore legacy)) es

theorem after_append (legacy : Legacy F) (es fs : List (Action F)) :
    after legacy (es ++ fs) = run step (after legacy es) fs := run_append _ es fs

theorem inv_after (legacy : Legacy F) (es : List (Action F)) : Inv (after legacy es) :=
  run_invariant inv_step (inv_initial legacy) es

def Starts (s : System F) (i : Nat) (server : Server) : Prop :=
  ∃ l g, s.lookups i = some l ∧ l.server = server ∧ l.phase = .checked g

theorem probe_started {legacy : Legacy F} {es : List (Action F)} {i : Nat} {l : InFlight F}
    (hl : (after legacy es).lookups i = some l) (hp : l.phase.isProbing = true) :
    ∃ pre mid l₀ g, es = pre ++ .move i .startProbe :: mid ∧
      (after legacy pre).lookups i = some l₀ ∧ l₀.server = l.server ∧ l₀.phase = .checked g ∧
      l.phase.generation = some g ∧ (after legacy es).starts = (after legacy pre).starts := by
  induction es using List.reverseRecOn generalizing l with
  | nil => cases hl
  | append_singleton es a ih =>
    rw [after_append, run_cons, run_nil] at hl ⊢
    obtain ⟨hstarts, l', hl', hserver, hgen, hstart⟩ := step_probing hl hp
    cases hstart with
    | inl hp' =>
      obtain ⟨pre, mid, l₀, g, rfl, hl₀, hserver₀, hphase, hgen₀, hstarts₀⟩ := ih hl' hp'
      exact ⟨pre, mid ++ [a], l₀, g, by simp, hl₀, hserver₀.trans hserver, hphase,
        hgen ▸ hgen₀, hstarts.trans hstarts₀⟩
    | inr hs =>
      obtain ⟨rfl, g, hphase⟩ := hs
      exact ⟨es, [], l', g, rfl, hl', hserver, hphase, by rw [← hgen, hphase]; rfl, hstarts⟩

/-- Both checks of the epoch and both of the generation compare the state at the start of the
probe with that of the commit. -/
theorem canWrite_undisturbed {legacy : Legacy F} {es : List (Action F)} {i : Nat} {l : InFlight F}
    (h : CanWrite (after legacy es) i l) :
    ∃ pre mid, es = pre ++ .move i .startProbe :: mid ∧ Starts (after legacy pre) i l.server ∧
      Undisturbed (after legacy pre) l.server.id (.move i .startProbe :: mid) := by
  obtain ⟨hl, hsource, g, result, hphase⟩ := h
  have hp : l.phase.isProbing = true := by rw [hphase]; rfl
  obtain ⟨pre, mid, l₀, g₀, rfl, hl₀, hserver, hphase₀, hgen, hstarts⟩ := probe_started hl hp
  rw [hphase] at hgen
  obtain rfl : g = g₀ := Option.some.inj hgen
  have hpre := inv_after legacy pre
  have hend := inv_after legacy (pre ++ .move i .startProbe :: mid)
  have hholds := hend.lookup i l hl
  have hholds₀ := hpre.lookup i l₀ hl₀
  refine ⟨pre, mid, rfl, ⟨l₀, g, hl₀, hserver, hphase₀⟩, ?_⟩
  rw [after_append] at hsource hstarts hend hholds
  apply undisturbed_of_epochs hpre
  · have htrusted : l.server.trusted = true := hholds.trusted (by rw [hphase]; rfl)
    have hfirst := hholds₀.epoch (by rw [hphase₀]; rfl) (hserver ▸ htrusted)
    rw [hserver, ← stampOf_isSource hend.wellFormed hsource] at hfirst
    exact le_antisymm hfirst ((sourceVersioned l.server.id).run_le hpre _)
  · have hfirst := hholds₀.generation g (by rw [hphase₀]; rfl)
    have hlast := (hholds.saving g result hphase).2
    exact le_antisymm (batchEpoch_le hstarts.symm (hlast ▸ hfirst)) (batchVersioned.run_le hpre _)

theorem added_by_commit {s : System F} (h : Inv s) {a : Action F} {r : ObservationRow}
    (hr : r ∈ (step s a).db.trustedObservations) (hnew : r ∉ s.db.trustedObservations) :
    ∃ i l, a = .move i .commit ∧ CanWrite s i l ∧ r.serverID = l.server.id := by
  cases step_db h a with
  | inl hev => exact absurd (hev.rows r hr).1 hnew
  | inr hc =>
    obtain ⟨i, l, g, result, ha, hl, hphase, hdb⟩ := hc
    rw [hdb] at hr
    cases saveTrustedObservation_cases s.db l.server result with
    | inl he =>
      rw [he] at hr
      exact absurd hr hnew
    | inr hw =>
      obtain ⟨current, hf, hcurrent, rows, he, hrows⟩ := hw
      rw [he] at hr
      cases hrows r hr with
      | inl hold => exact absurd hold hnew
      | inr hadded =>
        exact ⟨i, l, ha, ⟨hl, by rw [isSource, hf]; exact hcurrent, g, result, hphase⟩, hadded.1⟩

theorem kept_epoch {s : System F} (h : Inv s) {a : Action F} {r : ObservationRow}
    (hr : r ∈ (step s a).db.trustedObservations) (hold : r ∈ s.db.trustedObservations) :
    stampOf r.serverID (step s a).db = stampOf r.serverID s.db := by
  cases step_db h a with
  | inl hev =>
    apply (hev.rows r hr).2
    by_contra hseq
    have hsource := h.sourced r hold
    rw [sourceOf, findServer_new h.wellFormed (by omega)] at hsource
    cases hsource
  | inr hc =>
    obtain ⟨_, l, _, result, _, _, _, hdb⟩ := hc
    obtain ⟨rows, he⟩ := Store.Run.saveTrustedObservation_eq s.db l.server result
    rw [hdb, he, stampOf_observations]

theorem move_epoch (s : System F) (i : Nat) (m : Move F) (id : Int) :
    stampOf id (step s (.move i m)).db = stampOf id s.db := by
  cases hl : s.lookups i with
  | none => rw [step_idle hl]
  | some l =>
    rw [step_move hl]
    obtain he | ⟨phase, _, he⟩ | ⟨_, result, _, _, he⟩ | he := advance_cases s i l m
    · rw [he]
    · rw [he]
      rfl
    · obtain ⟨rows, hr⟩ := Store.Run.saveTrustedObservation_eq s.db l.server result
      rw [he, hr]
      rfl
    · rw [he]
      rfl

/-- The row was added, or refreshed to what it is, by a lookup for which its source was in the
epoch from the start of the probe to the commit. -/
def ObservedIn (legacy : Legacy F) (es : List (Action F)) (r : ObservationRow)
    (epoch : WithBot (WithTop Int)) : Prop :=
  ∃ pre i server mid post, es = pre ++ .move i .startProbe :: (mid ++ .move i .commit :: post) ∧
    Starts (after legacy pre) i server ∧ server.id = r.serverID ∧
    (∀ fs, fs <+: .move i .startProbe :: mid →
      stampOf r.serverID (after legacy (pre ++ fs)).db = epoch) ∧
    r ∉ (after legacy (pre ++ .move i .startProbe :: mid)).db.trustedObservations ∧
    r ∈ (after legacy (pre ++ .move i .startProbe :: (mid ++ [.move i .commit]))).db.trustedObservations

theorem observedIn_current (legacy : Legacy F) (es : List (Action F)) {r : ObservationRow}
    (hr : r ∈ (after legacy es).db.trustedObservations) :
    ObservedIn legacy es r (stampOf r.serverID (after legacy es).db) := by
  induction es using List.reverseRecOn with
  | nil => cases hr
  | append_singleton es a ih =>
    have hinv := inv_after legacy es
    have hstep : after legacy (es ++ [a]) = step (after legacy es) a := by
      rw [after_append, run_cons, run_nil]
    have hr' := hr
    rw [hstep] at hr' ⊢
    by_cases hold : r ∈ (after legacy es).db.trustedObservations
    · obtain ⟨pre, i, server, mid, post, rfl, hobserved⟩ := ih hold
      rw [kept_epoch hinv hr' hold]
      exact ⟨pre, i, server, mid, post ++ [a], by simp, hobserved⟩
    · obtain ⟨i, l, rfl, hw, hid⟩ := added_by_commit hinv hr' hold
      obtain ⟨pre, mid, rfl, hstarts, hun⟩ := canWrite_undisturbed hw
      rw [move_epoch, after_append legacy pre (.move i .startProbe :: mid), hid,
        hun.epoch _ (List.prefix_refl _), ← hid]
      refine ⟨pre, i, l.server, mid, [], by simp, hstarts, hid.symm, ?_, hold, by simpa using hr⟩
      intro fs hfs
      rw [after_append, hid, hun.epoch fs hfs]

/-- Every observation comes from a lookup whose source was the same, and during which no batch
began, from the start of its probe to its commit; so it is one of a trusted and enabled server,
at its address and in its epoch. -/
theorem observations_current (legacy : Legacy F) (es : List (Action F)) :
    (∀ a, ∀ r ∈ (after legacy (es ++ [a])).db.trustedObservations,
      r ∉ (after legacy es).db.trustedObservations →
        ∃ i l, a = .move i .commit ∧ CanWrite (after legacy es) i l ∧ r.serverID = l.server.id) ∧
    (∀ i l, CanWrite (after legacy es) i l →
      ∃ pre mid, es = pre ++ .move i .startProbe :: mid ∧ Starts (after legacy pre) i l.server ∧
        Undisturbed (after legacy pre) l.server.id (.move i .startProbe :: mid)) ∧
    (∀ r ∈ (after legacy es).db.trustedObservations,
      ∃ s, findServer (after legacy es).db r.serverID = some s ∧ s.trusted = true ∧
        s.enabled = true ∧ r.address = s.address ∧
        ObservedIn legacy es r ((s.trustEpoch : WithTop Int) : WithBot (WithTop Int))) := by
  have hinv := inv_after legacy es
  refine ⟨?_, fun i l h => canWrite_undisturbed h, ?_⟩
  · intro a r hr hnew
    rw [after_append, run_cons, run_nil] at hr
    exact added_by_commit hinv hr hnew
  · intro r hr
    have hsource := hinv.sourced r hr
    obtain ⟨s, hs, hfields⟩ := Option.map_eq_some_iff.mp hsource
    simp only [Prod.mk.injEq] at hfields
    refine ⟨s, hs, hfields.1, hfields.2.1, hfields.2.2.symm, ?_⟩
    rw [← stampOf_stored hinv.wellFormed hs]
    exact observedIn_current legacy es hr

end

section

local instance : CaseTables := asciiTables

def trustedServer : Server := { exampleServer with trusted := true }

def storedSource : Server := { storedServer with trusted := true }

def exampleDomain : Domain := ⟨str "www.youtube.com", str "A"⟩

def untilProbe : List (Action ℚ) :=
  [.store (.saveServer 900 trustedServer), .queueAll defaultConfig [storedSource],
    .begin storedSource exampleDomain, .move 0 .readGeneration, .move 0 .checkSource]

def afterProbe : List (Action ℚ) :=
  [.move 0 (.answer (exampleRun none) 2010), .move 0 .confirmSource, .move 0 .lock]

def exampleRow : ObservationRow where
  serverID := 1
  address := str "udp://1.1.1.1:53"
  domain := str "www.youtube.com"
  type := str "A"
  value := str "1.2.3.4"
  ttlSeconds := 60
  observedAt := 2010
  expiresAt := 62010

/-- A probe during which `QueueAll` returns the batch that is pending. -/
def pendingBatch : List (Action ℚ) := .queueAll defaultConfig [storedSource] :: afterProbe

theorem starts_untilProbe : Starts (after emptyLegacy untilProbe) 0 storedSource :=
  ⟨⟨storedSource, exampleDomain, .checked 1⟩, 1, by decide +kernel, rfl, rfl⟩

/-- A call that returns the pending batch keeps no lookup from adding what it has observed. -/
theorem pending_batch_observed : ¬ ∀ (pre mid : List (Action ℚ)) (i : Nat) (server : Server)
    (r : ObservationRow), Starts (after emptyLegacy pre) i server →
      r ∉ (after emptyLegacy (pre ++ .move i .startProbe :: mid)).db.trustedObservations →
      r ∈ (after emptyLegacy
        (pre ++ .move i .startProbe :: (mid ++ [.move i .commit]))).db.trustedObservations →
      ∀ c servers, .queueAll c servers ∉ mid := by
  intro h
  apply h untilProbe pendingBatch 0 storedSource exampleRow starts_untilProbe
    (by decide +kernel) (by decide +kernel) defaultConfig [storedSource]
  simp [pendingBatch]

def pendingRun : List (Action ℚ) :=
  untilProbe ++ .move 0 .startProbe :: (pendingBatch ++ [.move 0 .commit])

theorem observations_current_example : ∃ s,
    findServer (after emptyLegacy pendingRun).db exampleRow.serverID = some s ∧
      s.trusted = true ∧ s.enabled = true ∧ exampleRow.address = s.address ∧
      ObservedIn emptyLegacy pendingRun exampleRow
        ((s.trustEpoch : WithTop Int) : WithBot (WithTop Int)) := by
  have hr : exampleRow ∈ (after emptyLegacy pendingRun).db.trustedObservations := by decide +kernel
  exact (observations_current emptyLegacy pendingRun).2.2 exampleRow hr

end

end DnsMonitor.Monitor.Observation

import DnsMonitor.Lib.Epochs
import DnsMonitor.Monitor.Lookup
import DnsMonitor.Monitor.Refresh
import DnsMonitor.Store.Trust
import Mathlib.Data.Prod.Lex

namespace DnsMonitor.Monitor.Interleaving

open DnsMonitor.Model DnsMonitor.Lib DnsMonitor.Lib.Epochs DnsMonitor.Store.Schema
open DnsMonitor.Store.References DnsMonitor.Store.Migration DnsMonitor.Store.WellFormed
open DnsMonitor.Store.Trust
open DnsMonitor.Store.Run (Event)
open DnsMonitor.Monitor.Probe DnsMonitor.Monitor.Lookup DnsMonitor.Monitor.Refresh
open DnsMonitor.Go.Strings DnsMonitor.Go.Unicode DnsMonitor.Go.Float

/-- Where a lookup with a slot stands, with the generation it has read and its result so far. -/
inductive Phase (F : Type) where
  | started
  | ready (generation : Nat)
  | checked (generation : Nat)
  | probing (generation : Nat)
  | answered (generation : Nat) (result : ProbeResult F)
  | confirmed (generation : Nat) (result : ProbeResult F)
  | saving (generation : Nat) (result : ProbeResult F)
deriving DecidableEq

/-- A lookup works on the server as its caller has read it before. -/
structure InFlight (F : Type) where
  server : Server
  domain : Domain
  phase : Phase F
deriving DecidableEq

/-- The mutex of the monitor is only ever held across steps by a lookup that saves what it has
observed. -/
structure System (F : Type) where
  db : DB F
  refresh : BatchState
  mutex : Option Nat
  lookups : Nat → Option (InFlight F)
  nextLookup : Nat
  starts : Nat

inductive Move (F : Type) where
  | readGeneration
  | checkSource
  | startProbe
  | answer (run : DoggoRun F) (now : Int)
  | confirmSource
  | lock
  | commit
  | stop

/-- A step of the program. `QueueAll` takes effect, with what it has read before, once it has
the mutex. -/
inductive Action (F : Type) where
  | store (e : Event F)
  | queueAll (c : Config F) (servers : List Server)
  | updateBatch (valid : List Int) (paused : Bool)
  | startMember (serverID : Int)
  | completeBatch (refreshID serverID : Int) (error : GoString)
  | cancelBatch (reason : GoString)
  | restart
  | begin (server : Server) (domain : Domain)
  | move (i : Nat) (m : Move F)

section

variable {F : Type}

def initial (db : DB F) : System F where
  db
  refresh := noBatch
  mutex := none
  lookups _ := none
  nextLookup := 0
  starts := 0

def System.moveTo (s : System F) (i : Nat) (l : InFlight F) (phase : Phase F) : System F :=
  { s with lookups := Function.update s.lookups i (some { l with phase }) }

def System.finish (s : System F) (i : Nat) : System F :=
  { s with
    mutex := if s.mutex = some i then none else s.mutex
    lookups := Function.update s.lookups i none }

def System.changeBatch (s : System F) (f : BatchState → BatchState) : System F :=
  if s.mutex = none then { s with refresh := f s.refresh } else s

variable [GoFloat F] [CaseTables]

/-- A move that the phase of the lookup does not allow changes nothing. -/
def advance (s : System F) (i : Nat) (l : InFlight F) (m : Move F) : System F :=
  match m, l.phase with
  | .readGeneration, .started =>
    if s.mutex = none then s.moveTo i l (.ready s.refresh.cacheGeneration) else s
  | .checkSource, .ready g =>
    if l.server.trusted && !isSource s.db l.server then s.finish i else s.moveTo i l (.checked g)
  | .startProbe, .checked g => s.moveTo i l (.probing g)
  | .answer run now, .probing g =>
    s.moveTo i l (.answered g (stampResult l.domain now (runDoggo l.server l.domain run)))
  | .confirmSource, .answered g result =>
    if l.server.trusted && isSource s.db l.server then
      s.moveTo i l (.confirmed g (trustResult result))
    else s.finish i
  | .lock, .confirmed g result =>
    if s.mutex = none then
      if g = s.refresh.cacheGeneration then { s.moveTo i l (.saving g result) with mutex := some i }
      else s.finish i
    else s
  | .commit, .saving _ result =>
    let db := if result.success then saveTrustedObservation s.db l.server result else s.db
    { s with db }.finish i
  | .stop, _ => s.finish i
  | _, _ => s

/-- Of the calls of the store only lookups make the one that saves an observation. -/
def step (s : System F) : Action F → System F
  | .store e => if isObservation e then s else { s with db := Store.Run.step s.db e }
  | .queueAll c servers => s.changeBatch fun m => (Refresh.queueAll c servers m).2
  | .updateBatch valid paused => s.changeBatch (Refresh.updateBatch valid.contains paused)
  | .startMember serverID => s.changeBatch (Refresh.startMember serverID)
  | .completeBatch refreshID serverID error =>
    s.changeBatch (Refresh.completeBatch refreshID serverID error)
  | .cancelBatch reason => s.changeBatch (Refresh.cancelBatch reason)
  | .restart =>
    { s with refresh := noBatch, mutex := none, lookups := fun _ => none, starts := s.starts + 1 }
  | .begin server domain =>
    { s with
      lookups := Function.update s.lookups s.nextLookup (some ⟨server, domain, .started⟩)
      nextLookup := s.nextLookup + 1 }
  | .move i m =>
    match s.lookups i with
    | none => s
    | some l => advance s i l m

theorem step_idle {s : System F} {i : Nat} (h : s.lookups i = none) (m : Move F) :
    step s (.move i m) = s := by simp [step, h]

theorem step_move {s : System F} {i : Nat} {l : InFlight F} (h : s.lookups i = some l)
    (m : Move F) : step s (.move i m) = advance s i l m := by simp [step, h]

def Phase.generation : Phase F → Option Nat
  | .started => none
  | .ready g => some g
  | .checked g => some g
  | .probing g => some g
  | .answered g _ => some g
  | .confirmed g _ => some g
  | .saving g _ => some g

def Phase.isChecked : Phase F → Bool
  | .started => false
  | .ready _ => false
  | _ => true

def Phase.isProbing : Phase F → Bool
  | .started => false
  | .ready _ => false
  | .checked _ => false
  | _ => true

def Phase.isConfirmed : Phase F → Bool
  | .confirmed _ _ => true
  | .saving _ _ => true
  | _ => false

/-- The next phase of a lookup, and what it has found to get there. -/
inductive Moves (s : System F) (l : InFlight F) : Move F → Phase F → Prop where
  | readGeneration (hphase : l.phase = .started) :
      Moves s l .readGeneration (.ready s.refresh.cacheGeneration)
  | checkSource {g : Nat} (hphase : l.phase = .ready g)
      (hsource : l.server.trusted = true → isSource s.db l.server = true) :
      Moves s l .checkSource (.checked g)
  | startProbe {g : Nat} (hphase : l.phase = .checked g) : Moves s l .startProbe (.probing g)
  | answer {g : Nat} (run : DoggoRun F) (now : Int) (result : ProbeResult F)
      (hphase : l.phase = .probing g) : Moves s l (.answer run now) (.answered g result)
  | confirmSource {g : Nat} {result : ProbeResult F} (hphase : l.phase = .answered g result)
      (htrusted : l.server.trusted = true) :
      Moves s l .confirmSource (.confirmed g (trustResult result))
  | lock {g : Nat} {result : ProbeResult F} (hphase : l.phase = .confirmed g result)
      (hmutex : s.mutex = none) (hgeneration : g = s.refresh.cacheGeneration) :
      Moves s l .lock (.saving g result)

def Phase.mutex (i : Nat) (held : Option Nat) : Phase F → Option Nat
  | .saving _ _ => some i
  | _ => held

/-- A move changes nothing, leads to the next phase, saves what was observed, or ends the lookup. -/
theorem advance_cases (s : System F) (i : Nat) (l : InFlight F) (m : Move F) :
    advance s i l m = s ∨
      (∃ phase, Moves s l m phase ∧
        advance s i l m = { s.moveTo i l phase with mutex := phase.mutex i s.mutex }) ∨
      (∃ g result, m = .commit ∧ l.phase = .saving g result ∧ advance s i l m =
        { s with db := saveTrustedObservation s.db l.server result }.finish i) ∨
      advance s i l m = s.finish i := by
  cases hp : l.phase with
  | started =>
    cases m with
    | readGeneration =>
      simp only [advance, hp]
      split_ifs
      · exact .inr (.inl ⟨_, .readGeneration hp, rfl⟩)
      · exact .inl rfl
    | stop => exact .inr (.inr (.inr rfl))
    | _ => simp [advance, hp]
  | ready g =>
    cases m with
    | checkSource =>
      simp only [advance, hp]
      split_ifs with hs
      · exact .inr (.inr (.inr rfl))
      · refine .inr (.inl ⟨_, .checkSource hp ?_, rfl⟩)
        intro ht
        simpa [ht] using hs
    | stop => exact .inr (.inr (.inr rfl))
    | _ => simp [advance, hp]
  | checked g =>
    cases m with
    | startProbe =>
      simp only [advance, hp]
      exact .inr (.inl ⟨_, .startProbe hp, rfl⟩)
    | stop => exact .inr (.inr (.inr rfl))
    | _ => simp [advance, hp]
  | probing g =>
    cases m with
    | answer run now =>
      simp only [advance, hp]
      exact .inr (.inl ⟨_, .answer run now _ hp, rfl⟩)
    | stop => exact .inr (.inr (.inr rfl))
    | _ => simp [advance, hp]
  | answered g result =>
    cases m with
    | confirmSource =>
      simp only [advance, hp]
      split_ifs with hs
      · simp only [Bool.and_eq_true] at hs
        exact .inr (.inl ⟨_, .confirmSource hp hs.1, rfl⟩)
      · exact .inr (.inr (.inr rfl))
    | stop => exact .inr (.inr (.inr rfl))
    | _ => simp [advance, hp]
  | confirmed g result =>
    cases m with
    | lock =>
      simp only [advance, hp]
      split_ifs with hmutex hg
      · exact .inr (.inl ⟨_, .lock hp hmutex hg, rfl⟩)
      · exact .inr (.inr (.inr rfl))
      · exact .inl rfl
    | stop => exact .inr (.inr (.inr rfl))
    | _ => simp [advance, hp]
  | saving g result =>
    cases m with
    | commit =>
      simp only [advance, hp]
      split_ifs
      · exact .inr (.inr (.inl ⟨g, result, trivial, rfl, rfl⟩))
      · exact .inr (.inr (.inr rfl))
    | stop => exact .inr (.inr (.inr rfl))
    | _ => simp [advance, hp]

/-- What a lookup can rely on in the phase it is in. -/
structure Holds (s : System F) (i : Nat) (l : InFlight F) : Prop where
  generation : ∀ g, l.phase.generation = some g → g ≤ s.refresh.cacheGeneration
  epoch : l.phase.isChecked = true → l.server.trusted = true →
    ((l.server.trustEpoch : WithTop Int) : WithBot (WithTop Int)) ≤ stampOf l.server.id s.db
  trusted : l.phase.isConfirmed = true → l.server.trusted = true
  saving : ∀ g result, l.phase = .saving g result →
    s.mutex = some i ∧ s.refresh.cacheGeneration = g

structure Inv (s : System F) : Prop where
  wellFormed : WellFormed s.db
  sourced : Sourced s.db
  fresh : ∀ i, s.nextLookup ≤ i → s.lookups i = none
  lookup : ∀ i l, s.lookups i = some l → Holds s i l

omit [GoFloat F] [CaseTables] in
theorem inv_initial (legacy : Legacy F) : Inv (initial (openStore legacy)) where
  wellFormed := wellFormed_migrate legacy.wellFormed
  sourced := by
    intro r hr
    cases hr
  fresh _ _ := rfl
  lookup _ _ h := by cases h

omit [GoFloat F] [CaseTables] in
/-- A lookup that does not move relies on no less when the generation and the epochs grow and the
mutex is not taken from it. -/
theorem Holds.mono {s : System F} {i : Nat} {l : InFlight F} (h : Holds s i l) (t : System F)
    (hg : s.refresh.cacheGeneration ≤ t.refresh.cacheGeneration)
    (hepoch : ∀ id, stampOf id s.db ≤ stampOf id t.db)
    (hmutex : s.mutex = some i →
      t.mutex = some i ∧ t.refresh.cacheGeneration = s.refresh.cacheGeneration) :
    Holds t i l where
  generation g hl := (h.generation g hl).trans hg
  epoch hc ht := (h.epoch hc ht).trans (hepoch _)
  trusted := h.trusted
  saving g result hp := by
    obtain ⟨hm, hgen⟩ := h.saving g result hp
    obtain ⟨hm', hgen'⟩ := hmutex hm
    exact ⟨hm', hgen'.trans hgen⟩

omit [GoFloat F] [CaseTables] in
theorem stampOf_observations (id : Int) (db : DB F) (rows : List ObservationRow) :
    stampOf id { db with trustedObservations := rows } = stampOf id db := rfl

omit [GoFloat F] [CaseTables] in
theorem inv_changeBatch {s : System F} (h : Inv s) {f : BatchState → BatchState}
    (hf : ∀ m, m.cacheGeneration ≤ (f m).cacheGeneration) : Inv (s.changeBatch f) := by
  unfold System.changeBatch
  split_ifs with hm
  · refine { h with lookup := fun i l hl => ?_ }
    apply (h.lookup i l hl).mono { s with refresh := f s.refresh } (hf _) fun _ => le_rfl
    intro hi
    rw [hm] at hi
    cases hi
  · exact h

omit [GoFloat F] [CaseTables] in
theorem inv_db {s : System F} (h : Inv s) {db : DB F} (hw : WellFormed db) (hs : Sourced db)
    (hepoch : ∀ id, stampOf id s.db ≤ stampOf id db) : Inv { s with db } where
  wellFormed := hw
  sourced := hs
  fresh := h.fresh
  lookup i l hl := (h.lookup i l hl).mono { s with db } le_rfl hepoch fun hm => ⟨hm, rfl⟩

omit [GoFloat F] [CaseTables] in
theorem inv_finish {s : System F} (h : Inv s) (i : Nat) : Inv (s.finish i) where
  wellFormed := h.wellFormed
  sourced := h.sourced
  fresh j hj := by
    by_cases hij : j = i
    · simp [System.finish, hij]
    · simpa [System.finish, hij] using h.fresh j hj
  lookup j l hl := by
    by_cases hij : j = i
    · simp [System.finish, hij] at hl
    · have hl : s.lookups j = some l := by simpa [System.finish, hij] using hl
      apply (h.lookup j l hl).mono (s.finish i) le_rfl fun _ => le_rfl
      intro hm
      refine ⟨?_, rfl⟩
      rw [System.finish, hm, if_neg (by simpa using hij)]

omit [GoFloat F] [CaseTables] in
theorem stampOf_current {db : DB F} {server current : Server} (hw : WellFormed db)
    (hf : findServer db server.id = some current) (hc : isCurrent current server = true) :
    stampOf server.id db = ((server.trustEpoch : WithTop Int) : WithBot (WithTop Int)) := by
  simp only [isCurrent, Bool.and_eq_true, decide_eq_true_eq] at hc
  rw [stampOf_stored hw hf, hc.2]

omit [GoFloat F] [CaseTables] in
theorem stampOf_isSource {db : DB F} {server : Server} (hw : WellFormed db)
    (h : isSource db server = true) :
    stampOf server.id db = ((server.trustEpoch : WithTop Int) : WithBot (WithTop Int)) := by
  unfold isSource at h
  split at h
  · exact stampOf_current hw ‹_› h
  · cases h

omit [GoFloat F] [CaseTables] in
theorem holds_moves {s : System F} {i : Nat} {l : InFlight F} {m : Move F} {phase : Phase F}
    (hw : WellFormed s.db) (h : Holds s i l) (hm : Moves s l m phase) :
    Holds { s.moveTo i l phase with mutex := phase.mutex i s.mutex } i { l with phase } := by
  cases hm with
  | readGeneration hphase =>
    refine ⟨?_, fun hc => (by cases hc), fun hc => (by cases hc), fun _ _ hp => (by cases hp)⟩
    intro g hg
    cases hg
    exact le_rfl
  | checkSource hphase hsource =>
    refine ⟨fun g hg => h.generation g (hphase ▸ hg), ?_, fun hc => (by cases hc),
      fun _ _ hp => (by cases hp)⟩
    intro _ ht
    exact (stampOf_isSource hw (hsource ht)).ge
  | startProbe hphase =>
    exact ⟨fun g hg => h.generation g (hphase ▸ hg), fun _ => h.epoch (hphase ▸ rfl),
      fun hc => (by cases hc), fun _ _ hp => (by cases hp)⟩
  | answer run now result hphase =>
    exact ⟨fun g hg => h.generation g (hphase ▸ hg), fun _ => h.epoch (hphase ▸ rfl),
      fun hc => (by cases hc), fun _ _ hp => (by cases hp)⟩
  | confirmSource hphase htrusted =>
    exact ⟨fun g hg => h.generation g (hphase ▸ hg), fun _ => h.epoch (hphase ▸ rfl),
      fun _ => htrusted, fun _ _ hp => (by cases hp)⟩
  | lock hphase hmutex hgeneration =>
    refine ⟨fun g hg => h.generation g (hphase ▸ hg), fun _ => h.epoch (hphase ▸ rfl),
      fun _ => h.trusted (hphase ▸ rfl), ?_⟩
    intro g result hp
    cases hp
    exact ⟨rfl, hgeneration.symm⟩

omit [GoFloat F] [CaseTables] in
theorem mutex_moves {s : System F} {i j : Nat} {l : InFlight F} {m : Move F} {phase : Phase F}
    (hm : Moves s l m phase) (hj : s.mutex = some j) : phase.mutex i s.mutex = some j := by
  cases hm with
  | lock hphase hmutex hgeneration =>
    rw [hmutex] at hj
    cases hj
  | _ => exact hj

theorem inv_advance {s : System F} (h : Inv s) {i : Nat} {l : InFlight F}
    (hl : s.lookups i = some l) (m : Move F) : Inv (advance s i l m) := by
  obtain he | ⟨phase, hm, he⟩ | ⟨g, result, _, hp, he⟩ | he := advance_cases s i l m
  · rwa [he]
  · rw [he]
    refine ⟨h.wellFormed, h.sourced, ?_, ?_⟩
    · intro j hj
      have hij : j ≠ i := by
        rintro rfl
        rw [h.fresh j hj] at hl
        cases hl
      simpa [System.moveTo, hij] using h.fresh j hj
    · intro j k hk
      by_cases hij : j = i
      · subst hij
        have hk : { l with phase } = k := by simpa [System.moveTo] using hk
        exact hk ▸ holds_moves h.wellFormed (h.lookup j l hl) hm
      · have hk : s.lookups j = some k := by simpa [System.moveTo, hij] using hk
        exact (h.lookup j k hk).mono
          { s.moveTo i l phase with mutex := phase.mutex i s.mutex } le_rfl (fun _ => le_rfl)
          fun hj => ⟨mutex_moves hm hj, rfl⟩
  · rw [he]
    apply inv_finish
    have hw : WellFormed (saveTrustedObservation s.db l.server result) :=
      wellFormed_apply h.wellFormed (e := .saveTrustedObservation l.server result) rfl
    refine inv_db h hw (sourced_saveTrustedObservation h.sourced _ _) ?_
    intro id
    obtain ⟨rows, hr⟩ := Store.Run.saveTrustedObservation_eq s.db l.server result
    rw [hr]
    exact (stampOf_observations id s.db rows).ge
  · rw [he]
    exact inv_finish h i

theorem inv_step (s : System F) (a : Action F) (h : Inv s) : Inv (step s a) := by
  cases a with
  | store e =>
    simp only [step]
    split_ifs with he
    · exact h
    · have hev := evolves_step h.wellFormed (Bool.eq_false_iff.mpr he)
      exact inv_db h (wellFormed_run h.wellFormed [e])
        (sourced_evolves h.wellFormed h.sourced hev) hev.stamp
  | queueAll c servers =>
    apply inv_changeBatch (f := fun m => (Refresh.queueAll c servers m).2) h
    intro m
    rw [queueAll_generation]
    split_ifs <;> omega
  | updateBatch valid paused =>
    exact inv_changeBatch h fun m => (updateBatch_generation _ paused m).ge
  | startMember serverID => exact inv_changeBatch h fun _ => le_rfl
  | completeBatch refreshID serverID error =>
    exact inv_changeBatch h fun m => (completeBatch_generation refreshID serverID error m).ge
  | cancelBatch reason => exact inv_changeBatch h fun m => (cancelBatch_generation reason m).ge
  | restart =>
    refine ⟨h.wellFormed, h.sourced, fun _ _ => rfl, ?_⟩
    intro i l hl
    cases hl
  | begin server domain =>
    refine ⟨h.wellFormed, h.sourced, ?_, ?_⟩
    · intro i hi
      have hne : i ≠ s.nextLookup := Nat.ne_of_gt hi
      simpa [step, hne] using h.fresh i (Nat.le_of_succ_le hi)
    · intro i l hl
      by_cases hi : i = s.nextLookup
      · subst hi
        have hl : (⟨server, domain, .started⟩ : InFlight F) = l := by simpa [step] using hl
        subst hl
        exact ⟨fun _ hg => (by cases hg), fun hc => (by cases hc), fun hc => (by cases hc),
          fun _ _ hp => (by cases hp)⟩
      · have hl : s.lookups i = some l := by simpa [step, hi] using hl
        exact (h.lookup i l hl).mono (step s (.begin server domain)) le_rfl (fun _ => le_rfl)
          fun hm => ⟨hm, rfl⟩
  | move i m =>
    cases hl : s.lookups i with
    | none =>
      rw [step_idle hl]
      exact h
    | some l =>
      rw [step_move hl]
      exact inv_advance h hl m

end

end DnsMonitor.Monitor.Interleaving

import DnsMonitor.Monitor.Observation
import DnsMonitor.Monitor.ReferenceCache

namespace DnsMonitor.Monitor.Caching

open DnsMonitor.Model DnsMonitor.Lib.Runs DnsMonitor.Lib.Epochs DnsMonitor.Lib.Evictions
open DnsMonitor.Store.Schema DnsMonitor.Store.References DnsMonitor.Store.Migration
open DnsMonitor.Monitor.Probe DnsMonitor.Monitor.Lookup DnsMonitor.Monitor.Refresh
open DnsMonitor.Monitor.Config DnsMonitor.Monitor.Interleaving DnsMonitor.Monitor.Observation
open DnsMonitor.Monitor.ReferenceCache
open DnsMonitor.Go.Strings DnsMonitor.Go.Unicode DnsMonitor.Go.Format DnsMonitor.Go.Float

structure State (F : Type) where
  base : System F
  cache : Cache F

/-- The steps that see the cache. The others are those of the system without it. -/
inductive Step (F : Type) where
  | other (a : Interleaving.Action F)
  | refresh (c : Config F) (servers : List Server) (now : Int)
  | lock (i : Nat) (walk : Walk (GoString × CachedProbe F))
  /-- With the raw output and the error text of the probe; the save of the observation may fail. -/
  | commit (i : Nat) (raw error : GoString) (saved : Bool)
      (walk : Walk (GoString × CachedProbe F))

section

variable {F : Type}

def seesCache : Interleaving.Action F → Bool
  | .updateBatch _ _ => true
  | .move _ .lock => true
  | .move _ .commit => true
  | _ => false

/-- A new batch and a new start of the program begin with an empty cache. -/
def clears (s : System F) : Interleaving.Action F → Bool
  | .queueAll c _ => s.mutex = none && startsBatch c s.refresh
  | .restart => true
  | _ => false

def saved (s : System F) (i : Nat) : Option (InFlight F × ProbeResult F) :=
  match s.lookups i with
  | some l =>
    match l.phase with
    | .saving _ result => some (l, result)
    | _ => none
  | none => none

variable [GoFloat F] [CaseTables]

def refresh (c : Config F) (servers : List Server) (now : Int) (s : State F) : State F :=
  match validateConfig c with
  | .error _ => s
  | .ok c =>
    if s.base.mutex = none then
      { base := Interleaving.step s.base
          (.updateBatch ((servers.filter (·.enabled)).map (·.id)) (c.concurrency = 0))
        cache := prune c servers now s.cache }
    else s

/-- A lookup of another generation caches nothing, but looks at the bounds as well. -/
def lock (i : Nat) (walk : Walk (GoString × CachedProbe F)) (s : State F) : State F :=
  let base := Interleaving.step s.base (.move i .lock)
  { base
    cache := if (s.base.lookups i).isSome && (base.lookups i).isNone then bound walk s.cache
      else s.cache }

/-- A result is cached unless its observation could not be saved. -/
def commit (i : Nat) (raw error : GoString) (ok : Bool)
    (walk : Walk (GoString × CachedProbe F)) (s : State F) : State F :=
  match saved s.base i with
  | none => s
  | some (l, result) =>
    if result.success && !ok then
      { base := Interleaving.step s.base (.move i .stop), cache := bound walk s.cache }
    else
      { base := Interleaving.step s.base (.move i .commit)
        cache := bound walk (put (cacheKey l.server l.domain) ⟨result, raw, error⟩ s.cache) }

def step (s : State F) : Step F → State F
  | .other a =>
    if seesCache a then s
    else
      { base := Interleaving.step s.base a
        cache := if clears s.base a then [] else s.cache }
  | .refresh c servers now => refresh c servers now s
  | .lock i walk => lock i walk s
  | .commit i raw error ok walk => commit i raw error ok walk s

def hidden : Interleaving.Action F → Bool
  | .move _ .stop => true
  | a => seesCache a

/-- Each step is one of the system without the cache, or changes nothing there. -/
theorem step_base (s : State F) (a : Step F) :
    (step s a).base = s.base ∨ ∃ b, (step s a).base = Interleaving.step s.base b ∧
      (a = .other b ∨ hidden b = true) := by
  cases a with
  | other b =>
    simp only [step]
    split_ifs
    · exact .inl rfl
    · exact .inr ⟨b, rfl, .inl rfl⟩
    · exact .inr ⟨b, rfl, .inl rfl⟩
  | refresh c servers now =>
    simp only [step, refresh]
    split
    · exact .inl rfl
    · split_ifs
      · exact .inr ⟨.updateBatch _ _, rfl, .inr rfl⟩
      · exact .inl rfl
  | lock i walk => exact .inr ⟨.move i .lock, rfl, .inr rfl⟩
  | commit i raw error ok walk =>
    simp only [step, commit]
    split
    · exact .inl rfl
    · split_ifs
      · exact .inr ⟨.move i .stop, rfl, .inr rfl⟩
      · exact .inr ⟨.move i .commit, rfl, .inr rfl⟩

structure Inv (s : State F) : Prop where
  base : Interleaving.Inv s.base
  keyed : Keyed s.cache
  fitting : fits s.cache = true

omit [GoFloat F] [CaseTables] in
theorem keyed_nil : Keyed ([] : Cache F) := List.nodup_nil

omit [GoFloat F] [CaseTables] in
theorem fits_nil : fits ([] : Cache F) = true := by simp [fits]

omit [GoFloat F] [CaseTables] in
theorem trimmed_bound {cache : Cache F} (h : Keyed cache)
    (walk : Walk (GoString × CachedProbe F)) :
    Trimmed fits (·.result.timestamp) cache (bound walk cache) :=
  trimmed_evict fits_nil _ walk h le_rfl

omit [GoFloat F] [CaseTables] in
theorem bound_of_fits {cache : Cache F} (h : fits cache = true)
    (walk : Walk (GoString × CachedProbe F)) : bound walk cache = cache :=
  evict_of_fits h _ walk _

omit [GoFloat F] [CaseTables] in
theorem fits_sublist {l m : Cache F} (h : fits l = true) (hm : m.Sublist l) : fits m = true := by
  simp only [fits, Bool.and_eq_true, decide_eq_true_eq] at h ⊢
  have hsum := (hm.map fun e => e.2.size).sum_le_sum fun _ _ => Nat.zero_le _
  exact ⟨hm.length_le.trans h.1, hsum.trans h.2⟩

omit [GoFloat F] [CaseTables] in
theorem saved_eq_some {s : System F} {i : Nat} {l : InFlight F} {result : ProbeResult F}
    (h : saved s i = some (l, result)) :
    s.lookups i = some l ∧ ∃ g, l.phase = .saving g result := by
  unfold saved at h
  split at h
  · rename_i k hk
    split at h
    · rename_i g r hphase
      obtain ⟨rfl, rfl⟩ := Prod.mk.inj (Option.some.inj h)
      exact ⟨hk, g, hphase⟩
    · cases h
  · cases h

structure Adds (s : State F) (a : Step F) (key : GoString) (v : CachedProbe F) : Prop where
  commit : ∃ i raw error ok walk l g, a = .commit i raw error ok walk ∧
    s.base.lookups i = some l ∧ l.phase = .saving g v.result ∧
    (v.result.success = true → ok = true) ∧ key = cacheKey l.server l.domain
  trimmed : Trimmed fits (·.result.timestamp) (put key v s.cache) (step s a).cache

theorem step_cache {s : State F} (h : Inv s) (a : Step F) :
    (∃ key v, Adds s a key v) ∨ (step s a).cache = s.cache ∨
      (∃ b, a = .other b ∧ clears s.base b = true ∧ (step s a).cache = []) ∨
      ∃ c c' servers now, a = .refresh c servers now ∧ validateConfig c = .ok c' ∧
        (step s a).cache = prune c' servers now s.cache := by
  cases a with
  | other b =>
    right
    simp only [step]
    split_ifs with hsees hclears
    · exact .inl rfl
    · exact .inr (.inl ⟨b, rfl, hclears, rfl⟩)
    · exact .inl rfl
  | refresh c servers now =>
    right
    cases hc : validateConfig c with
    | error e =>
      exact .inl (by simp only [step, refresh, hc])
    | ok c' =>
      simp only [step, refresh, hc]
      split_ifs
      · exact .inr (.inr ⟨c, c', servers, now, rfl, hc, rfl⟩)
      · exact .inl rfl
  | lock i walk =>
    right; left
    simp only [step, lock, bound_of_fits h.fitting, ite_self]
  | commit i raw error ok walk =>
    cases hs : saved s.base i with
    | none =>
      right; left
      simp only [step, commit, hs]
    | some p =>
      obtain ⟨l, result⟩ := p
      obtain ⟨hl, g, hphase⟩ := saved_eq_some hs
      by_cases hfail : (result.success && !ok) = true
      · right; left
        simp only [step, commit, hs, hfail, if_true, bound_of_fits h.fitting]
      · left
        refine ⟨cacheKey l.server l.domain, ⟨result, raw, error⟩,
          ⟨i, raw, error, ok, walk, l, g, rfl, hl, hphase, ?_, rfl⟩, ?_⟩
        · intro hsuccess
          simpa [show result.success = true from hsuccess] using hfail
        · simp only [step, commit, hs, if_neg hfail]
          exact trimmed_bound (keyed_put h.keyed _ _) walk

theorem step_sublist {s : State F} (h : Inv s) (a : Step F) :
    (∃ key v, Adds s a key v) ∨ (step s a).cache.Sublist s.cache := by
  refine (step_cache h a).imp_right ?_
  rintro (he | ⟨_, _, _, he⟩ | ⟨_, _, _, _, _, _, he⟩)
  · rw [he]
  · rw [he]
    exact List.nil_sublist _
  · rw [he]
    exact List.filter_sublist

theorem inv_caching (s : State F) (a : Step F) (h : Inv s) : Inv (step s a) where
  base := by
    obtain he | ⟨b, he, -⟩ := step_base s a
    · rw [he]
      exact h.base
    · rw [he]
      exact inv_step s.base b h.base
  keyed := by
    obtain ⟨key, v, hadds⟩ | hsub := step_sublist h a
    · exact (keyed_put h.keyed key v).sublist hadds.trimmed.sublist
    · exact h.keyed.sublist hsub
  fitting := by
    obtain ⟨key, v, hadds⟩ | hsub := step_sublist h a
    · exact hadds.trimmed.fitting
    · exact fits_sublist h.fitting hsub

omit [GoFloat F] [CaseTables] in
theorem changeBatch_epoch {s : System F} {f : BatchState → BatchState}
    (hf : s.mutex = none → (f s.refresh).cacheGeneration = s.refresh.cacheGeneration) :
    batchEpoch (s.changeBatch f) = batchEpoch s := by
  unfold System.changeBatch
  split_ifs with hm
  · exact congrArg (fun g => toLex (s.starts, g)) (hf hm)
  · rfl

theorem epoch_base {s : System F} {a : Interleaving.Action F} (h : clears s a = false) :
    batchEpoch (Interleaving.step s a) = batchEpoch s := by
  cases a with
  | store e =>
    simp only [Interleaving.step]
    split_ifs
    · rfl
    · rfl
  | queueAll c servers =>
    apply changeBatch_epoch
    intro hm
    have hstarts : startsBatch c s.refresh = false := by simpa [clears, hm] using h
    rw [queueAll_generation, hstarts, if_neg Bool.false_ne_true]
  | updateBatch valid paused => exact changeBatch_epoch fun _ => updateBatch_generation _ _ _
  | startMember serverID => exact changeBatch_epoch fun _ => rfl
  | completeBatch refreshID serverID error =>
    exact changeBatch_epoch fun _ => completeBatch_generation _ _ _ _
  | cancelBatch reason => exact changeBatch_epoch fun _ => cancelBatch_generation _ _
  | restart => cases h
  | begin server domain => rfl
  | move i m =>
    cases hl : s.lookups i with
    | none => rw [step_idle hl]
    | some l =>
      rw [step_move hl]
      obtain he | ⟨phase, _, he⟩ | ⟨g, result, _, _, he⟩ | he := advance_cases s i l m
      · rw [he]
      · rw [he]
        rfl
      · rw [he]
        rfl
      · rw [he]
        rfl

theorem epoch_step {s : State F} {a : Step F} (h : (step s a).cache ≠ []) :
    batchEpoch (step s a).base = batchEpoch s.base := by
  cases a with
  | other b =>
    simp only [step] at h ⊢
    split_ifs at h ⊢ with hsees hclears
    · rfl
    · exact absurd rfl h
    · exact epoch_base (Bool.eq_false_iff.mpr hclears)
  | refresh c servers now =>
    simp only [step, refresh]
    split
    · rfl
    · split_ifs
      · exact epoch_base rfl
      · rfl
  | lock i walk => exact epoch_base rfl
  | commit i raw error ok walk =>
    simp only [step, commit]
    split
    · rfl
    · split_ifs
      · exact epoch_base rfl
      · exact epoch_base rfl

theorem epoch_clears {s : System F} {a : Interleaving.Action F} (h : clears s a = true) :
    batchEpoch s < batchEpoch (Interleaving.step s a) := by
  cases a with
  | queueAll c servers =>
    simp only [clears, Bool.and_eq_true, decide_eq_true_eq] at h
    exact beginsBatch_lt (a := .queueAll c servers) h
  | restart => exact Prod.Lex.toLex_lt_toLex.mpr (.inl (Nat.lt_succ_self _))
  | _ => cases h

theorem cachingVersioned :
    Versioned (step (F := F)) Inv (fun s => batchEpoch s.base) (fun _ => ()) where
  keeps := inv_caching
  epoch_le s a h := by
    obtain he | ⟨b, he, -⟩ := step_base s a
    · exact (congrArg batchEpoch he).ge
    · exact (batchVersioned.epoch_le s.base b h.base).trans (congrArg batchEpoch he).ge
  value_eq _ _ _ _ := rfl

theorem lookups_step {s : System F} {a : Interleaving.Action F} {i : Nat} {l : InFlight F}
    (h : (Interleaving.step s a).lookups i = some l) :
    s.lookups i = some l ∨ (∃ server domain, a = .begin server domain ∧
      l = ⟨server, domain, .started⟩) ∨ ∃ k m, a = .move i m ∧ s.lookups i = some k ∧ l.server = k.server ∧ l.domain = k.domain ∧
        Moves s k m l.phase := by
  cases a with
  | store e =>
    simp only [Interleaving.step] at h
    split_ifs at h
    · exact .inl h
    · exact .inl h
  | restart => cases h
  | begin server domain =>
    by_cases hi : i = s.nextLookup
    · have hl : (⟨server, domain, .started⟩ : InFlight F) = l := by
        simpa [Interleaving.step, hi] using h
      exact .inr (.inl ⟨server, domain, rfl, hl.symm⟩)
    · exact .inl (by simpa [Interleaving.step, hi] using h)
  | move j m =>
    cases hj : s.lookups j with
    | none =>
      rw [step_idle hj] at h
      exact .inl h
    | some k =>
      rw [step_move hj] at h
      obtain he | ⟨phase, hm, he⟩ | ⟨_, _, _, _, he⟩ | he := advance_cases s j k m
      · rw [he] at h
        exact .inl h
      · rw [he] at h
        by_cases hij : i = j
        · subst hij
          have hl : { k with phase } = l := by simpa [System.moveTo] using h
          subst hl
          exact .inr (.inr ⟨k, m, rfl, hj, rfl, rfl, hm⟩)
        · exact .inl (by simpa [System.moveTo, hij] using h)
      · rw [he] at h
        exact .inl (lookups_finish h)
      · rw [he] at h
        exact .inl (lookups_finish h)
  | _ =>
    simp only [Interleaving.step, changeBatch_lookups] at h
    exact .inl h

theorem lookups_answer {s : System F} {i g : Nat} {k l : InFlight F} {run : DoggoRun F} {now : Int}
    (hk : s.lookups i = some k) (hp : k.phase = .probing g)
    (h : (Interleaving.step s (.move i (.answer run now))).lookups i = some l) :
    l.phase = .answered g (stampResult k.domain now (runDoggo k.server k.domain run)) := by
  simp only [step_move hk, advance, hp, System.moveTo, Function.update_self] at h
  exact Option.some.inj h ▸ rfl

theorem lookups_confirmSource {s : System F} {i g : Nat} {k l : InFlight F} {result : ProbeResult F}
    (hk : s.lookups i = some k) (hp : k.phase = .answered g result)
    (h : (Interleaving.step s (.move i .confirmSource)).lookups i = some l) :
    k.server.trusted = true ∧ isSource s.db k.server = true := by
  simp only [step_move hk, advance, hp] at h
  split_ifs at h with hsource
  · exact Bool.and_eq_true_iff.mp hsource
  · simp [System.finish] at h

def after (legacy : Legacy F) (es : List (Step F)) : State F :=
  run step ⟨initial (openStore legacy), []⟩ es

theorem after_append (legacy : Legacy F) (es fs : List (Step F)) :
    after legacy (es ++ fs) = run step (after legacy es) fs := run_append _ es fs

theorem after_snoc (legacy : Legacy F) (es : List (Step F)) (a : Step F) :
    after legacy (es ++ [a]) = step (after legacy es) a := after_append legacy es [a]

theorem inv_after (legacy : Legacy F) (es : List (Step F)) : Inv (after legacy es) :=
  run_invariant inv_caching ⟨inv_initial legacy, keyed_nil, fits_nil⟩ es

def Started (legacy : Legacy F) (start es : List (Step F)) (i : Nat) (server : Server)
    (domain : Domain) (g : Nat) : Prop :=
  (after legacy start).base.lookups i = some ⟨server, domain, .checked g⟩ ∧
    start ++ [.other (.move i .startProbe)] <+: es

def Answered (legacy : Legacy F) (start es : List (Step F)) (i : Nat) (server : Server)
    (domain : Domain) (g : Nat) (result : ProbeResult F) : Prop :=
  ∃ pre run now, Started legacy start pre i server domain g ∧
    pre ++ [.other (.move i (.answer run now))] <+: es ∧
    result = stampResult domain now (runDoggo server domain run)

/-- The server was still the source when the lookup asked again after its probe. -/
def Confirmed (legacy : Legacy F) (start es : List (Step F)) (i : Nat) (server : Server)
    (domain : Domain) (g : Nat) (result : ProbeResult F) : Prop :=
  ∃ pre r, Answered legacy start pre i server domain g r ∧
    pre ++ [.other (.move i .confirmSource)] <+: es ∧ server.trusted = true ∧
    isSource (after legacy pre).base.db server = true ∧ result = trustResult r

theorem Started.mono {legacy : Legacy F} {start es fs : List (Step F)} {i g : Nat}
    {server : Server} {domain : Domain} (h : Started legacy start es i server domain g)
    (hp : es <+: fs) : Started legacy start fs i server domain g :=
  ⟨h.1, h.2.trans hp⟩

theorem Answered.mono {legacy : Legacy F} {start es fs : List (Step F)} {i g : Nat}
    {server : Server} {domain : Domain} {result : ProbeResult F}
    (h : Answered legacy start es i server domain g result) (hp : es <+: fs) :
    Answered legacy start fs i server domain g result := by
  obtain ⟨pre, run, now, hstarted, hpre, hr⟩ := h
  exact ⟨pre, run, now, hstarted, hpre.trans hp, hr⟩

theorem Confirmed.mono {legacy : Legacy F} {start es fs : List (Step F)} {i g : Nat}
    {server : Server} {domain : Domain} {result : ProbeResult F}
    (h : Confirmed legacy start es i server domain g result) (hp : es <+: fs) :
    Confirmed legacy start fs i server domain g result := by
  obtain ⟨pre, r, hanswered, hpre, hr⟩ := h
  exact ⟨pre, r, hanswered, hpre.trans hp, hr⟩

theorem Confirmed.started {legacy : Legacy F} {start es : List (Step F)} {i g : Nat}
    {server : Server} {domain : Domain} {result : ProbeResult F}
    (h : Confirmed legacy start es i server domain g result) :
    Started legacy start es i server domain g := by
  obtain ⟨pre, r, ⟨pre', run, now, hstarted, hpre', -⟩, hpre, -⟩ := h
  exact hstarted.mono ((List.prefix_append _ _).trans hpre' |>.trans
    ((List.prefix_append _ _).trans hpre))

/-- What a lookup in this phase has behind it. -/
def Trail (legacy : Legacy F) (start es : List (Step F)) (i : Nat) (server : Server)
    (domain : Domain) : Phase F → Prop
  | .probing g => Started legacy start es i server domain g
  | .answered g result => Answered legacy start es i server domain g result
  | .confirmed g result => Confirmed legacy start es i server domain g result
  | .saving g result => Confirmed legacy start es i server domain g result
  | _ => False

theorem Trail.mono {legacy : Legacy F} {start es fs : List (Step F)} {i : Nat} {server : Server}
    {domain : Domain} {phase : Phase F} (h : Trail legacy start es i server domain phase)
    (hp : es <+: fs) : Trail legacy start fs i server domain phase := by
  cases phase with
  | probing g => exact Started.mono h hp
  | answered g result => exact Answered.mono h hp
  | confirmed g result => exact Confirmed.mono h hp
  | saving g result => exact Confirmed.mono h hp
  | _ => exact h

theorem starts_step {s : State F} {a : Step F} {i : Nat} {l : InFlight F}
    (h : (step s a).base.lookups i = some l) : (step s a).base.starts = s.base.starts := by
  obtain he | ⟨b, he, -⟩ := step_base s a
  · rw [he]
  · rw [he] at h ⊢
    cases b with
    | store e =>
      simp only [Interleaving.step]
      split_ifs
      · rfl
      · rfl
    | restart => cases h
    | begin server domain => rfl
    | move j m =>
      cases hj : s.base.lookups j with
      | none => rw [step_idle hj]
      | some k =>
        rw [step_move hj]
        obtain he | ⟨_, _, he⟩ | ⟨_, _, _, _, he⟩ | he := advance_cases s.base j k m
        · rw [he]
        · rw [he]
          rfl
        · rw [he]
          rfl
        · rw [he]
          rfl
    | _ => exact changeBatch_starts _ _

theorem trail {legacy : Legacy F} {es : List (Step F)} {i : Nat} {l : InFlight F}
    (hl : (after legacy es).base.lookups i = some l) (hp : l.phase.isProbing = true) :
    ∃ start, (after legacy start).base.starts = (after legacy es).base.starts ∧
      Trail legacy start es i l.server l.domain l.phase := by
  induction es using List.reverseRecOn generalizing l with
  | nil => cases hl
  | append_singleton es a ih =>
    have hpre : es <+: es ++ [a] := List.prefix_append _ _
    rw [after_snoc] at hl ⊢
    have hstarts := starts_step hl
    obtain he | ⟨b, he, hb⟩ := step_base (after legacy es) a
    · rw [he] at hl
      obtain ⟨start, hs, ht⟩ := ih hl hp
      exact ⟨start, hs.trans hstarts.symm, ht.mono hpre⟩
    · have hstep := hl
      rw [he] at hl
      obtain hold | ⟨_, _, _, rfl⟩ | ⟨k, m, rfl, hk, hserver, hdomain, hm⟩ := lookups_step hl
      · obtain ⟨start, hs, ht⟩ := ih hold hp
        exact ⟨start, hs.trans hstarts.symm, ht.mono hpre⟩
      · cases hp
      · have hother : hidden (.move i m) = false → a = .other (.move i m) := by
          intro hh
          rw [hh] at hb
          exact hb.resolve_right Bool.false_ne_true
        obtain ⟨ks, kd, kp⟩ := k
        dsimp only at hserver hdomain
        subst hserver hdomain
        obtain ⟨ls, ld, lp⟩ := l
        dsimp only at hm hk hl hp ⊢
        cases hm with
        | readGeneration => cases hp
        | checkSource => cases hp
        | startProbe hphase =>
          obtain rfl := hother rfl
          dsimp only at hphase
          subst hphase
          exact ⟨es, hstarts.symm, hk, List.prefix_rfl⟩
        | answer run now result hphase =>
          obtain rfl := hother rfl
          dsimp only at hphase
          subst hphase
          obtain ⟨start, hs, ht⟩ := ih hk rfl
          have hresult := lookups_answer hk rfl hl
          injection hresult with _ hresult
          exact ⟨start, hs.trans hstarts.symm, es, run, now, ht, List.prefix_rfl, hresult⟩
        | confirmSource hphase htrusted =>
          obtain rfl := hother rfl
          dsimp only at hphase
          subst hphase
          obtain ⟨start, hs, ht⟩ := ih hk rfl
          exact ⟨start, hs.trans hstarts.symm, es, _, ht, List.prefix_rfl, htrusted,
            (lookups_confirmSource hk rfl hl).2, rfl⟩
        | lock hphase =>
          dsimp only at hphase
          subst hphase
          obtain ⟨start, hs, ht⟩ := ih hk rfl
          exact ⟨start, hs.trans hstarts.symm, Confirmed.mono ht hpre⟩

theorem epoch_mono (legacy : Legacy F) {es fs : List (Step F)} (h : es <+: fs) :
    batchEpoch (after legacy es).base ≤ batchEpoch (after legacy fs).base := by
  obtain ⟨gs, rfl⟩ := h
  rw [after_append]
  exact cachingVersioned.run_le (inv_after legacy es) gs

theorem epoch_saving {legacy : Legacy F} {start es : List (Step F)} {i g : Nat} {l : InFlight F}
    {result : ProbeResult F} (hl : (after legacy es).base.lookups i = some l)
    (hphase : l.phase = .saving g result)
    (hstarted : Started legacy start es i l.server l.domain g)
    (hstarts : (after legacy start).base.starts = (after legacy es).base.starts) :
    batchEpoch (after legacy start).base = batchEpoch (after legacy es).base := by
  apply le_antisymm
  · exact epoch_mono legacy ((List.prefix_append _ _).trans hstarted.2)
  · have hfirst := ((inv_after legacy start).base.lookup i _ hstarted.1).generation g rfl
    have hlast := (((inv_after legacy es).base.lookup i l hl).saving g result hphase).2
    exact batchEpoch_le hstarts (hlast ▸ hfirst)

/-- The probe behind an entry of the cache, and the commit that added it. -/
def Origin (legacy : Legacy F) (start es : List (Step F)) (e : GoString × CachedProbe F) : Prop :=
  ∃ pre i server domain g raw error ok walk,
    Confirmed legacy start pre i server domain g e.2.result ∧
    pre ++ [.commit i raw error ok walk] <+: es ∧
    (e.2.result.success = true → ok = true) ∧ e.1 = cacheKey server domain

theorem origin {legacy : Legacy F} {es : List (Step F)} {e : GoString × CachedProbe F}
    (he : e ∈ (after legacy es).cache) : ∃ start, Origin legacy start es e ∧
      batchEpoch (after legacy start).base = batchEpoch (after legacy es).base := by
  induction es using List.reverseRecOn with
  | nil => cases he
  | append_singleton es a ih =>
    have hpre : es <+: es ++ [a] := List.prefix_append _ _
    rw [after_snoc] at he ⊢
    have hepoch := epoch_step (List.ne_nil_of_mem he)
    have hinv := inv_after legacy es
    have hold : e ∈ (after legacy es).cache → ∃ start, Origin legacy start (es ++ [a]) e ∧
        batchEpoch (after legacy start).base = batchEpoch (step (after legacy es) a).base := by
      intro hin
      obtain ⟨start, ⟨pre, i, server, domain, g, raw, error, ok, walk, hc, hp, hrest⟩, hb⟩ := ih hin
      exact ⟨start, ⟨pre, i, server, domain, g, raw, error, ok, walk, hc, hp.trans hpre, hrest⟩,
        hb.trans hepoch.symm⟩
    obtain ⟨key, v, ⟨i, raw, error, ok, walk, l, g, rfl, hl, hphase, hok, hkey⟩, ht⟩ | hsub :=
      step_sublist hinv a
    · obtain rfl | ⟨hin, -⟩ := mem_put.mp (ht.sublist.subset he)
      · obtain ⟨start, hstarts, htrail⟩ := trail hl (by rw [hphase]; rfl)
        rw [hphase] at htrail
        refine ⟨start, ⟨es, i, l.server, l.domain, g, raw, error, ok, walk, htrail,
          List.prefix_rfl, hok, hkey⟩, ?_⟩
        exact (epoch_saving hl hphase htrail.started hstarts).trans hepoch.symm
      · exact hold hin
    · exact hold (hsub.subset he)

omit [GoFloat F] [CaseTables] in
theorem cacheGet_eq_some {ttl now : Int} {key : GoString} {cache : Cache F}
    {result : ProbeResult F} (h : cacheGet ttl now key cache = some result) :
    ∃ v, (key, v) ∈ cache ∧ v.result = result ∧ v.valid ttl now = true := by
  unfold cacheGet at h
  split at h
  · rename_i k v hfind
    split_ifs at h with hvalid
    obtain rfl : k = key := by simpa using List.find?_some hfind
    exact ⟨v, List.mem_of_find?_eq_some hfind, Option.some.inj h, hvalid⟩
  · cases h

/-- The steps after `start` neither begin a new batch nor start the program again. -/
def SameBatch (legacy : Legacy F) (start es : List (Step F)) : Prop :=
  ∀ pre a, start <+: pre → pre ++ [.other a] <+: es → clears (after legacy pre).base a = false

theorem sameBatch_of_epoch {legacy : Legacy F} {start es : List (Step F)}
    (h : batchEpoch (after legacy start).base = batchEpoch (after legacy es).base) :
    SameBatch legacy start es := by
  intro pre a hstart hpre
  rw [Bool.eq_false_iff]
  intro hclears
  have hlt := epoch_clears hclears
  have hstep : batchEpoch (after legacy (pre ++ [.other a])).base =
      batchEpoch (Interleaving.step (after legacy pre).base a) := by
    rw [after_snoc]
    have hsees : seesCache a = false := by
      cases a with
      | updateBatch => cases hclears
      | move => cases hclears
      | _ => rfl
    simp [step, hsees]
  have hle := epoch_mono legacy hpre
  rw [hstep] at hle
  exact absurd (epoch_mono legacy hstart) (not_le.mpr (hlt.trans_le (hle.trans h.ge)))

def PlainStep : Step F → Prop
  | .other (.begin _ domain) => Plain domain
  | _ => True

def PlainLookups (s : State F) : Prop := ∀ i l, s.base.lookups i = some l → Plain l.domain

theorem plainLookups_step (s : State F) (a : Step F) (ha : PlainStep a) (h : PlainLookups s) :
    PlainLookups (step s a) := by
  intro i l hl
  obtain he | ⟨b, he, hb⟩ := step_base s a
  · exact h i l (he ▸ hl)
  · rw [he] at hl
    obtain hold | ⟨server, domain, rfl, rfl⟩ | ⟨k, m, -, hk, -, hdomain, -⟩ := lookups_step hl
    · exact h i l hold
    · obtain rfl := hb.resolve_right Bool.false_ne_true
      exact ha
    · rw [hdomain]
      exact h i k hk

theorem plain_started {legacy : Legacy F} {start es : List (Step F)} {i g : Nat} {server : Server}
    {domain : Domain} (hes : ∀ e ∈ es, PlainStep e)
    (h : Started legacy start es i server domain g) : Plain domain := by
  have hpre : start <+: es := (List.prefix_append _ _).trans h.2
  have hplain : PlainLookups (after legacy start) :=
    run_invariant_of plainLookups_step (fun _ _ hl => (by cases hl))
      fun e he => hes e (hpre.subset he)
  exact hplain i _ h.1

/-- The result has not expired. It is the answer to a probe of the same server in the same epoch
at the same address for the same domain, which a lookup has started after the last manual refresh
began, and after whose end it was still a source. -/
structure Explained (legacy : Legacy F) (es : List (Step F)) (ttl now : Int) (server : Server)
    (domain : Domain) (result : ProbeResult F) : Prop where
  success : result.success = true ∧ result.records ≠ []
  age : now < result.timestamp + ttl * 1000
  fresh : ∀ r ∈ result.records, 0 < r.ttlSeconds ∧ now < r.expiresAt
  probe : ∃ start pre i source g raw error walk, source.id = server.id ∧
    source.trustEpoch = server.trustEpoch ∧ source.address = server.address ∧
    Confirmed legacy start pre i source domain g result ∧
    pre ++ [.commit i raw error true walk] <+: es ∧ SameBatch legacy start es

theorem explained_of_hit {legacy : Legacy F} {es : List (Step F)} (hes : ∀ e ∈ es, PlainStep e)
    {ttl now : Int} {server : Server} {domain : Domain} (hd : Plain domain)
    {result : ProbeResult F}
    (h : cacheGet ttl now (cacheKey server domain) (after legacy es).cache = some result) :
    Explained legacy es ttl now server domain result := by
  obtain ⟨v, hv, rfl, hvalid⟩ := cacheGet_eq_some h
  simp only [CachedProbe.valid, Bool.and_eq_true, decide_eq_true_eq, List.all_eq_true] at hvalid
  obtain ⟨⟨⟨⟨hsuccess, hrecords⟩, -⟩, htime⟩, hfresh⟩ := hvalid
  refine ⟨⟨hsuccess, hrecords⟩, by omega, hfresh, ?_⟩
  obtain ⟨start, ⟨pre, i, source, d, g, raw, error, ok, walk, hc, hpre, hok, hkey⟩, hepoch⟩ :=
    origin hv
  obtain rfl : ok = true := hok hsuccess
  have hin : ∀ e ∈ pre, PlainStep e := fun e he =>
    hes e (((List.prefix_append _ _).trans hpre).subset he)
  obtain ⟨hid, hep, haddress, rfl⟩ := cacheKey_inj hd (plain_started hin hc.started) hkey
  exact ⟨start, pre, i, source, g, raw, error, walk, hid.symm, hep.symm, haddress.symm, hc, hpre,
    sameBatch_of_epoch hepoch⟩

/-- A reference lookup that asks the cache in two states of a run is answered by its own probe,
or has a cached answer that is explained. -/
theorem referenceLookup_explained (legacy : Legacy F) {es fs : List (Step F)}
    (hes : ∀ e ∈ es ++ fs, PlainStep e) (ttl now later : Int) (server : Server) {domain : Domain}
    (hd : Plain domain) (turn : Turn F) (answer : ProbeResult F × GoString)
    (h : referenceLookup ttl server domain turn (now, (after legacy es).cache)
      (later, (after legacy (es ++ fs)).cache) = answer) :
    answer = lookup server domain turn ∨
      answer.2 = [] ∧ (Explained legacy es ttl now server domain answer.1 ∨
        Explained legacy (es ++ fs) ttl later server domain answer.1) := by
  unfold referenceLookup at h
  dsimp only at h
  split at h
  · rename_i result hfirst
    obtain rfl := h
    refine .inr ⟨rfl, .inl (explained_of_hit (fun e he => ?_) hd hfirst)⟩
    exact hes e (List.mem_append_left fs he)
  · split_ifs at h
    · exact .inl h.symm
    · split at h
      · rename_i result hsecond
        obtain rfl := h
        exact .inr ⟨rfl, .inr (explained_of_hit hes hd hsecond)⟩
      · exact .inl h.symm

/-- The cache keeps within its bounds in every state. What a step takes away was cleared by a new
batch or a new start, is not allowed by a refresh or too old for it, or makes room for a new
entry: then it is one of the same key, or none that stays is older. -/
theorem cache_bounded (legacy : Legacy F) (es : List (Step F)) :
    (after legacy es).cache.length ≤ 512 ∧
    ((after legacy es).cache.map (·.2.size)).sum ≤ 8 * 1024 * 1024 ∧
    ∀ a, ∀ e ∈ (after legacy es).cache, e ∉ (after legacy (es ++ [a])).cache →
      (∃ b, a = .other b ∧ clears (after legacy es).base b = true) ∨
      (∃ c c' servers now, a = .refresh c servers now ∧ validateConfig c = .ok c' ∧
        (validKey servers c'.domains e.1 = false ∨
          e.2.result.timestamp + c'.referenceTTLSeconds * 1000 < now)) ∨
      ∃ key v, Adds (after legacy es) a key v ∧
        (e.1 = key ∨ ∀ f ∈ (after legacy (es ++ [a])).cache,
          e.2.result.timestamp ≤ f.2.result.timestamp) := by
  have hinv := inv_after legacy es
  have hfits := hinv.fitting
  simp only [fits, Bool.and_eq_true, decide_eq_true_eq] at hfits
  refine ⟨hfits.1, hfits.2, ?_⟩
  intro a e he hlost
  rw [after_snoc] at hlost ⊢
  obtain ⟨key, v, hadds⟩ | hsame | ⟨b, rfl, hclears, -⟩ | ⟨c, c', servers, now, rfl, hc, hprune⟩ :=
    step_cache hinv a
  · right; right
    refine ⟨key, v, hadds, ?_⟩
    by_cases hk : e.1 = key
    · exact .inl hk
    · exact .inr (hadds.trimmed.older e (mem_put.mpr (.inr ⟨he, hk⟩)) hlost)
  · exact absurd (hsame ▸ he) hlost
  · exact .inl ⟨b, rfl, hclears⟩
  · right; left
    refine ⟨c, c', servers, now, rfl, hc, ?_⟩
    by_contra hkeep
    rw [not_or, Bool.not_eq_false, not_lt] at hkeep
    rw [hprune] at hlost
    apply hlost
    refine List.mem_filter.mpr ⟨he, ?_⟩
    rw [hkeep.1, Bool.true_and, decide_eq_true_eq]
    omega

/-- What a refresh leaves in the cache: the answers, no older than its limit, of the probes of
those servers that are trusted and enabled in its list, as they are there, for the domains that it
has read, and nothing that was not there. -/
theorem refresh_cache (legacy : Legacy F) {es : List (Step F)} (hes : ∀ e ∈ es, PlainStep e)
    (hmutex : (after legacy es).base.mutex = none) {c c' : Config F}
    (hc : validateConfig c = .ok c') (servers : List Server) (now : Int) :
    (after legacy (es ++ [.refresh c servers now])).cache ⊆ (after legacy es).cache ∧
    ∀ e ∈ (after legacy es).cache, ∃ source domain, e.1 = cacheKey source domain ∧
      (e ∈ (after legacy (es ++ [.refresh c servers now])).cache ↔
        (nul ∉ source.address ∧ (∃ s ∈ servers, s.enabled = true ∧ s.trusted = true ∧ s.id = source.id ∧
          s.trustEpoch = source.trustEpoch ∧ s.address = source.address) ∧
          domain ∈ c'.domains) ∧
        now ≤ e.2.result.timestamp + c'.referenceTTLSeconds * 1000) := by
  refine ⟨fun e he => ?_, fun e he => ?_⟩
  · rw [after_snoc] at he
    simp only [step, refresh, hc, hmutex, if_true, prune, List.mem_filter] at he
    exact he.1
  obtain ⟨start, ⟨pre, i, source, domain, g, raw, error, ok, walk, hc', hpre, -, hkey⟩, -⟩ :=
    origin he
  have hin : ∀ e ∈ pre, PlainStep e := fun e he =>
    hes e (((List.prefix_append _ _).trans hpre).subset he)
  have hd := plain_started hin hc'.started
  refine ⟨source, domain, hkey, ?_⟩
  rw [after_snoc]
  simp only [step, refresh, hc, hmutex, if_true, prune, List.mem_filter, he, true_and,
    Bool.and_eq_true, decide_eq_true_eq, hkey,
    validKey_cacheKey hd (plain_validateConfig hc)]
  constructor
  · rintro ⟨hv, ht⟩
    exact ⟨hv, by omega⟩
  · rintro ⟨hv, ht⟩
    exact ⟨hv, by omega⟩

end

section

local instance : CaseTables := asciiTables

def straight : Walk (GoString × CachedProbe ℚ) := Walk.straight _

def fillingRun : List (Step ℚ) :=
  untilProbe.map .other ++ [.other (.move 0 .startProbe),
    .other (.move 0 (.answer (Round.exampleRun none) 2010)), .other (.move 0 .confirmSource),
    .lock 0 straight, .commit 0 [] [] true straight]

theorem plain_exampleDomain : Plain exampleDomain := by
  unfold Plain
  decide +kernel

theorem plain_fillingRun : ∀ e ∈ fillingRun, PlainStep e := by
  simp [fillingRun, untilProbe, PlainStep, plain_exampleDomain]

def pausedTurn : Turn ℚ :=
  { slot := .paused, cancelled := false, before := openStore emptyLegacy,
    run := Round.exampleRun none, now := 2500, after := openStore emptyLegacy, saveErr := [] }

theorem referenceLookup_explained_example : ∃ result,
    referenceLookup 300 storedSource exampleDomain pausedTurn
      (2500, (after emptyLegacy fillingRun).cache)
      (2500, (after emptyLegacy (fillingRun ++ [])).cache) = (result, []) ∧
    (Explained emptyLegacy fillingRun 300 2500 storedSource exampleDomain result ∨
      Explained emptyLegacy (fillingRun ++ []) 300 2500 storedSource exampleDomain result) := by
  have hplain : ∀ e ∈ fillingRun ++ [], PlainStep e := by
    rw [List.append_nil]
    exact plain_fillingRun
  have hhit : (referenceLookup 300 storedSource exampleDomain pausedTurn
      (2500, (after emptyLegacy fillingRun).cache)
      (2500, (after emptyLegacy (fillingRun ++ [])).cache)).2 = [] := by decide +kernel
  have hpaused : (lookup storedSource exampleDomain pausedTurn).2 ≠ [] := by decide +kernel
  have h := referenceLookup_explained emptyLegacy hplain 300 2500 2500 storedSource
    plain_exampleDomain pausedTurn _ rfl
  refine ⟨_, Prod.ext rfl hhit, ?_⟩
  cases h with
  | inl hlookup => exact absurd (hlookup ▸ hhit) hpaused
  | inr hcached => exact hcached.2

def otherServer : Server := { trustedServer with address := str "udp://9.9.9.9:53" }

def otherSource : Server := { storedSource with id := 2, address := str "udp://9.9.9.9:53" }

def cachingRun : List (Step ℚ) :=
  [.other (.store (.saveServer 900 trustedServer)), .other (.store (.saveServer 900 otherServer)),
    .other (.queueAll defaultConfig [storedSource, otherSource]),
    .other (.begin storedSource exampleDomain), .other (.begin otherSource exampleDomain)] ++
  [0, 1].flatMap fun i =>
    [.other (.move i .readGeneration), .other (.move i .checkSource), .other (.move i .startProbe),
      .other (.move i (.answer (Round.exampleRun none) 2010)), .other (.move i .confirmSource),
      .lock i straight, .commit i [] [] true straight]

theorem refresh_cache_example : ∃ c', validateConfig (defaultConfig : Config ℚ) = .ok c' ∧
    (after emptyLegacy cachingRun).cache.length = 2 ∧
    (after emptyLegacy (cachingRun ++ [.refresh defaultConfig [otherSource] 2500])).cache.length =
      1 ∧
    (after emptyLegacy (cachingRun ++ [.refresh defaultConfig [otherSource] 2500])).cache ⊆
      (after emptyLegacy cachingRun).cache ∧
    ∀ e ∈ (after emptyLegacy cachingRun).cache, ∃ source domain, e.1 = cacheKey source domain ∧
      (e ∈ (after emptyLegacy (cachingRun ++
          [.refresh defaultConfig [otherSource] 2500])).cache ↔
        (nul ∉ source.address ∧ (∃ s ∈ [otherSource], s.enabled = true ∧ s.trusted = true ∧
          s.id = source.id ∧ s.trustEpoch = source.trustEpoch ∧ s.address = source.address) ∧
          domain ∈ c'.domains) ∧
        2500 ≤ e.2.result.timestamp + c'.referenceTTLSeconds * 1000) := by
  have hc : validateConfig (defaultConfig : Config ℚ) = .ok defaultConfig := by decide +kernel
  have hplain : ∀ e ∈ cachingRun, PlainStep e := by
    simp [cachingRun, PlainStep, plain_exampleDomain]
  have hrun : ((after emptyLegacy cachingRun).cache.length = 2 ∧
      (after emptyLegacy cachingRun).base.mutex = none) ∧
      (after emptyLegacy (cachingRun ++
        [.refresh defaultConfig [otherSource] 2500])).cache.length = 1 := by
    decide +kernel
  exact ⟨_, hc, hrun.1.1, hrun.2,
    refresh_cache emptyLegacy hplain hrun.1.2 hc [otherSource] 2500⟩

end

end DnsMonitor.Monitor.Caching

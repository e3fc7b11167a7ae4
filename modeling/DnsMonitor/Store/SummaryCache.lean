import DnsMonitor.Store.Run
import Mathlib.Logic.Function.Basic

namespace DnsMonitor.Store.SummaryCache

open DnsMonitor.Model DnsMonitor.Lib.Runs DnsMonitor.Store.Schema DnsMonitor.Store.Servers
open DnsMonitor.Store.Migration DnsMonitor.Store.Run
open DnsMonitor.Store.Cleanup (CleanupStep)
open DnsMonitor.Go.Strings DnsMonitor.Go.Unicode DnsMonitor.Go.Errors DnsMonitor.Go.Float

/-- What a statement has read, with the number of commits that came before it. -/
structure Read (F : Type) where
  commits : Nat
  db : DB F

/-- What a call of `Summary` has kept for the next ones. -/
structure Cached (F : Type) where
  reads : List (Read F)
  cacheAt : Int
  cacheDuration : Int
  cacheVersion : Nat

/-- A call of `Summary`: it waits for the mutex, then it loads the version, then it reads, one
statement after the other. What it returns is what its statements have read. -/
inductive SummaryPhase (F : Type) where
  | waiting (since now : Int)
  | locked (since now : Int)
  | reading (since now : Int) (version : Nat) (reads : List (Read F))
  | returned (reads : List (Read F))
  | failed

/-- A call that changes the store: its transactions that are left, the increment of the version,
and what else it does. `last` counts the commits up to its last one. -/
inductive WriterPhase (F : Type) where
  | transacting (left : List (Event F)) (last : Nat)
  | committed (last : Nat)
  | counted (last version : Nat)
  | returned (last version : Nat)
  | failed

structure Shared (F : Type) where
  db : DB F
  commits : Nat
  version : Nat
  cache : Option (Cached F)
  summaryMu : Option Nat
  summaries : Nat → Option (SummaryPhase F)
  writers : Nat → Option (WriterPhase F)

/-- A method that changes what `Summary` shows. How many transactions `Cleanup` takes depends on
the rows it finds. -/
inductive Method (F : Type) where
  | saveConfig (config : Config F)
  | saveServer (now : Int) (server : Server)
  | deleteServer (id : Int)
  | saveRound (round : Round F)
  | saveOverride (now : Int) (override : Override)
  | importServers (now : Int) (snapshot : List Server) (items : List ServerImportItem)
  | cleanup (before : Int) (transactions : List CleanupStep)

inductive Action (F : Type) where
  | callSummary (j : Nat) (since now : Int)
  | lock (j : Nat)
  | load (j : Nat)
  | read (j : Nat)
  | finish (j : Nat)
  | failSummary (j : Nat)
  | call (i : Nat) (m : Method F)
  | transact (i : Nat)
  | count (i : Nat)
  | finishCall (i : Nat) (ok : Bool)

section

variable {F : Type}

def initial (db : DB F) : Shared F where
  db
  commits := 0
  version := 0
  cache := none
  summaryMu := none
  summaries _ := none
  writers _ := none

def Method.transactions : Method F → List (Event F)
  | .saveConfig c => [.saveConfig c]
  | .saveServer now v => [.saveServer now v]
  | .deleteServer id => [.deleteServer id]
  | .saveRound v => [.saveRound v]
  | .saveOverride now v => [.saveOverride now v]
  | .importServers now snapshot items => [.importServers now snapshot items]
  | .cleanup before ts => ts.map (.cleanup before)

def Shared.setSummary (s : Shared F) (j : Nat) (p : SummaryPhase F) : Shared F :=
  { s with summaries := Function.update s.summaries j (some p) }

def Shared.setWriter (s : Shared F) (i : Nat) (p : WriterPhase F) : Shared F :=
  { s with writers := Function.update s.writers i (some p) }

/-- The cache answers the same duration for five seconds, as long as the version is the same. -/
def hits (c : Cached F) (version : Nat) (since now : Int) : Bool :=
  c.cacheVersion = version && c.cacheDuration = now - since && c.cacheAt ≤ now &&
    now - c.cacheAt < 5000

def load (s : Shared F) (j : Nat) (since now : Int) : Shared F :=
  match s.cache with
  | some c =>
    if hits c s.version since now then
      { s.setSummary j (.returned c.reads) with summaryMu := none }
    else s.setSummary j (.reading since now s.version [])
  | none => s.setSummary j (.reading since now s.version [])

def finish (s : Shared F) (j : Nat) (since now : Int) (version : Nat) (reads : List (Read F)) :
    Shared F :=
  { s.setSummary j (.returned reads) with
    summaryMu := none
    cache := if s.version = version then some ⟨reads, now, now - since, version⟩ else s.cache }

def next (left : List (Event F)) (last : Nat) : WriterPhase F :=
  if left = [] then .committed last else .transacting left last

variable [GoFloat F] [CaseTables]

/-- Does the transaction of an import create or update a server? Otherwise it is empty. -/
def changes (db : DB F) : Event F → Bool
  | .importServers now snapshot items =>
    match importServers db now snapshot items with
    | .ok (_, r) => 0 < r.created || 0 < r.updated
    | .error _ => true
  | _ => true

def transact (s : Shared F) (i : Nat) (e : Event F) (left : List (Event F)) : Shared F :=
  match apply s.db e with
  | .error _ => s.setWriter i .failed
  | .ok db =>
    if changes s.db e then
      { s.setWriter i (next left (s.commits + 1)) with db, commits := s.commits + 1 }
    else s.setWriter i (.returned 0 0)

def step (s : Shared F) : Action F → Shared F
  | .callSummary j since now =>
    if s.summaries j = none then
      s.setSummary j (if now ≤ since then .failed else .waiting since now)
    else s
  | .lock j =>
    match s.summaries j with
    | some (.waiting since now) =>
      if s.summaryMu = none then { s.setSummary j (.locked since now) with summaryMu := some j }
      else s
    | _ => s
  | .load j =>
    match s.summaries j with
    | some (.locked since now) => load s j since now
    | _ => s
  | .read j =>
    match s.summaries j with
    | some (.reading since now version reads) =>
      s.setSummary j (.reading since now version (reads ++ [⟨s.commits, s.db⟩]))
    | _ => s
  | .finish j =>
    match s.summaries j with
    | some (.reading since now version reads) => finish s j since now version reads
    | _ => s
  | .failSummary j =>
    match s.summaries j with
    | some (.reading _ _ _ _) => { s.setSummary j .failed with summaryMu := none }
    | _ => s
  | .call i m =>
    if s.writers i = none then s.setWriter i (next m.transactions 0) else s
  | .transact i =>
    match s.writers i with
    | some (.transacting (e :: left) _) => transact s i e left
    | _ => s
  | .count i =>
    match s.writers i with
    | some (.committed last) =>
      { s.setWriter i (.counted last (s.version + 1)) with version := s.version + 1 }
    | _ => s
  | .finishCall i ok =>
    match s.writers i with
    | some (.counted last version) =>
      s.setWriter i (if ok then .returned last version else .failed)
    | _ => s

end

section

variable {F : Type} {db db' : DB F}

def written (s : ImportState F) : Int := s.result.created + s.result.updated

theorem importItem_written {now : Int} {s s' : ImportState F} {item : ServerImportItem}
    (h : importItem now s item = .ok s') :
    s'.db = s.db ∧ written s' = written s ∨ written s' = written s + 1 := by
  unfold written
  obtain ⟨hdb, hresult⟩ | ⟨_, -, hresult⟩ | ⟨_, -, hresult⟩ := importItem_ok h <;> rw [hresult]
  · exact .inl ⟨hdb, rfl⟩
  · right
    dsimp only
    omega
  · right
    dsimp only
    omega

theorem importItems_written {now : Int} {items : List ServerImportItem} {s s' : ImportState F}
    (h : items.foldlM (importItem now) s = .ok s') :
    s'.db = s.db ∧ written s' = written s ∨ written s < written s' := by
  induction items generalizing s with
  | nil =>
    rw [List.foldlM_nil, pure_eq_ok] at h
    rw [h]
    exact .inl ⟨rfl, rfl⟩
  | cons item items ih =>
    rw [List.foldlM_cons, bind_eq_ok] at h
    obtain ⟨t, ht, h⟩ := h
    have hfirst := importItem_written ht
    have hrest := ih h
    cases hfirst with
    | inl hsame =>
      rw [hsame.1, hsame.2] at hrest
      exact hrest
    | inr hmore =>
      right
      cases hrest with
      | inl hsame => omega
      | inr hlt => omega

variable [GoFloat F] [CaseTables]

theorem apply_of_unchanged {e : Event F} (hc : changes db e = false) (h : apply db e = .ok db') :
    db' = db := by
  unfold changes at hc
  split at hc
  · rename_i now snapshot items
    simp only [apply, map_eq_ok] at h
    obtain ⟨r, hr, rfl⟩ := h
    simp only [hr, Bool.or_eq_false_iff, decide_eq_false_iff_not] at hc
    simp only [importServers, bind_eq_ok, pure_eq_ok] at hr
    obtain ⟨_, _, _, _, s, hs, rfl⟩ := hr
    cases importItems_written hs with
    | inl hsame => exact hsame.1
    | inr hlt =>
      dsimp only [written] at hc hlt
      omega
  · cases hc

end

section

variable {F : Type} {s t : Shared F} {i j : Nat}

def isQuiet : SummaryPhase F → Bool
  | .reading _ _ _ _ => false
  | .returned _ => false
  | _ => true

inductive SummaryChange (s : Shared F) (j : Nat) : SummaryPhase F → Prop where
  | quiet (p : SummaryPhase F) (h : isQuiet p = true) : SummaryChange s j p
  | starts (since now : Int) : SummaryChange s j (.reading since now s.version [])
  | reads (since now : Int) (version : Nat) (reads : List (Read F))
      (h : s.summaries j = some (.reading since now version reads)) :
      SummaryChange s j (.reading since now version (reads ++ [⟨s.commits, s.db⟩]))
  | returns (since now : Int) (version : Nat) (reads : List (Read F))
      (h : s.summaries j = some (.reading since now version reads)) :
      SummaryChange s j (.returned reads)
  | hits (c : Cached F) (h : s.cache = some c) (hv : c.cacheVersion = s.version) :
      SummaryChange s j (.returned c.reads)

inductive WriterChange (s t : Shared F) (i : Nat) : WriterPhase F → Prop where
  | fails : WriterChange s t i .failed
  | transacts (left : List (Event F)) (last : Nat) (h : last ≤ t.commits) :
      WriterChange s t i (next left last)
  | counts (last : Nat) (h : s.writers i = some (.committed last))
      (hv : t.version = s.version + 1) : WriterChange s t i (.counted last (s.version + 1))
  | returns (last version : Nat) (h : s.writers i = some (.counted last version)) :
      WriterChange s t i (.returned last version)
  | empty : WriterChange s t i (.returned 0 0)

structure Change (s t : Shared F) : Prop where
  version : s.version ≤ t.version
  commits : s.commits ≤ t.commits
  cache : t.cache = s.cache ∨ ∃ j since now version reads,
    s.summaries j = some (.reading since now version reads) ∧
      t.cache = some ⟨reads, now, now - since, version⟩
  summaries : ∀ j, t.summaries j = s.summaries j ∨
    ∃ p, t.summaries j = some p ∧ SummaryChange s j p
  writers : ∀ i, t.writers i = s.writers i ∨
    ∃ p, t.writers i = some p ∧ WriterChange s t i p

theorem Change.summary (h : Change s t) {p : SummaryPhase F} (hp : t.summaries j = some p) :
    s.summaries j = some p ∨ SummaryChange s j p := by
  cases h.summaries j with
  | inl hsame => exact .inl (hsame ▸ hp)
  | inr hnew =>
    obtain ⟨q, hq, hchange⟩ := hnew
    rw [hp] at hq
    exact .inr (Option.some.inj hq ▸ hchange)

theorem Change.writer (h : Change s t) {p : WriterPhase F} (hp : t.writers i = some p) :
    s.writers i = some p ∨ WriterChange s t i p := by
  cases h.writers i with
  | inl hsame => exact .inl (hsame ▸ hp)
  | inr hnew =>
    obtain ⟨q, hq, hchange⟩ := hnew
    rw [hp] at hq
    exact .inr (Option.some.inj hq ▸ hchange)

theorem Change.cached (h : Change s t) {c : Cached F} (hc : t.cache = some c) : s.cache = some c ∨
    ∃ j since now, s.summaries j = some (.reading since now c.cacheVersion c.reads) := by
  cases h.cache with
  | inl hsame => exact .inl (hsame ▸ hc)
  | inr hnew =>
    obtain ⟨j, since, now, version, reads, hreading, hnew⟩ := hnew
    rw [hc] at hnew
    cases hnew
    exact .inr ⟨j, since, now, hreading⟩

theorem Change.refl (s : Shared F) : Change s s where
  version := le_rfl
  commits := le_rfl
  cache := .inl rfl
  summaries _ := .inl rfl
  writers _ := .inl rfl

theorem change_setSummary {p : SummaryPhase F} (h : SummaryChange s j p) (mu : Option Nat) :
    Change s { s.setSummary j p with summaryMu := mu } where
  version := le_rfl
  commits := le_rfl
  cache := .inl rfl
  summaries j' := by
    by_cases hj : j' = j
    · subst hj
      exact .inr ⟨p, Function.update_self _ _ _, h⟩
    · exact .inl (Function.update_of_ne hj _ _)
  writers _ := .inl rfl

theorem change_setWriter {p : WriterPhase F} (hversion : s.version ≤ t.version)
    (hcommits : s.commits ≤ t.commits) (hcache : t.cache = s.cache)
    (hsummaries : t.summaries = s.summaries)
    (hwriters : t.writers = Function.update s.writers i (some p)) (h : WriterChange s t i p) :
    Change s t where
  version := hversion
  commits := hcommits
  cache := .inl hcache
  summaries _ := .inl (by rw [hsummaries])
  writers i' := by
    rw [hwriters]
    by_cases hi : i' = i
    · subst hi
      exact .inr ⟨p, Function.update_self _ _ _, h⟩
    · exact .inl (Function.update_of_ne hi _ _)

theorem change_load (s : Shared F) (j : Nat) (since now : Int) : Change s (load s j since now) := by
  unfold load
  split
  · rename_i c hc
    split_ifs with hhit
    · simp only [hits, Bool.and_eq_true, decide_eq_true_eq] at hhit
      exact change_setSummary (.hits c hc hhit.1.1.1) none
    · exact change_setSummary (.starts since now) s.summaryMu
  · exact change_setSummary (.starts since now) s.summaryMu

theorem change_finish {since now : Int} {version : Nat} {reads : List (Read F)}
    (h : s.summaries j = some (.reading since now version reads)) :
    Change s (finish s j since now version reads) := by
  have hset := change_setSummary (.returns since now version reads h) none
  refine ⟨le_rfl, le_rfl, ?_, hset.summaries, fun _ => .inl rfl⟩
  unfold finish
  split_ifs
  · exact .inr ⟨j, since, now, version, reads, h, rfl⟩
  · exact .inl rfl

variable [GoFloat F] [CaseTables]

theorem change_transact (s : Shared F) (i : Nat) (e : Event F) (left : List (Event F)) :
    Change s (transact s i e left) := by
  unfold transact
  split
  · exact change_setWriter le_rfl le_rfl rfl rfl rfl .fails
  · split_ifs
    · exact change_setWriter le_rfl (Nat.le_succ _) rfl rfl rfl (.transacts left _ le_rfl)
    · exact change_setWriter le_rfl le_rfl rfl rfl rfl .empty

theorem change_step (s : Shared F) (a : Action F) : Change s (step s a) := by
  cases a with
  | callSummary j since now =>
    simp only [step]
    split_ifs
    · exact change_setSummary (.quiet _ rfl) s.summaryMu
    · exact change_setSummary (.quiet _ rfl) s.summaryMu
    · exact Change.refl s
  | lock j =>
    simp only [step]
    split
    · split_ifs
      · exact change_setSummary (.quiet _ rfl) (some j)
      · exact Change.refl s
    · exact Change.refl s
  | load j =>
    simp only [step]
    split
    · exact change_load s j _ _
    · exact Change.refl s
  | read j =>
    simp only [step]
    split
    · rename_i h
      exact change_setSummary (.reads _ _ _ _ h) s.summaryMu
    · exact Change.refl s
  | finish j =>
    simp only [step]
    split
    · rename_i h
      exact change_finish h
    · exact Change.refl s
  | failSummary j =>
    simp only [step]
    split
    · exact change_setSummary (.quiet _ rfl) none
    · exact Change.refl s
  | call i m =>
    simp only [step]
    split_ifs
    · exact change_setWriter le_rfl le_rfl rfl rfl rfl (.transacts _ 0 (Nat.zero_le _))
    · exact Change.refl s
  | transact i =>
    simp only [step]
    split
    · exact change_transact s i _ _
    · exact Change.refl s
  | count i =>
    simp only [step]
    split
    · rename_i h
      exact change_setWriter (Nat.le_succ _) le_rfl rfl rfl rfl (.counts _ h rfl)
    · exact Change.refl s
  | finishCall i ok =>
    simp only [step]
    split
    · rename_i h
      cases ok with
      | true => exact change_setWriter le_rfl le_rfl rfl rfl rfl (.returns _ _ h)
      | false => exact change_setWriter le_rfl le_rfl rfl rfl rfl .fails
    · exact Change.refl s

end

section

variable {F : Type} {s t : Shared F} {last reached j : Nat}

/-- Whatever was read since a version was reached was read after a number of commits. -/
structure Settled (last reached : Nat) (s : Shared F) : Prop where
  version : reached ≤ s.version
  commits : last ≤ s.commits
  cache : ∀ c, s.cache = some c → reached ≤ c.cacheVersion → ∀ r ∈ c.reads, last ≤ r.commits
  reading : ∀ j since now loaded reads, s.summaries j = some (.reading since now loaded reads) →
    reached ≤ loaded → ∀ r ∈ reads, last ≤ r.commits

theorem settled_change (h : Settled last reached s) (hc : Change s t) :
    Settled last reached t where
  version := h.version.trans hc.version
  commits := h.commits.trans hc.commits
  cache c hcache hv r hr := by
    cases hc.cached hcache with
    | inl hold => exact h.cache c hold hv r hr
    | inr hnew =>
      obtain ⟨j, since, now, hreading⟩ := hnew
      exact h.reading j since now _ _ hreading hv r hr
  reading j since now loaded reads hphase hv r hr := by
    cases hc.summary hphase with
    | inl hold => exact h.reading j since now loaded reads hold hv r hr
    | inr hchange =>
      cases hchange with
      | quiet _ hquiet => cases hquiet
      | starts since now => cases hr
      | reads since now loaded reads hbefore =>
        cases List.mem_append.mp hr with
        | inl hr => exact h.reading j since now loaded reads hbefore hv r hr
        | inr hr =>
          rw [List.mem_singleton.mp hr]
          exact h.commits

/-- Versions are loaded as they are, and calls that have counted are settled. -/
structure Inv (s : Shared F) : Prop where
  cache : ∀ c, s.cache = some c → c.cacheVersion ≤ s.version
  reading : ∀ j since now loaded reads, s.summaries j = some (.reading since now loaded reads) →
    loaded ≤ s.version
  committed : ∀ i last, s.writers i = some (.committed last) → last ≤ s.commits
  counted : ∀ i last reached, s.writers i = some (.counted last reached) → Settled last reached s
  returned : ∀ i last reached, s.writers i = some (.returned last reached) →
    Settled last reached s

theorem inv_initial (db : DB F) : Inv (initial db) where
  cache _ h := by cases h
  reading _ _ _ _ _ h := by cases h
  committed _ _ h := by cases h
  counted _ _ _ h := by cases h
  returned _ _ _ h := by cases h

theorem settled_count (hcache : ∀ c, t.cache = some c → c.cacheVersion ≤ s.version)
    (hreading : ∀ j since now loaded reads,
      t.summaries j = some (.reading since now loaded reads) → loaded ≤ s.version)
    (hversion : t.version = s.version + 1) (hcommits : last ≤ t.commits) :
    Settled last (s.version + 1) t where
  version := hversion.ge
  commits := hcommits
  cache c hc hv := by
    have hle := hcache c hc
    omega
  reading j since now loaded reads hphase hv := by
    have hle := hreading j since now loaded reads hphase
    omega

theorem settled_zero (s : Shared F) : Settled 0 0 s where
  version := Nat.zero_le _
  commits := Nat.zero_le _
  cache _ _ _ _ _ := Nat.zero_le _
  reading _ _ _ _ _ _ _ _ _ := Nat.zero_le _

theorem inv_change (h : Inv s) (hc : Change s t) : Inv t := by
  have hcache : ∀ c, t.cache = some c → c.cacheVersion ≤ s.version := by
    intro c hcc
    cases hc.cached hcc with
    | inl hold => exact h.cache c hold
    | inr hnew =>
      obtain ⟨j, since, now, hreading⟩ := hnew
      exact h.reading j since now _ _ hreading
  have hreading : ∀ j since now loaded reads,
      t.summaries j = some (.reading since now loaded reads) → loaded ≤ s.version := by
    intro j since now loaded reads hphase
    cases hc.summary hphase with
    | inl hold => exact h.reading j since now loaded reads hold
    | inr hchange =>
      cases hchange with
      | quiet _ hquiet => cases hquiet
      | starts since now => exact le_rfl
      | reads since now loaded reads hbefore => exact h.reading j since now loaded reads hbefore
  refine ⟨fun c hcc => (hcache c hcc).trans hc.version,
    fun j since now loaded reads hphase =>
      (hreading j since now loaded reads hphase).trans hc.version, ?_, ?_, ?_⟩
  · intro i last hphase
    cases hc.writer hphase with
    | inl hold => exact (h.committed i last hold).trans hc.commits
    | inr hchange =>
      generalize he : WriterPhase.committed last = q at hchange
      cases hchange with
      | transacts left last' hle =>
        unfold next at he
        split_ifs at he
        cases he
        exact hle
      | _ => cases he
  · intro i last reached hphase
    cases hc.writer hphase with
    | inl hold => exact settled_change (h.counted i last reached hold) hc
    | inr hchange =>
      generalize he : WriterPhase.counted last reached = q at hchange
      cases hchange with
      | counts last' hbefore hv =>
        cases he
        exact settled_count hcache hreading hv ((h.committed i last hbefore).trans hc.commits)
      | transacts left last' hle =>
        unfold next at he
        split_ifs at he
      | _ => cases he
  · intro i last reached hphase
    cases hc.writer hphase with
    | inl hold => exact settled_change (h.returned i last reached hold) hc
    | inr hchange =>
      generalize he : WriterPhase.returned last reached = q at hchange
      cases hchange with
      | returns last' reached' hbefore =>
        cases he
        exact settled_change (h.counted i last reached hbefore) hc
      | empty =>
        cases he
        exact settled_zero t
      | transacts left last' hle =>
        unfold next at he
        split_ifs at he
      | _ => cases he

/-- A call of `Summary` that has begun after the version was reached. -/
structure Follows (last reached j : Nat) (s : Shared F) : Prop where
  settled : Settled last reached s
  reading : ∀ since now loaded reads, s.summaries j = some (.reading since now loaded reads) →
    reached ≤ loaded
  returned : ∀ reads, s.summaries j = some (.returned reads) → ∀ r ∈ reads, last ≤ r.commits

theorem follows_change (h : Follows last reached j s) (hc : Change s t) :
    Follows last reached j t := by
  refine ⟨settled_change h.settled hc, ?_, ?_⟩
  · intro since now loaded reads hphase
    cases hc.summary hphase with
    | inl hold => exact h.reading since now loaded reads hold
    | inr hchange =>
      cases hchange with
      | quiet _ hquiet => cases hquiet
      | starts since now => exact h.settled.version
      | reads since now loaded reads hbefore => exact h.reading since now loaded reads hbefore
  · intro reads hphase
    cases hc.summary hphase with
    | inl hold => exact h.returned reads hold
    | inr hchange =>
      cases hchange with
      | quiet _ hquiet => cases hquiet
      | returns since now loaded reads hbefore =>
        exact h.settled.reading j since now loaded reads hbefore
          (h.reading since now loaded reads hbefore)
      | hits c hcache hv =>
        -- the cache answers only under the present version
        exact h.settled.cache c hcache (hv ▸ h.settled.version)

end

section

variable {F : Type} {s t : Shared F} {r : Read F}

inductive Held (s : Shared F) (r : Read F) : Prop where
  | cache (c : Cached F) (h : s.cache = some c) (hr : r ∈ c.reads)
  | reading (j : Nat) (since now : Int) (version : Nat) (reads : List (Read F))
      (h : s.summaries j = some (.reading since now version reads)) (hr : r ∈ reads)
  | returned (j : Nat) (reads : List (Read F)) (h : s.summaries j = some (.returned reads))
      (hr : r ∈ reads)

theorem held_change (hc : Change s t) (h : Held t r) : Held s r ∨ r = ⟨s.commits, s.db⟩ := by
  cases h with
  | cache c hcache hr =>
    cases hc.cached hcache with
    | inl hold => exact .inl (.cache c hold hr)
    | inr hnew =>
      obtain ⟨j, since, now, hreading⟩ := hnew
      exact .inl (.reading j since now _ _ hreading hr)
  | reading j since now version reads hphase hr =>
    cases hc.summary hphase with
    | inl hold => exact .inl (.reading j since now version reads hold hr)
    | inr hchange =>
      cases hchange with
      | quiet _ hquiet => cases hquiet
      | starts since now => cases hr
      | reads since now version reads hbefore =>
        cases List.mem_append.mp hr with
        | inl hr => exact .inl (.reading j since now version reads hbefore hr)
        | inr hr => exact .inr (List.mem_singleton.mp hr)
  | returned j reads hphase hr =>
    cases hc.summary hphase with
    | inl hold => exact .inl (.returned j reads hold hr)
    | inr hchange =>
      cases hchange with
      | quiet _ hquiet => cases hquiet
      | returns since now version reads hbefore =>
        exact .inl (.reading j since now version reads hbefore hr)
      | hits c hcache hv => exact .inl (.cache c hcache hr)

variable [GoFloat F] [CaseTables]

theorem held_run (db : DB F) {es : List (Action F)} (h : Held (run step (initial db) es) r) :
    ∃ fs, fs <+: es ∧ (run step (initial db) fs).commits = r.commits ∧
      (run step (initial db) fs).db = r.db := by
  induction es using List.reverseRecOn with
  | nil =>
    cases h with
    | cache c h hr => cases h
    | reading j since now version reads h hr => cases h
    | returned j reads h hr => cases h
  | append_singleton es a ih =>
    rw [run_append] at h
    cases held_change (change_step _ a) h with
    | inl hold =>
      obtain ⟨fs, hfs, hcommits, hdb⟩ := ih hold
      exact ⟨fs, hfs.trans (List.prefix_append _ _), hcommits, hdb⟩
    | inr hnew => exact ⟨es, List.prefix_append _ _, by rw [hnew], by rw [hnew]⟩

/-- Every statement of which a call of `Summary` returns the result was executed after the commits
of a call that had returned before, whether the result comes from the cache or not. -/
theorem summary_sees_finished (db : DB F) (es fs : List (Action F)) {i j last reached : Nat}
    (hwriter : (run step (initial db) es).writers i = some (.returned last reached))
    (hnot : (run step (initial db) es).summaries j = none) {reads : List (Read F)}
    (hsummary : (run step (initial db) (es ++ fs)).summaries j = some (.returned reads)) :
    ∀ r ∈ reads, last ≤ r.commits ∧ ∃ gs, gs <+: es ++ fs ∧
      (run step (initial db) gs).commits = r.commits ∧
      (run step (initial db) gs).db = r.db := by
  have hinv : Inv (run step (initial db) es) :=
    run_invariant (fun s a h => inv_change h (change_step s a)) (inv_initial db) es
  have hbegin : Follows last reached j (run step (initial db) es) := by
    refine ⟨hinv.returned i last reached hwriter, ?_, ?_⟩
    · intro since now loaded reads hphase
      rw [hnot] at hphase
      cases hphase
    · intro reads hphase
      rw [hnot] at hphase
      cases hphase
  have hend : Follows last reached j (run step (initial db) (es ++ fs)) := by
    rw [run_append]
    exact run_invariant (fun s a h => follows_change h (change_step s a)) hbegin fs
  intro r hr
  exact ⟨hend.returned reads hsummary r hr, held_run db (.returned j reads hsummary hr)⟩

end

section

local instance : CaseTables := asciiTables

theorem summary_sees_finished_example :
    let es : List (Action ℚ) :=
      [.call 0 (.saveServer 900 exampleServer), .transact 0, .count 0, .finishCall 0 true]
    let fs : List (Action ℚ) :=
      [.callSummary 1 0 1000, .lock 1, .load 1, .read 1, .read 1, .finish 1, .callSummary 2 1 1001,
        .lock 2, .load 2]
    ∃ reads, (run step (initial emptyDB) (es ++ fs)).summaries 2 = some (.returned reads) ∧
      reads.length = 2 ∧ ∀ r ∈ reads, 1 ≤ r.commits ∧ ∃ gs, gs <+: es ++ fs ∧
        (run step (initial emptyDB) gs).commits = r.commits ∧
        (run step (initial emptyDB) gs).db = r.db := by
  intro es fs
  refine ⟨_, rfl, rfl, ?_⟩
  have hwriter : (run step (initial emptyDB) es).writers 0 = some (.returned 1 1) := rfl
  exact summary_sees_finished emptyDB es fs (j := 2) hwriter rfl rfl

end

end DnsMonitor.Store.SummaryCache

import DnsMonitor.Lib.Logs
import DnsMonitor.Monitor.Sweep
import DnsMonitor.Store.WellFormed

namespace DnsMonitor.Monitor.Collecting

open DnsMonitor.Model DnsMonitor.Lib.Logs DnsMonitor.Monitor.Collector DnsMonitor.Monitor.Sweep
open DnsMonitor.Monitor.Refresh (BatchState updateBatch_generation)
open DnsMonitor.Go.Strings DnsMonitor.Go.Unicode DnsMonitor.Go.Float

def workOf : Phase → Option (Work × Stage)
  | .collecting w stage => some (w, stage)
  | _ => none

def isStart (key : GoString) : Occurrence → Bool
  | .started k _ _ _ _ => k = key
  | _ => false

def notesOf (done : Nat) (log : List Occurrence) : List Note :=
  log.filterMap fun
    | .noted d note => if d = done then some note else none
    | _ => none

def Dropped (key : GoString) (log : List Occurrence) : Prop :=
  ∃ concurrency keys, .configured concurrency keys ∈ log ∧ key ∉ keys

/-- There was a pause, or `QueueAll` has started a batch. -/
def Interrupted (log : List Occurrence) : Prop :=
  .queuedAll ∈ log ∨ ∃ keys, .configured 0 keys ∈ log

/-- A collection for the domain may start: the last one with the same fingerprint was over long
enough before. -/
def Spaced (key fingerprint : GoString) (now : Int) (log : List Occurrence) : Prop :=
  SinceLast (isStart key) (fun e after => ∀ done startedAt sources,
    e = .started key done fingerprint startedAt sources → Dropped key after ∨
      ∃ finished cancelled, .ended key done finished cancelled ∈ after ∧
        (finished + 30000 ≤ now ∨ cancelled = true ∨ Interrupted after)) log

def Allowed (log : List Occurrence) : Occurrence → Prop
  | .started key _ fingerprint startedAt _ =>
    (∀ done fp t sources, .started key done fp t sources ∈ log →
      ∃ finished cancelled, .ended key done finished cancelled ∈ log) ∧
      Spaced key fingerprint startedAt log
  | .noted done (.queried serverID) =>
    (∃ key fp t sources, .started key done fp t sources ∈ log ∧ serverID ∈ sources) ∧
      .noted done (.queried serverID) ∉ log ∧ ∀ n, .noted done n ∈ log → isStop n = false
  | _ => True

theorem mem_notesOf {done : Nat} {log : List Occurrence} {n : Note} :
    n ∈ notesOf done log ↔ .noted done n ∈ log := by
  simp only [notesOf, List.mem_filterMap]
  constructor
  · rintro ⟨o, ho, hn⟩
    cases o with
    | noted d note =>
      dsimp only at hn
      split_ifs at hn with hd
      cases hn
      exact hd ▸ ho
    | _ => cases hn
  · exact fun h => ⟨_, h, if_pos rfl⟩

theorem notesOf_self (done : Nat) (note : Option Note) :
    notesOf done (note.map (.noted done)).toList = note.toList := by
  cases note with
  | none => rfl
  | some n => simp [notesOf]

theorem notesOf_ne {done d : Nat} (h : d ≠ done) (note : Option Note) :
    notesOf d (note.map (.noted done)).toList = [] := by
  cases note with
  | none => rfl
  | some n => simp [notesOf, h.symm]

theorem notesOf_append (done : Nat) (log l : List Occurrence) :
    notesOf done (log ++ l) = notesOf done log ++ notesOf done l := List.filterMap_append

section

variable {F : Type}

def runs (s : System F) (i : Nat) : Option (Work × Stage) :=
  (s.callers i).bind fun c => workOf c.phase

def isDone (s : System F) (i : Nat) : Bool := (s.callers i).any (·.cancelled)

/-- A collection that runs owns what the map has for its key. -/
structure Running (s : System F) (i : Nat) (w : Work) (stage : Stage) : Prop where
  entry : (w.key, w.state) ∈ s.referenceCollections
  done : (s.heap w.state).done = some w.done
  channel : w.done < s.channels
  closed : w.done ∉ s.closed
  kept : ∃ fp t sources, .started w.key w.done fp t sources ∈ s.log ∧ sources.Nodup ∧
    Kept sources (notesOf w.done s.log) (isDone s i) w stage

/-- The next collection for a domain need not wait. -/
def Excused (key : GoString) (cancelled : Bool) (log : List Occurrence) : Prop :=
  Dropped key log ∨ Interrupted log ∨ cancelled = true

/-- The next collection for a domain with the same fingerprint has to wait. -/
def Waits (s : System F) (key fp : GoString) (finished : Int) : Prop :=
  ∃ p, (key, p) ∈ s.referenceCollections ∧ (s.heap p).fingerprint = fp ∧
    finished + referenceMinInterval ≤ (s.heap p).nextAt

/-- What the last start of a collection for a domain has led to. -/
inductive Follow (s : System F) (key : GoString) (done : Nat) (fp : GoString)
    (after : List Occurrence) : Prop where
  | runs (i : Nat) (w : Work) (stage : Stage) (h : runs s i = some (w, stage)) (hkey : w.key = key)
      (hdone : w.done = done) (hfp : (s.heap w.state).fingerprint = fp)
      (hgeneration : w.generation ≠ s.batch.cacheGeneration → .queuedAll ∈ after)
      (hpause : s.concurrency = 0 → ∃ keys, .configured 0 keys ∈ after)
  | ended (finished : Int) (cancelled : Bool) (h : .ended key done finished cancelled ∈ after)
      (hnone : ∀ i w stage, Collecting.runs s i = some (w, stage) → w.key ≠ key)
      (hwait : Excused key cancelled after ∨ Waits s key fp finished)

structure Inv (s : System F) : Prop where
  keys : ∀ k p p', (k, p) ∈ s.referenceCollections → (k, p') ∈ s.referenceCollections → p = p'
  addresses : ∀ k k' p, (k, p) ∈ s.referenceCollections → (k', p) ∈ s.referenceCollections → k = k'
  allocated : ∀ k p, (k, p) ∈ s.referenceCollections → p < s.allocated
  closed : ∀ d ∈ s.closed, d < s.channels
  running : ∀ i w stage, runs s i = some (w, stage) → Running s i w stage
  unique : ∀ i j w w' stage stage', runs s i = some (w, stage) → runs s j = some (w', stage') →
    w.done = w'.done → i = j
  held : ∀ p d, (s.heap p).done = some d →
    ∃ i w stage, runs s i = some (w, stage) ∧ w.state = p ∧ w.done = d
  started : ∀ k d fp t sources, .started k d fp t sources ∈ s.log → d < s.channels ∧
    ((d ∈ s.closed ∧ ∃ finished cancelled, .ended k d finished cancelled ∈ s.log) ∨
      ∃ i w stage, runs s i = some (w, stage) ∧ w.done = d ∧ w.key = k)
  noted : ∀ d n, .noted d n ∈ s.log → d < s.channels
  allowed : Each Allowed s.log
  since : ∀ key, SinceLast (isStart key) (fun e after => ∀ done fp t sources,
    e = .started key done fp t sources → Follow s key done fp after) s.log

variable {s t : System F} {i : Nat} {c : Caller F}

theorem inv_initial (db : Store.Schema.DB F) (now : Int) : Inv (initial db now) where
  keys _ _ _ h := absurd h List.not_mem_nil
  addresses _ _ _ h := absurd h List.not_mem_nil
  allocated _ _ h := absurd h List.not_mem_nil
  closed _ h := absurd h List.not_mem_nil
  running _ _ _ h := by cases h
  unique _ _ _ _ _ _ h := by cases h
  held _ _ h := by cases h
  started _ _ _ _ _ h := absurd h List.not_mem_nil
  noted _ _ h := absurd h List.not_mem_nil
  allowed := each_nil
  since _ := sinceLast_nil

theorem Kept.cancel {sources : List Int} {notes : List Note} {a b : Bool} {w : Work} {stage : Stage}
    (h : Kept sources notes a w stage) (hab : a = true → b = true) : Kept sources notes b w stage where
  order := h.order
  stopped hstop := (h.stopped hstop).imp id fun ha => ⟨ha.1, hab ha.2⟩
  left := h.left

theorem Running.leave {w : Work} {stage : Stage} (h : Running s i w stage)
    (hentry : (w.key, w.state) ∈ t.referenceCollections)
    (hheap : (t.heap w.state).done = (s.heap w.state).done) (hchannels : s.channels ≤ t.channels)
    (hclosed : w.done ∉ t.closed) {l : List Occurrence} (hlog : t.log = s.log ++ l)
    (hnotes : notesOf w.done l = []) (hcancel : isDone s i = true → isDone t i = true) :
    Running t i w stage := by
  obtain ⟨-, hdone, hchannel, -, fp, startedAt, sources, hstart, hnodup, hkept⟩ := h
  refine ⟨hentry, hheap.trans hdone, hchannel.trans_le hchannels, hclosed, fp, startedAt, sources,
    ?_, hnodup, ?_⟩
  · rw [hlog]
    exact List.mem_append_left l hstart
  · rw [hlog, notesOf_append, hnotes, List.append_nil]
    exact Kept.cancel hkept hcancel

theorem Inv.started_leave (h : Inv s) {k fp : GoString} {d : Nat} {startedAt : Int}
    {sources : List Int} (hmem : .started k d fp startedAt sources ∈ s.log)
    (hchannels : s.channels ≤ t.channels) (hclosed : s.closed ⊆ t.closed) (hlog : s.log ⊆ t.log)
    (hruns : ∀ j u st, runs s j = some (u, st) →
      ∃ u' st', runs t j = some (u', st') ∧ u'.key = u.key ∧ u'.done = u.done) :
    d < t.channels ∧ ((d ∈ t.closed ∧ ∃ finished cancelled, .ended k d finished cancelled ∈ t.log) ∨
      ∃ j u st, runs t j = some (u, st) ∧ u.done = d ∧ u.key = k) := by
  obtain ⟨hd, hor⟩ := h.started k d fp startedAt sources hmem
  refine ⟨hd.trans_le hchannels, hor.imp ?_ ?_⟩
  · rintro ⟨hover, finished, cancelled, hended⟩
    exact ⟨hclosed hover, finished, cancelled, hlog hended⟩
  · rintro ⟨j, u, st, hj, hdone, hkey⟩
    obtain ⟨u', st', hj', hkey', hdone'⟩ := hruns j u st hj
    exact ⟨j, u', st', hj', hdone'.trans hdone, hkey'.trans hkey⟩

theorem Inv.single (h : Inv s) {i j : Nat} {w w' : Work} {stage stage' : Stage}
    (hi : runs s i = some (w, stage)) (hj : runs s j = some (w', stage')) (hkey : w.key = w'.key) :
    i = j := by
  have hri := h.running i w stage hi
  have hrj := h.running j w' stage' hj
  have hstate : w.state = w'.state := h.keys w'.key _ _ (hkey ▸ hri.entry) hrj.entry
  have hdone := hri.done
  rw [hstate, hrj.done] at hdone
  exact h.unique i j w w' stage stage' hi hj (Option.some.inj hdone).symm

theorem Inv.state_ne (h : Inv s) {w : Work} {stage : Stage} (hi : runs s i = some (w, stage))
    {key : GoString} {p : Nat} (hp : (key, p) ∈ s.referenceCollections) (hkey : key ≠ w.key) :
    p ≠ w.state := by
  rintro rfl
  exact hkey (h.addresses _ _ _ hp (h.running i w stage hi).entry)

structure Leaves (s t : System F) (key : GoString) : Prop where
  runs : ∀ i w stage, runs s i = some (w, stage) → w.key = key →
    ∃ w' stage', Collecting.runs t i = some (w', stage') ∧ w'.key = key ∧ w'.state = w.state ∧
      w'.done = w.done ∧ w'.generation = w.generation
  none : ∀ i w stage, Collecting.runs t i = some (w, stage) → w.key = key →
    ∃ w' stage', Collecting.runs s i = some (w', stage') ∧ w'.key = key
  entry : ∀ p, (key, p) ∈ s.referenceCollections → (key, p) ∈ t.referenceCollections ∧
    (t.heap p).fingerprint = (s.heap p).fingerprint ∧ (t.heap p).nextAt = (s.heap p).nextAt
  generation : t.batch.cacheGeneration = s.batch.cacheGeneration
  concurrency : t.concurrency = s.concurrency

theorem Excused.append {key : GoString} {cancelled : Bool} {log : List Occurrence}
    (h : Excused key cancelled log) (l : List Occurrence) : Excused key cancelled (log ++ l) := by
  refine h.imp ?_ fun hor => hor.imp (fun hint => hint.imp (List.mem_append_left l) ?_) id
  · rintro ⟨concurrency, keys, hmem, hkey⟩
    exact ⟨concurrency, keys, List.mem_append_left l hmem, hkey⟩
  · rintro ⟨keys, hmem⟩
    exact ⟨keys, List.mem_append_left l hmem⟩

theorem Follow.leaves (hs : Inv s) {key fp : GoString} {done : Nat} {after : List Occurrence}
    (h : Follow s key done fp after) (hl : Leaves s t key) (l : List Occurrence) :
    Follow t key done fp (after ++ l) := by
  cases h with
  | runs i w stage hi hkey hdone hfp hgeneration hpause =>
    obtain ⟨w', stage', hi', hkey', hstate, hdone', hgeneration'⟩ := hl.runs i w stage hi hkey
    have hentry := hl.entry w.state (hkey ▸ (hs.running i w stage hi).entry)
    refine .runs i w' stage' hi' hkey' (hdone'.trans hdone) ?_ ?_ ?_
    · rw [hstate, hentry.2.1, hfp]
    · rw [hgeneration', hl.generation]
      exact fun hne => List.mem_append_left l (hgeneration hne)
    · rw [hl.concurrency]
      intro hzero
      obtain ⟨keys, hmem⟩ := hpause hzero
      exact ⟨keys, List.mem_append_left l hmem⟩
  | ended finished cancelled hended hnone hwait =>
    refine .ended finished cancelled (List.mem_append_left l hended) ?_
      (hwait.imp (fun he => he.append l) ?_)
    · intro i w stage hi hkey
      obtain ⟨w', stage', hi', hkey'⟩ := hl.none i w stage hi hkey
      exact hnone i w' stage' hi' hkey'
    · rintro ⟨p, hp, hfp, hnext⟩
      obtain ⟨hp', hfp', hnext'⟩ := hl.entry p hp
      exact ⟨p, hp', hfp'.trans hfp, hnext.trans_eq hnext'.symm⟩

theorem Inv.since_same (hs : Inv s) {key : GoString} (hl : Leaves s t key) :
    SinceLast (isStart key) (fun e after => ∀ done fp t' sources,
      e = .started key done fp t' sources → Follow t key done fp after) s.log := by
  refine (hs.since key).mono ?_
  intro e after _ hfollow done fp t' sources he
  have hnext := (hfollow done fp t' sources he).leaves hs hl []
  rwa [List.append_nil] at hnext

theorem Inv.since_concat (hs : Inv s) {key : GoString} (hl : Leaves s t key) {o : Occurrence}
    (ho : isStart key o = false) :
    SinceLast (isStart key) (fun e after => ∀ done fp t' sources,
      e = .started key done fp t' sources → Follow t key done fp after) (s.log ++ [o]) := by
  refine (hs.since key).concat ho ?_
  intro e after _ hfollow done fp t' sources he
  exact (hfollow done fp t' sources he).leaves hs hl [o]

structure Same (s t : System F) : Prop where
  heap : t.heap = s.heap
  referenceCollections : t.referenceCollections = s.referenceCollections
  allocated : t.allocated = s.allocated
  channels : t.channels = s.channels
  closed : t.closed = s.closed
  log : t.log = s.log
  concurrency : t.concurrency = s.concurrency
  generation : t.batch.cacheGeneration = s.batch.cacheGeneration
  runs : ∀ i, runs t i = runs s i
  isDone : ∀ i, isDone s i = true → isDone t i = true

theorem Inv.same (h : Inv s) (hs : Same s t) : Inv t := by
  have hruns := hs.runs
  have hheap := hs.heap
  have hmap := hs.referenceCollections
  refine ⟨hmap ▸ h.keys, hmap ▸ h.addresses, hmap ▸ hs.allocated ▸ h.allocated,
    hs.closed ▸ hs.channels ▸ h.closed, ?_, ?_, ?_, ?_, ?_, hs.log ▸ h.allowed, ?_⟩
  · intro i w stage hi
    have hr := h.running i w stage (hruns i ▸ hi)
    exact hr.leave (hmap ▸ hr.entry) (by rw [hheap]) hs.channels.ge (hs.closed ▸ hr.closed)
      (hs.log.trans (List.append_nil _).symm) rfl (hs.isDone i)
  · intro i j w w' stage stage' hi hj
    exact h.unique i j w w' stage stage' (hruns i ▸ hi) (hruns j ▸ hj)
  · intro p d hd
    obtain ⟨i, w, stage, hi, hw⟩ := h.held p d (hheap ▸ hd)
    exact ⟨i, w, stage, (hruns i).trans hi, hw⟩
  · intro k d fp t sources hmem
    rw [hs.log] at hmem
    exact h.started_leave hmem hs.channels.ge (fun d hd => hs.closed ▸ hd) (fun o ho => hs.log ▸ ho)
      fun j u st hj => ⟨u, st, (hruns j).trans hj, rfl, rfl⟩
  · intro d n hmem
    exact hs.channels ▸ h.noted d n (hs.log ▸ hmem)
  · intro key
    rw [hs.log]
    apply h.since_same
    refine ⟨?_, ?_, ?_, hs.generation, hs.concurrency⟩
    · exact fun i w stage hi hkey => ⟨w, stage, (hruns i).trans hi, hkey, rfl, rfl, rfl⟩
    · exact fun i w stage hi hkey => ⟨w, stage, hruns i ▸ hi, hkey⟩
    · intro p hp
      rw [hmap, hheap]
      exact ⟨hp, rfl, rfl⟩

theorem runs_update {c' : Caller F} (ht : t.callers = Function.update s.callers i (some c'))
    (j : Nat) : runs t j = if j = i then workOf c'.phase else runs s j := by
  unfold runs
  rw [ht, Function.update_apply]
  split_ifs <;> rfl

theorem isDone_update {c' : Caller F} (ht : t.callers = Function.update s.callers i (some c'))
    (j : Nat) : isDone t j = if j = i then c'.cancelled else isDone s j := by
  unfold isDone
  rw [ht, Function.update_apply]
  split_ifs <;> rfl

theorem runs_of_caller (hc : s.callers i = some c) : runs s i = workOf c.phase := by
  rw [runs, hc]
  rfl

theorem phase_of_runs (hc : s.callers i = some c) {w : Work} {stage : Stage}
    (h : runs s i = some (w, stage)) : c.phase = .collecting w stage := by
  rw [runs_of_caller hc] at h
  unfold workOf at h
  split at h
  · cases h
    assumption
  · cases h

theorem isDone_of_caller (hc : s.callers i = some c) : isDone s i = c.cancelled := by
  rw [isDone, hc]
  rfl

theorem same_goto (hc : s.callers i = some c) {phase : Phase} (hbefore : workOf c.phase = none)
    (hafter : workOf phase = none) : Same s (s.goto i c phase) := by
  refine ⟨rfl, rfl, rfl, rfl, rfl, rfl, rfl, rfl, ?_, ?_⟩
  · intro j
    rw [runs_update (s := s) rfl j]
    split_ifs with hj
    · rw [hj, runs_of_caller hc, hbefore]
      exact hafter
    · rfl
  · intro j hdone
    rw [isDone_update (s := s) rfl j]
    split_ifs with hj
    · rw [hj, isDone_of_caller hc] at hdone
      exact hdone
    · exact hdone

theorem mem_of_lookup {α : Type} {l : List (GoString × α)} {key : GoString} {a : α}
    (h : l.lookup key = some a) : (key, a) ∈ l := by
  obtain ⟨l₁, l₂, rfl, -⟩ := List.lookup_eq_some_iff.mp h
  simp

theorem not_mem_of_lookup {α : Type} {l : List (GoString × α)} {key : GoString}
    (h : l.lookup key = none) (a : α) : (key, a) ∉ l := by
  intro hmem
  have hne := List.lookup_eq_none_iff.mp h _ hmem
  simp at hne

theorem entry_spec (s : System F) (key : GoString) :
    (key, (s.entry key).2) ∈ (s.entry key).1.referenceCollections ∧
      (s.entry key).1.callers = s.callers ∧ (s.entry key).1.concurrency = s.concurrency ∧
      (s.entry key).1.now = s.now ∧ (s.entry key).1.db = s.db ∧
      (s.entry key).1.closed = s.closed := by
  unfold System.entry
  split
  · rename_i p hp
    exact ⟨mem_of_lookup hp, rfl, rfl, rfl, rfl, rfl⟩
  · exact ⟨List.mem_cons_self, rfl, rfl, rfl, rfl, rfl⟩

theorem inv_entry (h : Inv s) (key : GoString) : Inv (s.entry key).1 := by
  unfold System.entry
  split
  · exact h
  · rename_i hnone
    have hfresh := not_mem_of_lookup hnone
    have hold : ∀ k p, (k, p) ∈ s.referenceCollections →
        Function.update s.heap s.allocated newCollection p = s.heap p := by
      intro k p hp
      exact Function.update_of_ne (h.allocated k p hp).ne _ _
    refine ⟨?_, ?_, ?_, h.closed, ?_, h.unique, ?_, h.started, h.noted, h.allowed, ?_⟩
    · intro k p p' hp hp'
      cases List.mem_cons.mp hp with
      | inl heq =>
        cases heq
        cases List.mem_cons.mp hp' with
        | inl heq' => cases heq'; rfl
        | inr hp' => exact absurd hp' (hfresh p')
      | inr hp =>
        cases List.mem_cons.mp hp' with
        | inl heq' =>
          cases heq'
          exact absurd hp (hfresh p)
        | inr hp' => exact h.keys k p p' hp hp'
    · intro k k' p hp hp'
      cases List.mem_cons.mp hp with
      | inl heq =>
        cases heq
        cases List.mem_cons.mp hp' with
        | inl heq' => cases heq'; rfl
        | inr hp' => exact absurd (h.allocated _ _ hp') (lt_irrefl _)
      | inr hp =>
        cases List.mem_cons.mp hp' with
        | inl heq' =>
          cases heq'
          exact absurd (h.allocated _ _ hp) (lt_irrefl _)
        | inr hp' => exact h.addresses k k' p hp hp'
    · intro k p hp
      cases List.mem_cons.mp hp with
      | inl heq =>
        cases heq
        exact Nat.lt_succ_self _
      | inr hp => exact (h.allocated k p hp).trans (Nat.lt_succ_self _)
    · intro i w stage hi
      have hr := h.running i w stage hi
      exact hr.leave (List.mem_cons_of_mem _ hr.entry) (congrArg _ (hold _ _ hr.entry)) le_rfl
        hr.closed (List.append_nil _).symm rfl id
    · intro p d hd
      dsimp only at hd
      by_cases hp : p = s.allocated
      · rw [hp, Function.update_self] at hd
        cases hd
      · rw [Function.update_of_ne hp] at hd
        exact h.held p d hd
    · intro k
      apply h.since_same
      refine ⟨?_, fun i w stage hi hkey => ⟨w, stage, hi, hkey⟩, ?_, rfl, rfl⟩
      · exact fun i w stage hi hkey => ⟨w, stage, hi, hkey, rfl, rfl, rfl⟩
      · intro p hp
        have hsame := hold _ _ hp
        exact ⟨List.mem_cons_of_mem _ hp, congrArg (·.fingerprint) hsame,
          congrArg (·.nextAt) hsame⟩

theorem not_mem_of_fresh {log : List Occurrence} {done : Nat}
    (h : ∀ n, .noted done n ∉ log) : notesOf done log = [] := by
  apply List.eq_nil_iff_forall_not_mem.mpr
  exact fun n hn => h n (mem_notesOf.mp hn)

theorem Inv.free (h : Inv s) {key : GoString} {p : Nat} (hp : (key, p) ∈ s.referenceCollections)
    (hfree : (s.heap p).done = none) {w : Work} {stage : Stage}
    (hi : runs s i = some (w, stage)) : w.state ≠ p ∧ w.key ≠ key := by
  have hr := h.running i w stage hi
  have hstate : w.state ≠ p := by
    rintro rfl
    rw [hr.done] at hfree
    cases hfree
  exact ⟨hstate, fun hkey => hstate (h.keys key _ _ (hkey ▸ hr.entry) hp)⟩

theorem spaced_begin (h : Inv s) {key fp : GoString} {p : Nat}
    (hp : (key, p) ∈ s.referenceCollections) (hfree : (s.heap p).done = none) {now : Int}
    (hnow : now ≤ s.now) (hdue : ¬((s.heap p).fingerprint = fp ∧ now < (s.heap p).nextAt)) :
    Spaced key fp s.now s.log := by
  refine (h.since key).mono ?_
  intro e after _ hfollow done startedAt sources he
  cases hfollow done fp startedAt sources he with
  | runs i w stage hi hkey _ _ _ _ => exact absurd hkey (h.free hp hfree hi).2
  | ended finished cancelled hended _ hwait =>
    obtain (hdropped | hinterrupted | hcancelled) | ⟨p', hp', hfp, hnext⟩ := hwait
    · exact .inl hdropped
    · exact .inr ⟨finished, cancelled, hended, .inr (.inr hinterrupted)⟩
    · exact .inr ⟨finished, cancelled, hended, .inr (.inl hcancelled)⟩
    · right
      refine ⟨finished, cancelled, hended, .inl ?_⟩
      obtain rfl := h.keys key p p' hp hp'
      have hreached : ¬ now < (s.heap p).nextAt := fun hlt => hdue ⟨hfp, hlt⟩
      rw [referenceMinInterval] at hnext
      omega

section

variable {p : Nat} {refs : List Reference} {trusted : List Server} {fp : GoString}

theorem runs_begin (j : Nat) : runs (begin s i c p refs trusted fp) j =
    if j = i then some (newWork s c p refs trusted, nextStage trusted) else runs s j := by
  have hcallers : (begin s i c p refs trusted fp).callers = Function.update s.callers i
      (some { c with phase := .collecting (newWork s c p refs trusted) (nextStage trusted) }) := rfl
  exact runs_update hcallers j

theorem runs_begin_self : runs (begin s i c p refs trusted fp) i =
    some (newWork s c p refs trusted, nextStage trusted) := by
  rw [runs_begin, if_pos rfl]

theorem runs_begin_other (hidle : runs s i = none) {j : Nat} {w : Work} {stage : Stage}
    (hj : runs s j = some (w, stage)) :
    runs (begin s i c p refs trusted fp) j = some (w, stage) := by
  have hji : j ≠ i := by
    rintro rfl
    rw [hidle] at hj
    cases hj
  rw [runs_begin, if_neg hji, hj]

theorem heap_begin {q : Nat} (hq : q ≠ p) : (begin s i c p refs trusted fp).heap q = s.heap q :=
  Function.update_of_ne hq _ _

theorem running_begin (h : Inv s) (hp : (referenceKey c.domain, p) ∈ s.referenceCollections)
    (hnodup : (trusted.map (·.id)).Nodup) :
    Running (begin s i c p refs trusted fp) i (newWork s c p refs trusted) (nextStage trusted) where
  entry := hp
  done := by simp [begin, newWork]
  channel := Nat.lt_succ_self _
  closed hd := absurd (h.closed _ hd) (lt_irrefl _)
  kept := by
    refine ⟨fp, s.now, _, List.mem_append_right _ (List.mem_singleton_self _), hnodup, ?_⟩
    have hfresh : notesOf s.channels s.log = [] :=
      not_mem_of_fresh fun n hn => absurd (h.noted _ n hn) (lt_irrefl _)
    have hnotes : notesOf (newWork s c p refs trusted).done
        (begin s i c p refs trusted fp).log = [] := by
      rw [begin, notesOf_append, newWork, hfresh]
      rfl
    rw [hnotes]
    exact kept_start rfl

theorem leaves_begin (h : Inv s) (hidle : runs s i = none)
    (hp : (referenceKey c.domain, p) ∈ s.referenceCollections) {key : GoString}
    (hkey : referenceKey c.domain ≠ key) : Leaves s (begin s i c p refs trusted fp) key where
  runs _ w stage hj hw := ⟨w, stage, runs_begin_other hidle hj, hw, rfl, rfl, rfl⟩
  none j w stage hj hw := by
    rw [runs_begin] at hj
    split_ifs at hj with hji
    · cases hj
      exact absurd hw hkey
    · exact ⟨w, stage, hj, hw⟩
  entry q hq := by
    have hqp : q ≠ p := by
      rintro rfl
      exact hkey (h.addresses _ _ _ hp hq)
    rw [heap_begin hqp]
    exact ⟨hq, rfl, rfl⟩
  generation := rfl
  concurrency := rfl

theorem since_begin (h : Inv s) (hidle : runs s i = none)
    (hp : (referenceKey c.domain, p) ∈ s.referenceCollections) (hactive : s.concurrency ≠ 0)
    (key : GoString) :
    SinceLast (isStart key) (fun e after => ∀ done fp' t' sources,
      e = .started key done fp' t' sources →
        Follow (begin s i c p refs trusted fp) key done fp' after)
      (begin s i c p refs trusted fp).log := by
  by_cases hkey : referenceKey c.domain = key
  · refine sinceLast_concat (decide_eq_true hkey) ?_
    intro done fp' t' sources he
    cases he
    refine .runs i _ _ runs_begin_self hkey rfl ?_ (fun hgeneration => absurd rfl hgeneration)
      fun hpause => absurd hpause hactive
    simp [begin, newWork]
  · exact h.since_concat (leaves_begin h hidle hp hkey) (decide_eq_false hkey)

theorem inv_begin (h : Inv s) (hc : s.callers i = some c) (hphase : workOf c.phase = none)
    (hp : (referenceKey c.domain, p) ∈ s.referenceCollections) (hfree : (s.heap p).done = none)
    (hactive : s.concurrency ≠ 0) {now : Int} (hnow : now ≤ s.now)
    (hdue : ¬((s.heap p).fingerprint = fp ∧ now < (s.heap p).nextAt)) (refs : List Reference)
    (hnodup : (trusted.map (·.id)).Nodup) :
    Inv (begin s i c p refs trusted fp) := by
  have hidle : runs s i = none := (runs_of_caller hc).trans hphase
  refine ⟨h.keys, h.addresses, h.allocated, ?_, ?_, ?_, ?_, ?_, ?_, ?_,
    since_begin h hidle hp hactive⟩
  · exact fun d hd => (h.closed d hd).trans (Nat.lt_succ_self _)
  · intro j w stage hj
    rw [runs_begin] at hj
    split_ifs at hj with hji
    · cases hj
      exact hji ▸ running_begin h hp hnodup
    · have hr := h.running j w stage hj
      have hdone := isDone_update (t := begin s i c p refs trusted fp) rfl j
      rw [if_neg hji] at hdone
      exact hr.leave hr.entry (by rw [heap_begin (h.free hp hfree hj).1]) (Nat.le_succ _) hr.closed
        rfl rfl hdone.symm.le
  · intro j k w w' stage stage' hj hk hdone
    rw [runs_begin] at hj hk
    split_ifs at hj hk with hji hki
    · exact hji.trans hki.symm
    · cases hj
      exact absurd (hdone ▸ (h.running k w' stage' hk).channel) (lt_irrefl _)
    · cases hk
      exact absurd (hdone ▸ (h.running j w stage hj).channel) (lt_irrefl _)
    · exact h.unique j k w w' stage stage' hj hk hdone
  · intro q d hd
    by_cases hqp : q = p
    · rw [hqp, begin] at hd
      simp only [Function.update_self, Option.some.injEq] at hd
      exact ⟨i, _, _, runs_begin_self, hqp.symm, hd⟩
    · rw [heap_begin hqp] at hd
      obtain ⟨j, w, stage, hj, hw⟩ := h.held q d hd
      exact ⟨j, w, stage, runs_begin_other hidle hj, hw⟩
  · intro k d fp' t' sources hmem
    cases List.mem_append.mp hmem with
    | inl hmem =>
      exact h.started_leave hmem (Nat.le_succ _) (List.Subset.refl _) (List.subset_append_left _ _)
        fun j w stage hj => ⟨w, stage, runs_begin_other hidle hj, rfl, rfl⟩
    | inr hnew =>
      cases List.mem_singleton.mp hnew
      exact ⟨Nat.lt_succ_self _, .inr ⟨i, _, _, runs_begin_self, rfl, rfl⟩⟩
  · intro d n hmem
    cases List.mem_append.mp hmem with
    | inl hmem => exact (h.noted d n hmem).trans (Nat.lt_succ_self _)
    | inr hnew => cases List.mem_singleton.mp hnew
  · apply h.allowed.concat
    refine ⟨?_, spaced_begin h hp hfree hnow hdue⟩
    intro done fp' t' sources hmem
    cases (h.started _ done fp' t' sources hmem).2 with
    | inl hover => exact hover.2
    | inr hrun =>
      obtain ⟨j, w, stage, hj, -, hkey⟩ := hrun
      exact absurd hkey (h.free hp hfree hj).2

end

theorem allowed_note (h : Inv s) {w : Work} {stage : Stage} (hi : runs s i = some (w, stage))
    {t : Turn} (ht : Turned (isDone s i) w stage t) {note : Note} (hnote : t.note = some note) :
    Allowed s.log (.noted w.done note) := by
  obtain ⟨-, -, -, -, fp, t', sources, hstart, hnodup, hkept⟩ := h.running i w stage hi
  cases note with
  | queried serverID =>
    obtain ⟨hmem, hnew, hgoes⟩ := query_of_turned hkept hnodup ht hnote
    refine ⟨⟨w.key, fp, t', sources, hstart, hmem⟩, fun hold => hnew (mem_notesOf.mpr hold), ?_⟩
    exact fun n hn => hgoes n (mem_notesOf.mpr hn)
  | _ => trivial

section

variable {w : Work} {stage : Stage} {cancelled : Bool} {turn : Turn}

theorem runs_turnTo {done : Nat} (j : Nat) : runs (turnTo s i c done turn) j =
    if j = i then some (turn.work, turn.stage) else runs s j := by
  have hcallers : (turnTo s i c done turn).callers = Function.update s.callers i
      (some { c with phase := .collecting turn.work turn.stage }) := rfl
  exact runs_update hcallers j

theorem runs_turned (hi : runs s i = some (w, stage)) (ht : Turned cancelled w stage turn) {j : Nat}
    {u : Work} {st : Stage} (hj : runs s j = some (u, st)) :
    ∃ u' st', runs (turnTo s i c w.done turn) j = some (u', st') ∧ u'.key = u.key ∧
      u'.state = u.state ∧ u'.done = u.done ∧ u'.generation = u.generation := by
  rw [runs_turnTo]
  split_ifs with hji
  · rw [hji, hi] at hj
    cases hj
    exact ⟨turn.work, turn.stage, rfl, turned_same ht⟩
  · exact ⟨u, st, hj, rfl, rfl, rfl, rfl⟩

theorem runs_of_turned (hi : runs s i = some (w, stage)) (ht : Turned cancelled w stage turn)
    {j : Nat} {u : Work} {st : Stage} (hj : runs (turnTo s i c w.done turn) j = some (u, st)) :
    ∃ u' st', runs s j = some (u', st') ∧ u'.key = u.key ∧ u'.done = u.done := by
  rw [runs_turnTo] at hj
  split_ifs at hj with hji
  · cases hj
    obtain ⟨hkey, -, hdone, -⟩ := turned_same ht
    exact ⟨w, stage, hji ▸ hi, hkey.symm, hdone.symm⟩
  · exact ⟨u, st, hj, rfl, rfl⟩

theorem leaves_turned (hi : runs s i = some (w, stage)) (ht : Turned cancelled w stage turn)
    (key : GoString) : Leaves s (turnTo s i c w.done turn) key where
  runs j u st hj hu := by
    obtain ⟨u', st', hj', hkey, hrest⟩ := runs_turned hi ht hj
    exact ⟨u', st', hj', hkey.trans hu, hrest⟩
  none j u st hj hu := by
    obtain ⟨u', st', hj', hkey, -⟩ := runs_of_turned hi ht hj
    exact ⟨u', st', hj', hkey.trans hu⟩
  entry _ hp := ⟨hp, rfl, rfl⟩
  generation := rfl
  concurrency := rfl

theorem running_turned (h : Inv s) (hc : s.callers i = some c) (hi : runs s i = some (w, stage))
    (ht : Turned c.cancelled w stage turn) :
    Running (turnTo s i c w.done turn) i turn.work turn.stage := by
  obtain ⟨hkey, hstate, hdone, -⟩ := turned_same ht
  obtain ⟨hentry, hheap, hchannel, hclosed, fp, startedAt, sources, hstart, hnodup, hkept⟩ :=
    h.running i w stage hi
  have hnext : (s.heap turn.work.state).done = some turn.work.done := by rw [hstate, hdone, hheap]
  have hsame : isDone (turnTo s i c w.done turn) i = c.cancelled := by
    rw [isDone_update (t := turnTo s i c w.done turn) rfl i, if_pos rfl]
  refine ⟨hkey ▸ hstate ▸ hentry, hnext, hdone ▸ hchannel, hdone ▸ hclosed, fp, startedAt, sources,
    ?_, hnodup, ?_⟩
  · rw [hkey, hdone]
    exact List.mem_append_left _ hstart
  · rw [turnTo, hdone, notesOf_append, notesOf_self]
    rw [isDone_of_caller hc] at hkept
    exact hsame ▸ kept_turned hkept ht

theorem inv_turn (h : Inv s) (hc : s.callers i = some c) (hphase : c.phase = .collecting w stage)
    (ht : Turned c.cancelled w stage turn) : Inv (turnTo s i c w.done turn) := by
  have hi : runs s i = some (w, stage) := by rw [runs_of_caller hc, hphase]; rfl
  have hold : ∀ o ∈ (turnTo s i c w.done turn).log, o ∈ s.log ∨ ∃ n, o = .noted w.done n := by
    intro o ho
    refine (List.mem_append.mp ho).imp id fun hnew => ?_
    obtain ⟨n, -, hn⟩ := Option.map_eq_some_iff.mp (Option.mem_toList.mp hnew)
    exact ⟨n, hn.symm⟩
  refine ⟨h.keys, h.addresses, h.allocated, h.closed, ?_, ?_, ?_, ?_, ?_, ?_, ?_⟩
  · intro j u st hj
    have hdone := isDone_update (t := turnTo s i c w.done turn) rfl j
    rw [runs_turnTo] at hj
    split_ifs at hj hdone with hji
    · cases hj
      subst hji
      exact running_turned h hc hi ht
    · have hr := h.running j u st hj
      have hne : u.done ≠ w.done := fun heq => hji (h.unique j i u w st stage hj hi heq)
      exact hr.leave hr.entry rfl le_rfl hr.closed rfl (notesOf_ne hne turn.note) hdone.symm.le
  · intro j k u u' st st' hj hk hdd
    obtain ⟨v, sv, hv, -, hvd⟩ := runs_of_turned hi ht hj
    obtain ⟨v', sv', hv', -, hvd'⟩ := runs_of_turned hi ht hk
    exact h.unique j k v v' sv sv' hv hv' (hvd.trans (hdd.trans hvd'.symm))
  · intro p d hd
    obtain ⟨j, u, st, hj, hp, hd⟩ := h.held p d hd
    obtain ⟨u', st', hj', -, hstate, hdone, -⟩ := runs_turned hi ht hj
    exact ⟨j, u', st', hj', hstate.trans hp, hdone.trans hd⟩
  · intro k d fp t' sources hmem
    obtain hmem | ⟨n, hn⟩ := hold _ hmem
    · refine h.started_leave hmem le_rfl (List.Subset.refl _) (List.subset_append_left _ _) ?_
      intro j u st hj
      obtain ⟨u', st', hj', hkey, -, hdone, -⟩ := runs_turned hi ht hj
      exact ⟨u', st', hj', hkey, hdone⟩
    · cases hn
  · intro d n hmem
    obtain hmem | ⟨n, hn⟩ := hold _ hmem
    · exact h.noted d n hmem
    · cases hn
      exact (h.running i w stage hi).channel
  · change Each Allowed (s.log ++ _)
    cases hnote : turn.note with
    | none =>
      rw [Option.map_none, Option.toList, List.append_nil]
      exact h.allowed
    | some note =>
      rw [← isDone_of_caller hc] at ht
      exact h.allowed.concat (allowed_note h hi ht hnote)
  · intro key
    have hleaves := leaves_turned (c := c) hi ht key
    change SinceLast _ _ (s.log ++ _)
    cases turn.note with
    | none =>
      rw [Option.map_none, Option.toList, List.append_nil]
      exact h.since_same hleaves
    | some note => exact h.since_concat hleaves rfl

end

/-- The collection that ends is the one that was last started for its domain. -/
theorem follow_finish (hs : Inv s) {w : Work} {stage : Stage} (hi : runs s i = some (w, stage))
    {done : Nat} {fp : GoString} {after : List Occurrence} (h : Follow s w.key done fp after)
    {finished : Int} {late : Bool}
    (hnone : ∀ j u st, runs (finish s i c w finished late) j = some (u, st) →
      u.key ≠ w.key) :
    Follow (finish s i c w finished late) w.key done fp
      (after ++ [.ended w.key w.done finished (c.cancelled || late)]) := by
  cases h with
  | ended _ _ _ hno _ => exact absurd rfl (hno i w stage hi)
  | runs j u st hj hkey hdone hfp hgeneration hpause =>
    obtain rfl := hs.single hj hi hkey
    rw [hi] at hj
    cases hj
    refine .ended finished (c.cancelled || late) ?_ hnone ?_
    · rw [← hdone]
      exact List.mem_append_right _ (List.mem_singleton_self _)
    · by_cases hc : (c.cancelled || late) = true
      · exact .inl (.inr (.inr hc))
      · by_cases hzero : s.concurrency = 0
        · obtain ⟨keys, hmem⟩ := hpause hzero
          exact .inl (.inr (.inl (.inr ⟨keys, List.mem_append_left _ hmem⟩)))
        · by_cases hgen : w.generation = s.batch.cacheGeneration
          · refine .inr ⟨w.state, (hs.running j w stage hi).entry, ?_, ?_⟩
            · simpa [finish] using hfp
            · simp [finish, hc, hzero, hgen]
          · exact .inl (.inr (.inl (.inl (List.mem_append_left _ (hgeneration hgen)))))

section

variable {w : Work} {stage : Stage} {finished : Int} {late : Bool}

theorem runs_finish (j : Nat) :
    runs (finish s i c w finished late) j = if j = i then none else runs s j := by
  have hcallers : (finish s i c w finished late).callers = Function.update s.callers i
      (some { c with cancelled := c.cancelled || late, phase := .returned w.refs (endErr s c w) }) :=
    rfl
  exact runs_update hcallers j

theorem runs_of_finish {j : Nat} {u : Work} {st : Stage}
    (hj : runs (finish s i c w finished late) j = some (u, st)) :
    j ≠ i ∧ runs s j = some (u, st) := by
  rw [runs_finish] at hj
  split_ifs at hj with hji
  exact ⟨hji, hj⟩

theorem runs_finish_other {j : Nat} (hji : j ≠ i) :
    runs (finish s i c w finished late) j = runs s j := by
  rw [runs_finish, if_neg hji]

theorem heap_finish {q : Nat} (hq : q ≠ w.state) :
    (finish s i c w finished late).heap q = s.heap q :=
  Function.update_of_ne hq _ _

theorem Inv.others (h : Inv s) (hi : runs s i = some (w, stage)) {j : Nat} (hji : j ≠ i) {u : Work}
    {st : Stage} (hj : runs s j = some (u, st)) :
    u.done ≠ w.done ∧ u.state ≠ w.state ∧ u.key ≠ w.key := by
  have hkey : u.key ≠ w.key := fun heq => hji (h.single hj hi heq)
  refine ⟨?_, h.state_ne hi (h.running j u st hj).entry hkey, hkey⟩
  exact fun heq => hji (h.unique j i u w st stage hj hi heq)

theorem leaves_finish (h : Inv s) (hi : runs s i = some (w, stage)) {key : GoString}
    (hkey : w.key ≠ key) : Leaves s (finish s i c w finished late) key where
  runs j u st hj hu := by
    have hji : j ≠ i := by
      rintro rfl
      rw [hi] at hj
      cases hj
      exact hkey hu
    exact ⟨u, st, (runs_finish_other hji).trans hj, hu, rfl, rfl, rfl⟩
  none _ u st hj hu := ⟨u, st, (runs_of_finish hj).2, hu⟩
  entry p hp := by
    rw [heap_finish (h.state_ne hi hp (Ne.symm hkey))]
    exact ⟨hp, rfl, rfl⟩
  generation := rfl
  concurrency := rfl

theorem since_finish (h : Inv s) (hi : runs s i = some (w, stage)) (key : GoString) :
    SinceLast (isStart key) (fun e after => ∀ done fp t' sources,
      e = .started key done fp t' sources →
        Follow (finish s i c w finished late) key done fp after)
      (finish s i c w finished late).log := by
  by_cases hkey : w.key = key
  · refine (h.since key).concat rfl ?_
    intro e after _ hfollow done fp t' sources he
    subst hkey
    apply follow_finish h hi (hfollow done fp t' sources he)
    intro j u st hj
    obtain ⟨hji, hj⟩ := runs_of_finish hj
    exact (h.others hi hji hj).2.2
  · exact h.since_concat (leaves_finish h hi hkey) rfl

theorem inv_finish (h : Inv s) (hc : s.callers i = some c) (hphase : c.phase = .collecting w stage)
    (finished : Int) (late : Bool) : Inv (finish s i c w finished late) := by
  have hi : runs s i = some (w, stage) := by rw [runs_of_caller hc, hphase]; rfl
  have hstarted : ∀ {k d fp t' sources}, .started k d fp t' sources ∈
      (finish s i c w finished late).log → .started k d fp t' sources ∈ s.log := by
    intro k d fp t' sources hmem
    cases List.mem_append.mp hmem with
    | inl hmem => exact hmem
    | inr hnew => cases List.mem_singleton.mp hnew
  refine ⟨h.keys, h.addresses, h.allocated, ?_, ?_, ?_, ?_, ?_, ?_, h.allowed.concat trivial,
    since_finish h hi⟩
  · intro d hd
    cases List.mem_cons.mp hd with
    | inl heq => exact heq ▸ (h.running i w stage hi).channel
    | inr hd => exact h.closed d hd
  · intro j u st hj
    obtain ⟨hji, hj⟩ := runs_of_finish hj
    obtain ⟨hdone, hstate, -⟩ := h.others hi hji hj
    have hr := h.running j u st hj
    have hdone' := isDone_update (t := finish s i c w finished late) rfl j
    rw [if_neg hji] at hdone'
    refine hr.leave hr.entry (by rw [heap_finish hstate]) le_rfl ?_ rfl rfl hdone'.symm.le
    exact fun hd => hr.closed ((List.mem_cons.mp hd).resolve_left hdone)
  · intro j k u u' st st' hj hk hd
    exact h.unique j k u u' st st' (runs_of_finish hj).2 (runs_of_finish hk).2 hd
  · intro p d hd
    by_cases hp : p = w.state
    · rw [hp, finish] at hd
      simp at hd
    · rw [heap_finish hp] at hd
      obtain ⟨j, u, st, hj, hup, hud⟩ := h.held p d hd
      have hji : j ≠ i := by
        rintro rfl
        rw [hi] at hj
        cases hj
        exact hp hup.symm
      exact ⟨j, u, st, (runs_finish_other hji).trans hj, hup, hud⟩
  · intro k d fp t' sources hmem
    obtain ⟨hd, hor⟩ := h.started k d fp t' sources (hstarted hmem)
    refine ⟨hd, ?_⟩
    cases hor with
    | inl hover =>
      obtain ⟨hd, finished', cancelled, hended⟩ := hover
      exact .inl ⟨List.mem_cons_of_mem _ hd, finished', cancelled, List.mem_append_left _ hended⟩
    | inr hrun =>
      obtain ⟨j, u, st, hj, hud, huk⟩ := hrun
      by_cases hji : j = i
      · rw [hji, hi] at hj
        cases hj
        subst hud huk
        exact .inl ⟨List.mem_cons_self, finished, _,
          List.mem_append_right _ (List.mem_singleton_self _)⟩
      · exact .inr ⟨j, u, st, (runs_finish_other hji).trans hj, hud, huk⟩
  · intro d n hmem
    cases List.mem_append.mp hmem with
    | inl hmem => exact h.noted d n hmem
    | inr hnew => cases List.mem_singleton.mp hnew

end

structure Elsewhere (s t : System F) (o : Occurrence) : Prop where
  referenceCollections : t.referenceCollections.Sublist s.referenceCollections
  kept : ∀ k p, (k, p) ∈ s.referenceCollections → (s.heap p).done ≠ none →
    (k, p) ∈ t.referenceCollections
  allocated : t.allocated = s.allocated
  channels : t.channels = s.channels
  closed : t.closed = s.closed
  callers : t.callers = s.callers
  heap : ∀ p, (t.heap p).done = (s.heap p).done ∧ (t.heap p).fingerprint = (s.heap p).fingerprint
  log : t.log = s.log ++ [o]
  quiet : o = .queuedAll ∨ ∃ concurrency keys, o = .configured concurrency keys

theorem Inv.elsewhere (h : Inv s) {o : Occurrence} (he : Elsewhere s t o)
    (hfollow : ∀ key done fp after, Follow s key done fp after →
      Follow t key done fp (after ++ [o])) : Inv t := by
  have hruns : ∀ j, runs t j = runs s j := fun j => by rw [runs, runs, he.callers]
  have hdone : ∀ j, isDone t j = isDone s j := fun j => by rw [isDone, isDone, he.callers]
  have hsub := he.referenceCollections.subset
  have hold : ∀ o' ∈ t.log, o' ∈ s.log ∨ o' = .queuedAll ∨
      ∃ concurrency keys, o' = .configured concurrency keys := by
    intro o' ho
    rw [he.log] at ho
    refine (List.mem_append.mp ho).imp id fun hnew => ?_
    rw [List.mem_singleton.mp hnew]
    exact he.quiet
  have hnotes : ∀ d, notesOf d [o] = [] := by
    intro d
    obtain hq | ⟨concurrency, keys, hq⟩ := he.quiet <;> rw [hq] <;> rfl
  refine ⟨fun k p p' hp hp' => h.keys k p p' (hsub hp) (hsub hp'),
    fun k k' p hp hp' => h.addresses k k' p (hsub hp) (hsub hp'),
    fun k p hp => he.allocated ▸ h.allocated k p (hsub hp), he.closed ▸ he.channels ▸ h.closed,
    ?_, ?_, ?_, ?_, ?_, ?_, ?_⟩
  · intro i w stage hi
    rw [hruns] at hi
    have hr := h.running i w stage hi
    refine hr.leave (he.kept _ _ hr.entry ?_) (he.heap _).1 he.channels.ge (he.closed ▸ hr.closed)
      he.log (hnotes _) (hdone i).symm.le
    rw [hr.done]
    exact Option.some_ne_none _
  · intro i j w w' stage stage' hi hj
    exact h.unique i j w w' stage stage' (hruns i ▸ hi) (hruns j ▸ hj)
  · intro p d hd
    obtain ⟨i, w, stage, hi, hw⟩ := h.held p d ((he.heap p).1 ▸ hd)
    exact ⟨i, w, stage, (hruns i).trans hi, hw⟩
  · intro k d fp t' sources hmem
    obtain hmem | hq | ⟨concurrency, keys, hq⟩ := hold _ hmem
    · exact h.started_leave hmem he.channels.ge (fun d hd => he.closed ▸ hd)
        (he.log ▸ List.subset_append_left _ _)
        fun j u st hj => ⟨u, st, (hruns j).trans hj, rfl, rfl⟩
    · cases hq
    · cases hq
  · intro d n hmem
    obtain hmem | hq | ⟨concurrency, keys, hq⟩ := hold _ hmem
    · exact he.channels ▸ h.noted d n hmem
    · cases hq
    · cases hq
  · rw [he.log]
    apply h.allowed.concat
    obtain hq | ⟨concurrency, keys, hq⟩ := he.quiet <;> rw [hq] <;> trivial
  · intro key
    rw [he.log]
    have ho : isStart key o = false := by
      obtain hq | ⟨concurrency, keys, hq⟩ := he.quiet <;> rw [hq] <;> rfl
    refine (h.since key).concat ho ?_
    intro e after _ hfollows done fp t' sources hstart
    exact hfollow key done fp after (hfollows done fp t' sources hstart)

theorem inv_refresh (h : Inv s) (c : Config F) (valid : List Int) : Inv (refresh c valid s) := by
  refine h.elsewhere (o := .configured c.concurrency (c.domains.map referenceKey)) ?_ ?_
  · refine ⟨List.filter_sublist, ?_, rfl, rfl, rfl, rfl, fun _ => ⟨rfl, rfl⟩, rfl,
      .inr ⟨_, _, rfl⟩⟩
    intro k p hp hdone
    exact List.mem_filter.mpr ⟨hp, by simp [hdone]⟩
  · intro key done fp after hfollow
    cases hfollow with
    | runs i w stage hi hkey hdone hfp hgeneration hpause =>
      refine .runs i w stage hi hkey hdone hfp ?_ ?_
      · intro hne
        apply List.mem_append_left
        apply hgeneration
        rwa [refresh, updateBatch_generation] at hne
      · intro hzero
        have hzero : c.concurrency = 0 := hzero
        rw [← hzero]
        exact ⟨_, List.mem_append_right _ (List.mem_singleton_self _)⟩
    | ended finished cancelled hended hnone hwait =>
      refine .ended finished cancelled (List.mem_append_left _ hended) hnone ?_
      cases hwait with
      | inl hexcused => exact .inl (hexcused.append _)
      | inr hwaits =>
        obtain ⟨p, hp, hfp, hnext⟩ := hwaits
        by_cases hkey : key ∈ c.domains.map referenceKey
        · exact .inr ⟨p, List.mem_filter.mpr ⟨hp, by simp [hkey]⟩, hfp, hnext⟩
        · exact .inl (.inl ⟨_, _, List.mem_append_right _ (List.mem_singleton_self _), hkey⟩)

theorem inv_resetAll (h : Inv s) (batch : BatchState) : Inv { resetAll s with batch } := by
  refine h.elsewhere (o := .queuedAll) ?_ ?_
  · refine ⟨.refl _, fun _ _ hp _ => hp, rfl, rfl, rfl, rfl, ?_, rfl, .inl rfl⟩
    intro p
    simp only [resetAll]
    split_ifs <;> exact ⟨rfl, rfl⟩
  · have hqueued : ∀ after : List Occurrence, .queuedAll ∈ after ++ [.queuedAll] :=
      fun after => List.mem_append_right _ (List.mem_singleton_self _)
    intro key done fp after hfollow
    cases hfollow with
    | runs i w stage hi hkey hdone hfp hgeneration hpause =>
      refine .runs i w stage hi hkey hdone ?_ (fun _ => hqueued after) ?_
      · simp only [resetAll]
        split_ifs <;> exact hfp
      · intro hzero
        obtain ⟨keys, hmem⟩ := hpause hzero
        exact ⟨keys, List.mem_append_left _ hmem⟩
    | ended finished cancelled hended hnone hwait =>
      exact .ended finished cancelled (List.mem_append_left _ hended) hnone
        (.inl (.inr (.inl (.inl (hqueued after)))))

end

end DnsMonitor.Monitor.Collecting

import DnsMonitor.Lib.Epochs
import DnsMonitor.Monitor.Slots
import Mathlib.Data.List.Nodup

namespace DnsMonitor.Monitor.Wakeups

open DnsMonitor.Lib DnsMonitor.Monitor.Slots

/-- The guard of `acquire` is decided: it would return an error or grant the slot. -/
def Decided (serverID : Int) (g : Gate) : Prop :=
  g.concurrency = 0 ∨ g.active < g.concurrency ∧ serverID ∉ g.busy

instance (serverID : Int) (g : Gate) : Decidable (Decided serverID g) :=
  inferInstanceAs (Decidable (_ ∨ _))

def Asleep (serverID : Int) (changed : Nat) (g : Gate) : Prop :=
  Epochs.Asleep Gate.changed Decided serverID changed g

def Wakes (g g' : Gate) : Prop := Epochs.Wakes Gate.changed Decided g g'

/-- The slots a goroutine holds at its place, and the reason for its sleep. -/
def Fits (g : Gate) (c : Caller) : Prop :=
  match c.place with
  | .lookup _ serverID => c.held = [serverID]
  | .blocked _ serverID changed => c.held = [] ∧ Asleep serverID changed g
  | _ => c.held = []

theorem Fits.step {g g' : Gate} {c : Caller} (h : Fits g c) (hw : Wakes g g') : Fits g' c := by
  unfold Fits at h ⊢
  split at h
  · exact h
  · exact ⟨h.1, h.2.step hw⟩
  · exact h

structure Counted (g : Gate) : Prop where
  active : g.active = g.busy.length
  distinct : g.busy.Nodup

/-- A step of one goroutine, which may take one slot or give its slot back. -/
structure Advances (g : Gate) (c : Caller) (g' : Gate) (c' : Caller) : Prop where
  counted : Counted g'
  fits : Fits g' c'
  wakes : Wakes g g'
  holders : (g'.busy ++ c.held).Perm (g.busy ++ c'.held)
  limit : g.active < g'.active → g.active < g.concurrency

variable {g g' : Gate} {c c' : Caller}

theorem advances_same (hg : Counted g) (hconcurrency : g'.concurrency = g.concurrency)
    (hactive : g'.active = g.active) (hbusy : g'.busy = g.busy) (hchanged : g'.changed = g.changed)
    (hheld : c'.held = c.held) (hf : Fits g' c') : Advances g c g' c' := by
  refine ⟨⟨by rw [hactive, hbusy, hg.active], hbusy ▸ hg.distinct⟩, hf, ?_, ?_, ?_⟩
  · refine .inr ⟨hchanged, fun i hd => ?_⟩
    simpa only [Decided, hconcurrency, hactive, hbusy] using hd
  · rw [hbusy, hheld]
  · intro hlt
    omega

theorem advances_attempt (hg : Counted g) {p : Purpose} {serverID : Int}
    (hp : c.place = .acquire p serverID) (hf : Fits g c) :
    Advances g c (advance g c .attempt).1 (advance g c .attempt).2 := by
  obtain ⟨place, held⟩ := c
  subst hp
  have hheld : held = [] := hf
  simp only [advance, attempt]
  by_cases hc : g.concurrency = 0
  · rw [if_pos hc]
    refine advances_same hg rfl rfl rfl rfl rfl ?_
    cases p <;> exact hheld
  · rw [if_neg hc]
    by_cases hfree : g.active < g.concurrency ∧ serverID ∉ g.busy
    · rw [if_pos hfree]
      refine ⟨⟨?_, List.nodup_cons.mpr ⟨hfree.2, hg.distinct⟩⟩, ?_, ?_, ?_, fun _ => hfree.1⟩
      · simp [hg.active]
      · simp [Fits, hheld]
      · refine .inr ⟨rfl, ?_⟩
        rintro i (h0 | ⟨hlt, hni⟩)
        · exact absurd h0 hc
        · have hlt : g.active + 1 < g.concurrency := hlt
          exact .inr ⟨by omega, fun hmem => hni (List.mem_cons_of_mem _ hmem)⟩
      · simpa [hheld] using (List.perm_append_singleton serverID g.busy).symm
    · rw [if_neg hfree]
      refine advances_same hg rfl rfl rfl rfl rfl ⟨hheld, Epochs.asleep_of_undecided ?_⟩
      exact fun hd => hd.elim hc hfree

theorem advances_finish (hg : Counted g) {p : Purpose} {serverID : Int}
    (hp : c.place = .lookup p serverID) (hf : Fits g c) (hbusy : ∀ s ∈ c.held, s ∈ g.busy)
    (outcome : Outcome) :
    Advances g c (advance g c (.finish outcome)).1 (advance g c (.finish outcome)).2 := by
  obtain ⟨place, held⟩ := c
  subst hp
  have hheld : held = [serverID] := hf
  have hmem : serverID ∈ g.busy := hbusy serverID (by simp [hheld])
  have herase : g.busy.filter (· ≠ serverID) = g.busy.erase serverID := by
    rw [hg.distinct.erase_eq_filter]
    exact List.filter_congr fun _ _ => decide_not
  have hlength := List.length_erase_of_mem hmem
  have hpos := List.length_pos_of_mem hmem
  have hactive := hg.active
  simp only [advance, release, signal]
  rw [herase, hheld]
  refine ⟨⟨?_, hg.distinct.erase _⟩, ?_, .inl (Nat.lt_succ_self _), ?_, ?_⟩
  · dsimp only
    omega
  · cases p with
    | source domain done => simp [Fits, Purpose.after]
    | target => cases outcome <;> simp [Fits, Purpose.after]
  · simpa using (List.perm_append_singleton serverID _).trans (List.perm_cons_erase hmem).symm
  · dsimp only
    omega

theorem advances (hg : Counted g) (hf : Fits g c) (hbusy : ∀ s ∈ c.held, s ∈ g.busy) (m : Move) :
    Advances g c (advance g c m).1 (advance g c m).2 := by
  obtain ⟨place, held⟩ := c
  have hstay : Advances g ⟨place, held⟩ g ⟨place, held⟩ :=
    advances_same hg rfl rfl rfl rfl rfl hf
  cases place with
  | round =>
    have hheld : held = [] := hf
    cases m with
    | begin serverID => exact advances_same hg rfl rfl rfl rfl rfl hheld
    | leave => exact advances_same hg rfl rfl rfl rfl rfl hheld
    | _ => exact hstay
  | acquire p serverID =>
    cases m with
    | attempt => exact advances_attempt hg rfl hf
    | _ => exact hstay
  | blocked p serverID changed =>
    have hheld : held = [] := hf.1
    cases m with
    | wake =>
      simp only [advance]
      split_ifs
      · exact advances_same hg rfl rfl rfl rfl rfl hheld
      · exact hstay
    | cancel =>
      refine advances_same hg rfl rfl rfl rfl rfl ?_
      cases p <;> exact hheld
    | _ => exact hstay
  | lookup p serverID =>
    cases m with
    | finish outcome => exact advances_finish hg rfl hf hbusy outcome
    | _ => exact hstay
  | references domain =>
    have hheld : held = [] := hf
    cases m with
    | answer ok =>
      refine advances_same hg rfl rfl rfl rfl rfl ?_
      cases ok <;> exact hheld
    | collect =>
      simp only [advance]
      split_ifs
      · exact advances_same hg rfl rfl rfl rfl rfl hheld
      · cases g.collections.lookup domain with
        | none => exact advances_same hg rfl rfl rfl rfl rfl hheld
        | some done => exact advances_same hg rfl rfl rfl rfl rfl hheld
    | _ => exact hstay
  | awaiting domain done changed =>
    have hheld : held = [] := hf
    cases m with
    | wake =>
      simp only [advance]
      split_ifs
      · exact advances_same hg rfl rfl rfl rfl rfl hheld
      · exact hstay
    | cancel => exact advances_same hg rfl rfl rfl rfl rfl hheld
    | _ => exact hstay
  | collecting domain done =>
    have hheld : held = [] := hf
    cases m with
    | begin serverID => exact advances_same hg rfl rfl rfl rfl rfl hheld
    | answer ok =>
      refine advances_same hg rfl rfl rfl rfl rfl ?_
      cases ok <;> exact hheld
    | _ => exact hstay
  | ended => cases m <;> exact hstay

/-- The servers whose slots are held, one entry for each holder. -/
def holdings (s : System) : List Int := s.callers.flatMap (·.held)

structure Sound (s : System) : Prop where
  counted : Counted s.gate
  holders : s.gate.busy.Perm (holdings s)
  fits : ∀ c ∈ s.callers, Fits s.gate c

theorem holdings_set {callers : List Caller} {i : Nat} {c : Caller} (h : callers[i]? = some c)
    (c' : Caller) :
    ((callers.set i c').flatMap (·.held) ++ c.held).Perm
      (callers.flatMap (·.held) ++ c'.held) := by
  induction callers generalizing i with
  | nil => simp at h
  | cons d callers ih =>
    cases i with
    | zero =>
      obtain rfl : d = c := by simpa using h
      simp only [List.set_cons_zero, List.flatMap_cons]
      rw [List.append_assoc]
      exact List.perm_append_comm.trans (List.perm_append_comm.append_right _)
    | succ i =>
      simp only [List.set_cons_succ, List.flatMap_cons, List.append_assoc]
      exact (ih (by simpa using h)).append_left _

theorem sound_start : Sound start := ⟨⟨rfl, List.nodup_nil⟩, List.Perm.refl _, by simp [start]⟩

theorem sound_advance {s : System} (h : Sound s) {i : Nat} {c : Caller}
    (hc : s.callers[i]? = some c) (m : Move) :
    Advances s.gate c (advance s.gate c m).1 (advance s.gate c m).2 := by
  have hmem : c ∈ s.callers := List.mem_of_getElem? hc
  apply advances h.counted (h.fits c hmem)
  intro serverID hheld
  exact h.holders.mem_iff.mpr (List.mem_flatMap.mpr ⟨c, hmem, hheld⟩)

theorem sound_step (s : System) (a : Action) (h : Sound s) : Sound (step s a) := by
  cases a with
  | spawn =>
    refine ⟨h.counted, ?_, ?_⟩
    · simpa [holdings, step] using h.holders
    · intro c hc
      cases List.mem_append.mp hc with
      | inl hc => exact h.fits c hc
      | inr hc =>
        rw [List.mem_singleton.mp hc]
        rfl
  | configure concurrency =>
    have hw : Wakes s.gate (configure concurrency s.gate) := .inl (Nat.lt_succ_self _)
    exact ⟨⟨h.counted.active, h.counted.distinct⟩, h.holders, fun c hc => (h.fits c hc).step hw⟩
  | advance i m =>
    simp only [step]
    cases hc : s.callers[i]? with
    | none => exact h
    | some c =>
      have ha := sound_advance h hc m
      refine ⟨ha.counted, ?_, ?_⟩
      · have hset := holdings_set hc (advance s.gate c m).2
        have hperm := ha.holders.trans ((h.holders.append_right _).trans hset.symm)
        exact (List.perm_append_right_iff c.held).mp hperm
      · intro d hd
        obtain hd | rfl := List.mem_or_eq_of_mem_set hd
        · exact (h.fits d hd).step ha.wakes
        · exact ha.fits

theorem sound_run (as : List Action) : Sound (Runs.run step start as) :=
  Runs.run_invariant sound_step sound_start as

def holds (c : Caller) : Bool := c.held ≠ []

def waits (c : Caller) : Bool :=
  match c.place with
  | .acquire _ _ | .blocked _ _ _ | .awaiting _ _ _ => true
  | _ => false

theorem held_length {g : Gate} {c : Caller} (h : Fits g c) :
    c.held.length = if holds c = true then 1 else 0 := by
  unfold Fits at h
  unfold holds
  split at h
  · simp [h]
  · simp [h.1]
  · simp [h]

theorem holders_length {s : System} (h : Sound s) :
    (holdings s).length = (s.callers.filter holds).length := by
  have hfits := h.fits
  unfold holdings
  generalize s.callers = callers at hfits ⊢
  induction callers with
  | nil => rfl
  | cons c callers ih =>
    have hlength := held_length (hfits c (by simp))
    have hrest := ih fun d hd => hfits d (by simp [hd])
    rw [List.flatMap_cons, List.length_append, hlength, hrest, List.filter_cons]
    split_ifs
    · rw [List.length_cons]
      omega
    · omega

/-- Whatever the goroutines do and however the concurrency changes, the slots are counted as they
are held, each is granted below the limit of the moment, nobody sleeps on an open channel though
its guard is decided, and nobody who holds a slot waits. -/
theorem slots_safe (as : List Action) :
    let s := Runs.run step start as
    s.gate.active = s.gate.busy.length ∧
      s.gate.active = (s.callers.filter holds).length ∧
      s.callers.Pairwise (fun c d => c.held.Disjoint d.held) ∧
      (∀ a, s.gate.active < (step s a).gate.active → s.gate.active < s.gate.concurrency) ∧
      (∀ c ∈ s.callers, ∀ p serverID changed, c.place = .blocked p serverID changed →
        changed = s.gate.changed → ¬ Decided serverID s.gate) ∧
      ∀ c ∈ s.callers, waits c = true → holds c = false := by
  have h := sound_run as
  generalize Runs.run step start as = s at h
  refine ⟨h.counted.active, ?_, ?_, ?_, ?_, ?_⟩
  · rw [h.counted.active, h.holders.length_eq, holders_length h]
  · have hnodup := h.holders.nodup_iff.mp h.counted.distinct
    exact (List.nodup_flatMap.mp hnodup).2
  · intro a hlt
    cases a with
    | spawn => exact absurd hlt (Int.lt_irrefl _)
    | configure concurrency => exact absurd hlt (Int.lt_irrefl _)
    | advance i m =>
      simp only [step] at hlt
      cases hc : s.callers[i]? with
      | none =>
        rw [hc] at hlt
        exact absurd hlt (Int.lt_irrefl _)
      | some c =>
        rw [hc] at hlt
        exact (sound_advance h hc m).limit hlt
  · intro c hc p serverID changed hp hopen
    have hf := h.fits c hc
    rw [Fits, hp] at hf
    exact hf.2.2 hopen
  · intro c hc hw
    have hf := h.fits c hc
    obtain ⟨place, held⟩ := c
    cases place with
    | acquire p serverID =>
      have hheld : held = [] := hf
      simp [holds, hheld]
    | blocked p serverID changed =>
      have hheld : held = [] := hf.1
      simp [holds, hheld]
    | awaiting domain done changed =>
      have hheld : held = [] := hf
      simp [holds, hheld]
    | _ => simp [waits] at hw

end DnsMonitor.Monitor.Wakeups

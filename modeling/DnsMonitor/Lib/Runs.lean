import DnsMonitor.Go.Errors
import Mathlib.Algebra.GroupWithZero.Nat
import Mathlib.Data.List.Infix
import Mathlib.Order.MinMax
import Mathlib.Order.Monotone.Basic
import Mathlib.Order.WellFounded

namespace DnsMonitor.Lib.Runs

open DnsMonitor.Go.Errors

variable {σ ε : Type} {step : σ → ε → σ}

def run (step : σ → ε → σ) (s : σ) (es : List ε) : σ := es.foldl step s

@[simp] theorem run_nil (s : σ) : run step s [] = s := rfl

@[simp] theorem run_cons (s : σ) (e : ε) (es : List ε) :
    run step s (e :: es) = run step (step s e) es := rfl

theorem run_append (s : σ) (es fs : List ε) :
    run step s (es ++ fs) = run step (run step s es) fs := List.foldl_append

theorem run_invariant {P : σ → Prop} (hstep : ∀ s e, P s → P (step s e)) {s : σ} (hs : P s)
    (es : List ε) : P (run step s es) := by
  induction es generalizing s with
  | nil => exact hs
  | cons e es ih => exact ih (hstep s e hs)

theorem run_invariant_of {P : σ → Prop} {C : ε → Prop}
    (hstep : ∀ s e, C e → P s → P (step s e)) {s : σ} (hs : P s) {es : List ε}
    (hes : ∀ e ∈ es, C e) : P (run step s es) := by
  induction es generalizing s with
  | nil => exact hs
  | cons e es ih =>
    exact ih (hstep s e (hes e (by simp)) hs) fun f hf => hes f (by simp [hf])

/-- What holds of every step of a run and of the state it is taken in. -/
def EachStep (step : σ → ε → σ) (C : σ → ε → Prop) (s : σ) (es : List ε) : Prop :=
  ∀ fs e gs, es = fs ++ e :: gs → C (run step s fs) e

theorem eachStep_cons {C : σ → ε → Prop} {s : σ} {e : ε} {es : List ε}
    (h : EachStep step C s (e :: es)) : C s e ∧ EachStep step C (step s e) es := by
  refine ⟨h [] e es rfl, ?_⟩
  intro fs d gs he
  exact h (e :: fs) d gs (congrArg (e :: ·) he)

/-- What no step changes that meets a condition is the same after a run of such steps. -/
theorem run_eq_of_eachStep {β : Type} {f : σ → β} {I : σ → Prop} {C : σ → ε → Prop}
    (hI : ∀ s e, I s → I (step s e)) (hf : ∀ s e, I s → C s e → f (step s e) = f s) {s : σ}
    (hs : I s) {es : List ε} (h : EachStep step C s es) : f (run step s es) = f s := by
  induction es generalizing s with
  | nil => rfl
  | cons e es ih =>
    obtain ⟨he, hes⟩ := eachStep_cons h
    rw [run_cons, ih (hI s e hs) hes, hf s e hs he]

def steps (step : σ → ε → σ) (C : σ → ε → Bool) : σ → List ε → Nat
  | _, [] => 0
  | s, e :: es => (if C s e then 1 else 0) + steps step C (step s e) es

/-- A run reaches a goal when it takes as many steps that bring it nearer as are left. -/
theorem reaches {I D : σ → Prop} {C : σ → ε → Bool} (left : σ → Nat)
    (hI : ∀ s e, I s → I (step s e)) (hD : ∀ s e, D s → D (step s e))
    (hleft : ∀ s, I s → ¬ D s → 0 < left s)
    (hstep : ∀ s e, I s → ¬ D s → D (step s e) ∨
      (if C s e then 1 else 0) + left (step s e) ≤ left s)
    {s : σ} (hs : I s) {es : List ε} (h : left s ≤ steps step C s es) : D (run step s es) := by
  induction es generalizing s with
  | nil =>
    by_contra hnot
    exact absurd (hleft s hs hnot) (not_lt.mpr h)
  | cons e es ih =>
    rw [run_cons]
    by_cases hd : D s
    · exact run_invariant hD (hD s e hd) es
    · cases hstep s e hs hd with
      | inl hnow => exact run_invariant hD hnow es
      | inr hnear =>
        apply ih (hI s e hs)
        rw [steps] at h
        exact Nat.le_of_add_le_add_left (hnear.trans h)

/-- Events may add to what is left: a run that takes as many steps towards a goal as were left at
first and have been added reaches it. -/
theorem reaches_within {I D : σ → Prop} {E : ε → Prop} {C : σ → ε → Bool} (left : σ → Nat)
    (added : ε → Nat) (hleft : ∀ s, I s → 0 < left s)
    (hstep : ∀ s e, I s → E e → D (step s e) ∨ (I (step s e) ∧
      (if C s e then 1 else 0) + left (step s e) ≤ left s + added e))
    {s : σ} (hs : I s) {es : List ε} (hes : ∀ e ∈ es, E e)
    (h : left s + (es.map added).sum ≤ steps step C s es) :
    ∃ fs, fs <+: es ∧ D (run step s fs) := by
  induction es generalizing s with
  | nil => exact absurd (hleft s hs) (not_lt.mpr h)
  | cons e es ih =>
    cases hstep s e hs (hes e List.mem_cons_self) with
    | inl hd => exact ⟨[e], by simp, hd⟩
    | inr hnear =>
      rw [List.map_cons, List.sum_cons, steps] at h
      have hrest : left (step s e) + (es.map added).sum ≤ steps step C (step s e) es := by omega
      obtain ⟨fs, hfs, hd⟩ := ih hnear.1 (fun f hf => hes f (List.mem_cons_of_mem e hf)) hrest
      exact ⟨e :: fs, List.cons_prefix_cons.mpr ⟨rfl, hfs⟩, hd⟩

/-- A run without an end reaches a goal when a measure never grows, and infinitely many of its
steps lower it or reach the goal. -/
theorem reaches_of_lowered {ρ : Type} [LinearOrder ρ] [WellFoundedLT ρ] {s : Nat → σ}
    {D : σ → Prop} (measure : σ → ρ) {marked : Nat → Prop}
    (hle : ∀ i, measure (s (i + 1)) ≤ measure (s i))
    (hlt : ∀ i, marked i → D (s (i + 1)) ∨ measure (s (i + 1)) < measure (s i))
    (hinf : ∀ i, ∃ j, i ≤ j ∧ marked j) : ∃ i, D (s i) := by
  have hanti : Antitone fun i => measure (s i) := antitone_nat_of_succ_le hle
  have hgoal : ∀ r i, measure (s i) = r → ∃ i, D (s i) := by
    intro r
    induction r using WellFoundedLT.induction with
    | ind r ih =>
      intro i hi
      obtain ⟨j, hij, hj⟩ := hinf i
      cases hlt j hj with
      | inl hd => exact ⟨j + 1, hd⟩
      | inr hlow => exact ih _ (hi ▸ hlow.trans_le (hanti hij)) (j + 1) rfl
  exact hgoal _ 0 rfl

/-- A level that a step raises to the limit at most is above it only since the limit was
lowered. -/
theorem lowered_of_above {β : Type} [LinearOrder β] (level limit : σ → β)
    (hstep : ∀ s e, level (step s e) ≤ max (level s) (limit s)) {s : σ} (hs : level s ≤ limit s)
    (es : List ε) {n : β} (habove : limit (run step s es) < n)
    (hn : n ≤ level (run step s es)) : ∃ fs e gs, es = fs ++ e :: gs ∧
      limit (run step s (fs ++ [e])) < n ∧ n ≤ limit (run step s fs) := by
  induction es using List.reverseRecOn with
  | nil => exact absurd (habove.trans_le (hn.trans hs)) (lt_irrefl _)
  | append_singleton es e ih =>
    by_cases hnow : n ≤ limit (run step s es)
    · exact ⟨es, e, [], rfl, habove, hnow⟩
    · have hlimit : limit (run step s es) < n := not_le.mp hnow
      rw [run_append] at hn
      have hlevel : n ≤ level (run step s es) :=
        (le_max_iff.mp (hn.trans (hstep _ e))).resolve_right hnow
      obtain ⟨fs, d, gs, rfl, hlow, hhigh⟩ := ih hlimit hlevel
      exact ⟨fs, d, gs ++ [e], by rw [List.append_assoc, List.cons_append], hlow, hhigh⟩

/-- What holds in every state on the way of a run whose steps may fail. -/
def OnTheWay {δ : Type} (f : σ → ε → Except δ σ) (P : σ → Prop) (s : σ) (es : List ε) : Prop :=
  ∀ fs, fs <+: es → ∀ t, fs.foldlM f s = .ok t → P t

theorem onTheWay_nil {δ : Type} {f : σ → ε → Except δ σ} {P : σ → Prop} {s : σ} :
    OnTheWay f P s [] ↔ P s := by
  constructor
  · exact fun h => h [] List.nil_prefix s rfl
  · intro hs fs hfs t ht
    rw [List.prefix_nil.mp hfs, List.foldlM_nil, pure_eq_ok] at ht
    exact ht ▸ hs

theorem onTheWay_cons {δ : Type} {f : σ → ε → Except δ σ} {P : σ → Prop} {s t : σ} {e : ε}
    {es : List ε} (h : f s e = .ok t) :
    OnTheWay f P s (e :: es) ↔ P s ∧ OnTheWay f P t es := by
  constructor
  · intro hp
    refine ⟨hp [] List.nil_prefix s rfl, ?_⟩
    intro fs hfs u hu
    apply hp (e :: fs) (List.cons_prefix_cons.mpr ⟨rfl, hfs⟩)
    rw [List.foldlM_cons, bind_eq_ok]
    exact ⟨t, h, hu⟩
  · rintro ⟨hs, hp⟩ fs hfs u hu
    cases fs with
    | nil =>
      rw [List.foldlM_nil, pure_eq_ok] at hu
      exact hu ▸ hs
    | cons d fs =>
      obtain ⟨hd, hpre⟩ := List.cons_prefix_cons.mp hfs
      rw [List.foldlM_cons, bind_eq_ok, hd] at hu
      obtain ⟨t', ht', hu⟩ := hu
      rw [h] at ht'
      injection ht' with ht'
      exact hp fs hpre u (ht' ▸ hu)

def AtEveryStep {δ : Type} (f : σ → ε → Except δ σ) (C : σ → ε → Prop) (s : σ) (es : List ε) :
    Prop :=
  ∀ fs e gs, es = fs ++ e :: gs → ∀ t, fs.foldlM f s = .ok t → C t e

theorem atEveryStep_cons {δ : Type} {f : σ → ε → Except δ σ} {C : σ → ε → Prop} {s t : σ} {e : ε}
    {es : List ε} (h : f s e = .ok t) :
    AtEveryStep f C s (e :: es) ↔ C s e ∧ AtEveryStep f C t es := by
  constructor
  · intro hc
    refine ⟨hc [] e es rfl s rfl, ?_⟩
    intro fs d gs he u hu
    apply hc (e :: fs) d gs (by rw [he, List.cons_append])
    rw [List.foldlM_cons, bind_eq_ok]
    exact ⟨t, h, hu⟩
  · rintro ⟨hs, hc⟩ fs d gs he u hu
    cases fs with
    | nil =>
      rw [List.foldlM_nil, pure_eq_ok] at hu
      obtain ⟨rfl, -⟩ := List.cons.inj he
      exact hu ▸ hs
    | cons e' fs =>
      obtain ⟨rfl, htail⟩ := List.cons.inj he
      rw [List.foldlM_cons, bind_eq_ok, h] at hu
      obtain ⟨t', ht', hu⟩ := hu
      injection ht' with ht'
      exact hc fs d gs htail u (ht' ▸ hu)

/-- Where a step keeps a property exactly on a condition, a run keeps it in every state exactly
if each step meets the condition. What is known of the events to come is `I`. -/
theorem onTheWay_iff_steps {δ : Type} {f : σ → ε → Except δ σ} {P : σ → Prop}
    {C : σ → ε → Prop} {I : σ → List ε → Prop}
    (hI : ∀ s e es t, I s (e :: es) → f s e = .ok t → I t es)
    (hP : ∀ s e es t, I s (e :: es) → P s → f s e = .ok t → (P t ↔ C s e))
    {s s' : σ} {es : List ε} (hi : I s es) (hs : P s) (hrun : es.foldlM f s = .ok s') :
    OnTheWay f P s es ↔ AtEveryStep f C s es := by
  induction es generalizing s with
  | nil =>
    rw [onTheWay_nil]
    constructor
    · intro _ fs e gs he
      simp at he
    · exact fun _ => hs
  | cons e es ih =>
    rw [List.foldlM_cons, bind_eq_ok] at hrun
    obtain ⟨t, ht, hrun⟩ := hrun
    rw [onTheWay_cons ht, atEveryStep_cons ht, ← hP s e es t hi hs ht]
    constructor
    · rintro ⟨_, hway⟩
      have hpt : P t := hway [] List.nil_prefix t rfl
      exact ⟨hpt, (ih (hI s e es t hi ht) hpt hrun).mp hway⟩
    · rintro ⟨hpt, hsteps⟩
      exact ⟨hs, (ih (hI s e es t hi ht) hpt hrun).mpr hsteps⟩

end DnsMonitor.Lib.Runs

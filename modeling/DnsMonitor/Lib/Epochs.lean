import DnsMonitor.Lib.Runs
import Mathlib.Order.Basic

namespace DnsMonitor.Lib.Epochs

open DnsMonitor.Lib.Runs

section

variable {σ ε κ α : Type} [PartialOrder κ] {step : σ → ε → σ} {I : σ → Prop} {epoch : σ → κ}
  {value : σ → α}

/-- From the states of an invariant no step lowers the epoch, and one that keeps the epoch keeps
the value. -/
structure Versioned (step : σ → ε → σ) (I : σ → Prop) (epoch : σ → κ) (value : σ → α) : Prop where
  keeps : ∀ s e, I s → I (step s e)
  epoch_le : ∀ s e, I s → epoch s ≤ epoch (step s e)
  value_eq : ∀ s e, I s → epoch (step s e) = epoch s → value (step s e) = value s

theorem Versioned.run_le (h : Versioned step I epoch value) {s : σ} (hs : I s) (es : List ε) :
    epoch s ≤ epoch (run step s es) := by
  induction es generalizing s with
  | nil => exact le_rfl
  | cons e es ih => exact (h.epoch_le s e hs).trans (ih (h.keeps s e hs))

theorem Versioned.epoch_between (h : Versioned step I epoch value) {s : σ} (hs : I s)
    {fs gs : List ε} (he : epoch (run step s (fs ++ gs)) = epoch s) :
    epoch (run step s fs) = epoch s := by
  have hf := h.run_le hs fs
  have hg := h.run_le (run_invariant h.keeps hs fs) gs
  rw [← run_append, he] at hg
  exact le_antisymm hg hf

/-- In one epoch the value never changes, not even forth and back. -/
theorem Versioned.value_run (h : Versioned step I epoch value) {s : σ} (hs : I s) {es : List ε}
    (he : epoch (run step s es) = epoch s) : value (run step s es) = value s := by
  induction es generalizing s with
  | nil => rfl
  | cons e es ih =>
    have hfirst : epoch (run step s [e]) = epoch s := h.epoch_between hs he
    rw [run_cons] at he ⊢
    rw [ih (h.keeps s e hs) (he.trans hfirst.symm), h.value_eq s e hs hfirst]

theorem Versioned.value_between (h : Versioned step I epoch value) {s : σ} (hs : I s)
    {fs gs : List ε} (he : epoch (run step s (fs ++ gs)) = epoch s) :
    value (run step s fs) = value s :=
  h.value_run hs (h.epoch_between hs he)

end

section

variable {σ ι : Type} {number : σ → Nat} {decided : ι → σ → Prop}

/-- The step gives a signal by raising the number, or leaves everybody undecided who was. -/
def Wakes (number : σ → Nat) (decided : ι → σ → Prop) (s t : σ) : Prop :=
  number s < number t ∨ number t = number s ∧ ∀ i, decided i t → decided i s

/-- Someone who waits for a signal number, with reason as long as it has not been given. -/
def Asleep (number : σ → Nat) (decided : ι → σ → Prop) (i : ι) (n : Nat) (s : σ) : Prop :=
  n ≤ number s ∧ (n = number s → ¬ decided i s)

theorem Wakes.refl (s : σ) : Wakes number decided s s := .inr ⟨rfl, fun _ h => h⟩

theorem asleep_of_undecided {i : ι} {s : σ} (h : ¬ decided i s) :
    Asleep number decided i (number s) s := ⟨Nat.le_refl _, fun _ => h⟩

theorem Asleep.step {i : ι} {n : Nat} {s t : σ} (h : Asleep number decided i n s)
    (hw : Wakes number decided s t) : Asleep number decided i n t := by
  obtain ⟨hle, hopen⟩ := h
  obtain hlt | ⟨heq, hkeep⟩ := hw
  · exact ⟨by omega, fun hn => by omega⟩
  · rw [Asleep, heq]
    exact ⟨hle, fun hn hd => hopen hn (hkeep i hd)⟩

end

end DnsMonitor.Lib.Epochs

import DnsMonitor.Go.Errors
import Mathlib.Data.List.Perm.Subperm

namespace DnsMonitor.Lib.Batches

/-- The orders in which a query without an order returns its rows, one for each pass. -/
structure ScanOrder (α : Type) where
  order : Nat → List α → List α
  perm : ∀ pass rows, (order pass rows).Perm rows

def ScanOrder.table {α : Type} : ScanOrder α := ⟨fun _ rows => rows, fun _ _ => .rfl⟩

variable {σ ε α : Type}

/-- `LIMIT` without `ORDER BY`. -/
def ScanOrder.select (o : ScanOrder α) (limit pass : Nat) (rows : List α) : List α :=
  (o.order pass rows).take limit

theorem select_subperm (o : ScanOrder α) (limit pass : Nat) (rows : List α) :
    (o.select limit pass rows).Subperm rows :=
  (List.take_sublist _ _).subperm.trans (o.perm pass rows).subperm

theorem length_select_le (o : ScanOrder α) (limit pass : Nat) (rows : List α) :
    (o.select limit pass rows).length ≤ limit := List.length_take_le _ _

theorem length_of_short {o : ScanOrder α} {limit pass : Nat} {rows : List α}
    (h : (o.select limit pass rows).length < limit) :
    (o.select limit pass rows).length = rows.length := by
  rw [ScanOrder.select, List.length_take, (o.perm pass rows).length_eq] at h ⊢
  omega

/-- Work on batches until one is not full; `none` when the passes run out. -/
def drain (limit : Nat) (o : ScanOrder α) (query : σ → List α) (work : List α → σ → Except ε σ) :
    Nat → Nat → σ → ExceptT ε Option σ
  | 0, _, _ => none
  | passes + 1, pass, s =>
    let batch := o.select limit pass (query s)
    match work batch s with
    | .error e => some (.error e)
    | .ok s' => if batch.length < limit then some (.ok s')
      else drain limit o query work passes (pass + 1) s'

variable [DecidableEq α]

theorem length_rest {batch rows : List α} (h : batch.Subperm rows) :
    (rows.filter (· ∉ batch)).length + batch.length ≤ rows.length := by
  have hin : batch.filter (· ∈ batch) = batch := List.filter_eq_self.mpr fun a ha => by simpa
  have hle := (h.filter (· ∈ batch)).length_le
  rw [hin] at hle
  have hsplit := List.length_eq_length_filter_add (l := rows) (· ∈ batch)
  have hnot : (rows.filter fun a => !decide (a ∈ batch)) = rows.filter (· ∉ batch) := by
    congr 1
    funext a
    rw [decide_not]
  rw [hnot] at hsplit
  omega

/-- A loop ends when each pass succeeds and leaves nothing of its batch to a later one. What every
pass keeps then holds at the end, where no row is left. -/
theorem drain_ends {I : σ → Prop} {limit : Nat} {o : ScanOrder α} {query : σ → List α}
    {work : List α → σ → Except ε σ} (hlimit : 0 < limit)
    (hwork : ∀ s batch, I s → batch.Subperm (query s) → batch.length ≤ limit →
      ∃ s', work batch s = .ok s' ∧ I s' ∧
        (query s').length ≤ ((query s).filter (· ∉ batch)).length)
    (pass : Nat) {s : σ} (hs : I s) :
    ∃ s', I s' ∧ query s' = [] ∧ ∀ passes, (query s).length < passes →
      drain limit o query work passes pass s = some (.ok s') := by
  induction hn : (query s).length using Nat.strongRecOn generalizing s pass with
  | ind n ih =>
    have hsub := select_subperm o limit pass (query s)
    obtain ⟨s₁, h₁, hI₁, hle⟩ := hwork s _ hs hsub (length_select_le o limit pass _)
    have hrest := length_rest hsub
    by_cases hshort : (o.select limit pass (query s)).length < limit
    · have hall := length_of_short hshort
      refine ⟨s₁, hI₁, List.length_eq_zero_iff.mp (by omega), ?_⟩
      intro passes hp
      obtain ⟨k, rfl⟩ : ∃ k, passes = k + 1 := ⟨passes - 1, by omega⟩
      rw [drain]
      simp only [h₁, if_pos hshort]
    · obtain ⟨s', hI', hdone, hend⟩ := ih (query s₁).length (by omega) (pass + 1) hI₁ rfl
      refine ⟨s', hI', hdone, ?_⟩
      intro passes hp
      obtain ⟨k, rfl⟩ : ∃ k, passes = k + 1 := ⟨passes - 1, by omega⟩
      rw [drain]
      simp only [h₁, if_neg hshort]
      exact hend k (by omega)

omit [DecidableEq α] in
theorem bind_of_ok {β : Type} {x : ExceptT ε Option α} {a : α} (h : x = some (.ok a))
    (f : α → ExceptT ε Option β) : (x >>= f) = f a := by
  subst h
  rfl

omit [DecidableEq α] in
theorem bind_eq_some_ok {β : Type} {x : ExceptT ε Option α} {f : α → ExceptT ε Option β} {b : β} :
    (x >>= f) = some (.ok b) ↔ ∃ a, x = some (.ok a) ∧ f a = some (.ok b) := by
  constructor
  · intro h
    match hx : x with
    | none => cases h
    | some (.error _) => cases h
    | some (.ok a) => exact ⟨a, rfl, h⟩
  · rintro ⟨a, rfl, h⟩
    exact h

omit [DecidableEq α] in
theorem drain_invariant {P : σ → Prop} {limit : Nat} {o : ScanOrder α} {query : σ → List α}
    {work : List α → σ → Except ε σ}
    (hwork : ∀ s batch s', P s → work batch s = .ok s' → P s') {passes pass : Nat} {s s' : σ}
    (hs : P s) (h : drain limit o query work passes pass s = some (.ok s')) : P s' := by
  induction passes generalizing pass s with
  | zero => cases h
  | succ passes ih =>
    rw [drain] at h
    split at h
    · cases h
    · rename_i s₁ h₁
      have hs₁ := hwork s _ s₁ hs h₁
      split_ifs at h
      · injection h with h
        injection h with h
        exact h ▸ hs₁
      · exact ih hs₁ h

end DnsMonitor.Lib.Batches

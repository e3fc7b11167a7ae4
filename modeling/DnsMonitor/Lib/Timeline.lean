import DnsMonitor.Lib.Tables

namespace DnsMonitor.Lib.Timeline

open DnsMonitor.Lib.Tables

variable {α β κ : Type} [LinearOrder κ] {key : α → κ} {q r n : α} {rows : List α}

/-- `WHERE key > ... ORDER BY key LIMIT 1`. -/
def next (key : α → κ) (q : α) (rows : List α) : Option α :=
  latest (fun r => OrderDual.toDual (key r)) (rows.filter fun r => key q < key r)

theorem next_eq_none : next key q rows = none ↔ ∀ r ∈ rows, ¬ key q < key r := by
  rw [next, latest_eq_none, List.filter_eq_nil_iff]
  simp

theorem next_eq_some (h : next key q rows = some r) :
    r ∈ rows ∧ key q < key r ∧ ∀ t ∈ rows, key q < key t → key r ≤ key t := by
  obtain ⟨hr, hmin⟩ := latest_eq_some h
  obtain ⟨hr, hq⟩ := List.mem_filter.mp hr
  refine ⟨hr, by simpa using hq, ?_⟩
  intro t ht hqt
  exact OrderDual.toDual_le_toDual.mp (hmin t (List.mem_filter.mpr ⟨ht, by simpa using hqt⟩))

theorem next_unique (hinj : ∀ s ∈ rows, ∀ t ∈ rows, key s = key t → s = t) (hr : r ∈ rows)
    (hq : key q < key r) (hmin : ∀ t ∈ rows, key q < key t → key r ≤ key t) :
    next key q rows = some r := by
  cases h : next key q rows with
  | none => exact absurd hq (next_eq_none.mp h r hr)
  | some t =>
    obtain ⟨ht, hqt, htmin⟩ := next_eq_some h
    rw [hinj t ht r hr (le_antisymm (htmin r hr hq) (hmin t ht hqt))]

theorem next_map {g : α → β} {m : β → κ} {p : β} (h : ∀ r, m (g r) = key r) (hq : m p = key q)
    (rows : List α) : next m p (rows.map g) = (next key q rows).map g := by
  rw [next, next, ← latest_map (k := fun r => OrderDual.toDual (key r))
    (m := fun r => OrderDual.toDual (m r)) fun r => congrArg _ (h r), List.filter_map]
  simp only [Function.comp_def, h, hq]

theorem next_append_before (h : ¬ key q < key n) : next key q (rows ++ [n]) = next key q rows := by
  rw [next, List.filter_append, List.filter_singleton]
  simp [h, next]

theorem next_append_behind (hinj : ∀ s ∈ rows ++ [n], ∀ t ∈ rows ++ [n], key s = key t → s = t)
    (hr : r ∈ rows) (hqr : key q < key r) (hrn : key r < key n) :
    next key q (rows ++ [n]) = next key q rows := by
  cases h : next key q rows with
  | none => exact absurd hqr (next_eq_none.mp h r hr)
  | some s =>
    obtain ⟨hs, hqs, hmin⟩ := next_eq_some h
    apply next_unique hinj (List.mem_append_left _ hs) hqs
    intro t ht hqt
    cases List.mem_append.mp ht with
    | inl ht => exact hmin t ht hqt
    | inr ht =>
      rw [List.mem_singleton.mp ht]
      exact (hmin r hr hqr).trans hrn.le

theorem next_append_after (hinj : ∀ s ∈ rows ++ [n], ∀ t ∈ rows ++ [n], key s = key t → s = t)
    (hqn : key q < key n) (h : ∀ t ∈ rows, key q < key t → key n ≤ key t) :
    next key q (rows ++ [n]) = some n := by
  apply next_unique hinj (List.mem_append_right _ (List.mem_singleton.mpr rfl)) hqn
  intro t ht hqt
  cases List.mem_append.mp ht with
  | inl ht => exact h t ht hqt
  | inr ht => rw [List.mem_singleton.mp ht]

end DnsMonitor.Lib.Timeline

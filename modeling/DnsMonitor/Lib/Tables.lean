import Mathlib.Algebra.BigOperators.Group.List.Basic
import Mathlib.Data.Int.Lemmas
import Mathlib.Data.List.MinMax
import Mathlib.Data.Prod.Lex
import Mathlib.Order.Lattice.Nat

namespace DnsMonitor.Lib.Tables

variable {α β : Type}

/-- `UPDATE ... WHERE`. -/
def update (p : α → Bool) (f : α → α) (rows : List α) : List α :=
  rows.map fun r => if p r then f r else r

/-- `DELETE ... WHERE`. -/
def delete (p : α → Bool) (rows : List α) : List α := rows.filter fun r => !p r

theorem mem_delete {p : α → Bool} {rows : List α} {r : α} :
    r ∈ delete p rows ↔ r ∈ rows ∧ p r = false := by
  simp [delete]

theorem delete_sublist (p : α → Bool) (rows : List α) : (delete p rows).Sublist rows :=
  List.filter_sublist

theorem mem_update {p : α → Bool} {f : α → α} {rows : List α} {r : α} :
    r ∈ update p f rows ↔ ∃ q ∈ rows, (if p q then f q else q) = r := by
  simp [update]

theorem delete_eq_filterMap (p : α → Bool) (rows : List α) :
    delete p rows = rows.filterMap fun r => if p r then none else some r := by
  rw [delete, ← List.filterMap_eq_filter]
  apply List.filterMap_congr
  intro r _
  cases h : p r <;> simp [Option.guard, h]

theorem update_eq_filterMap (p : α → Bool) (f : α → α) (rows : List α) :
    update p f rows = rows.filterMap fun r => some (if p r then f r else r) := by
  rw [update, ← List.filterMap_eq_map]
  rfl

/-- An update that keeps a column where it applies changes nothing in a table of that column. -/
theorem map_update_of {p : α → Bool} {f : α → α} {g : α → β} {rows : List α}
    (h : ∀ r ∈ rows, p r = true → g (f r) = g r) : (update p f rows).map g = rows.map g := by
  rw [update, List.map_map]
  apply List.map_congr_left
  intro r hr
  cases hp : p r with
  | false => simp [hp]
  | true => simp [hp, h r hr hp]

theorem map_update {p : α → Bool} {f : α → α} {g : α → β} (h : ∀ r, g (f r) = g r)
    (rows : List α) : (update p f rows).map g = rows.map g :=
  map_update_of fun r _ _ => h r

theorem filter_update {p q : α → Bool} {f : α → α} (h : ∀ r, q (f r) = q r) (rows : List α) :
    (update p f rows).filter q = update p f (rows.filter q) := by
  induction rows with
  | nil => rfl
  | cons r rows ih =>
    have hq : q (if p r then f r else r) = q r := by
      by_cases hp : p r <;> simp [hp, h]
    simp only [update, List.map_cons] at ih ⊢
    by_cases hr : q r = true
    · rw [List.filter_cons_of_pos (by rw [hq, hr]), List.filter_cons_of_pos hr, List.map_cons, ih]
    · rw [List.filter_cons_of_neg (by rw [hq]; exact hr), List.filter_cons_of_neg hr, ih]

theorem update_of_none {p : α → Bool} {f : α → α} {rows : List α} (h : ∀ r ∈ rows, p r = false) :
    update p f rows = rows := by
  rw [update, List.map_congr_left (g := id), List.map_id]
  intro r hr
  simp [h r hr]

theorem find_update {p q : α → Bool} {f : α → α} (h : ∀ r, q (f r) = q r) (rows : List α) :
    (update p f rows).find? q = (rows.find? q).map fun r => if p r then f r else r := by
  rw [update, List.find?_map]
  congr 2
  funext r
  by_cases hp : p r <;> simp [hp, h]

theorem filter_none {p : α → Bool} {rows : List α} (h : ∀ r ∈ rows, p r = false) :
    rows.filter p = [] :=
  List.filter_eq_nil_iff.mpr fun r hr => by simp [h r hr]

theorem filter_every {p : α → Bool} {rows : List α} (h : ∀ r ∈ rows, p r = true) :
    rows.filter p = rows :=
  List.filter_eq_self.mpr h

theorem filter_delete {p q : α → Bool} {rows : List α} (h : ∀ r ∈ rows, q r = true → p r = false) :
    (delete p rows).filter q = rows.filter q := by
  rw [delete, List.filter_filter]
  apply List.filter_congr
  intro r hr
  cases hq : q r with
  | false => simp
  | true => simp [h r hr hq]

theorem delete_comm (p q : α → Bool) (rows : List α) :
    delete p (delete q rows) = delete q (delete p rows) := by
  simp only [delete, List.filter_filter, Bool.and_comm]

theorem delete_delete {p q : α → Bool} {rows : List α} (h : ∀ r ∈ rows, q r = true → p r = true) :
    delete p (delete q rows) = delete p rows := by
  rw [delete_comm, delete, delete]
  apply filter_every
  intro r hr
  obtain ⟨hr, hp⟩ := mem_delete.mp hr
  cases hq : q r with
  | false => rfl
  | true =>
    rw [h r hr hq] at hp
    cases hp

theorem delete_update {p q : α → Bool} {f : α → α} (h : ∀ r, q (f r) = q r) (rows : List α) :
    delete q (update p f rows) = update p f (delete q rows) := by
  apply filter_update
  intro r
  rw [h]

theorem any_delete {p q : α → Bool} (h : ∀ r, q r = true → p r = false) (rows : List α) :
    (delete p rows).any q = rows.any q := by
  rw [delete, List.any_filter]
  congr 1
  funext r
  cases hq : q r with
  | true => simp [h r hq]
  | false => simp

theorem find_delete {p q : α → Bool} (h : ∀ r, q r = true → p r = false) (rows : List α) :
    (delete p rows).find? q = rows.find? q := by
  induction rows with
  | nil => rfl
  | cons r rows ih =>
    cases hq : q r with
    | true => simp [delete, h r hq, hq]
    | false =>
      rw [List.find?_cons_of_neg (by simp [hq]), ← ih]
      cases hp : p r with
      | true => simp [delete, hp]
      | false => simp [delete, hp, hq]

/-- A function of rows that a statement cannot tell from the rows themselves may be applied
before or after it. -/
theorem map_delete {g : α → β} {p : α → Bool} {q : β → Bool} (h : ∀ r, q (g r) = p r)
    (rows : List α) : (delete p rows).map g = delete q (rows.map g) := by
  rw [delete, delete, List.filter_map]
  congr 2
  funext r
  simp [h]

theorem map_update_comm {g : α → β} {p : α → Bool} {q : β → Bool} {f : α → α} {u : β → β}
    (hp : ∀ r, q (g r) = p r) (hf : ∀ r, g (f r) = u (g r)) (rows : List α) :
    (update p f rows).map g = update q u (rows.map g) := by
  rw [update, update, List.map_map, List.map_map]
  apply List.map_congr_left
  intro r _
  by_cases h : p r <;> simp [hp, hf, h]

/-- `COALESCE(MAX(column), 0)` of a column of natural numbers. -/
def maxOf (f : α → Nat) (rows : List α) : Nat := rows.foldr (fun r n => max (f r) n) 0

@[simp] theorem maxOf_nil (f : α → Nat) : maxOf f [] = 0 := rfl

@[simp] theorem maxOf_cons (f : α → Nat) (r : α) (rows : List α) :
    maxOf f (r :: rows) = max (f r) (maxOf f rows) := rfl

theorem maxOf_append (f : α → Nat) (l m : List α) :
    maxOf f (l ++ m) = max (maxOf f l) (maxOf f m) := by
  induction l with
  | nil => simp
  | cons r l ih => rw [List.cons_append, maxOf_cons, maxOf_cons, ih, max_assoc]

theorem maxOf_congr {f g : α → Nat} {rows : List α} (h : ∀ r ∈ rows, f r = g r) :
    maxOf f rows = maxOf g rows := by
  induction rows with
  | nil => rfl
  | cons r rows ih =>
    rw [maxOf_cons, maxOf_cons, h r (by simp), ih fun q hq => h q (by simp [hq])]

theorem maxOf_map (f : β → Nat) (g : α → β) (rows : List α) :
    maxOf f (rows.map g) = maxOf (fun r => f (g r)) rows := by
  induction rows with
  | nil => rfl
  | cons r rows ih => rw [List.map_cons, maxOf_cons, maxOf_cons, ih]

theorem maxOf_update {p q : α → Bool} {f : α → α} {g : α → Nat} (hq : ∀ r, q (f r) = q r)
    (hg : ∀ r, g (f r) = g r) (rows : List α) :
    maxOf g ((update p f rows).filter q) = maxOf g (rows.filter q) := by
  rw [filter_update hq]
  have he := congrArg (maxOf id) (map_update (p := p) hg (rows.filter q))
  exact (maxOf_map id g _).symm.trans (he.trans (maxOf_map id g _))

theorem le_maxOf (f : α → Nat) {rows : List α} {r : α} (h : r ∈ rows) : f r ≤ maxOf f rows := by
  induction rows with
  | nil => simp at h
  | cons q rows ih =>
    rw [maxOf_cons]
    cases List.mem_cons.mp h with
    | inl h => exact h ▸ le_max_left _ _
    | inr h => exact (ih h).trans (le_max_right _ _)

theorem maxOf_le {f : α → Nat} {rows : List α} {n : Nat} (h : ∀ r ∈ rows, f r ≤ n) :
    maxOf f rows ≤ n := by
  induction rows with
  | nil => exact Nat.zero_le n
  | cons r rows ih => exact max_le (h r (by simp)) (ih fun q hq => h q (by simp [hq]))

theorem filter_single {p : α → Bool} {rows : List α} {c : α} (hn : rows.Nodup) (hc : c ∈ rows)
    (h : ∀ r ∈ rows, r ≠ c → p r = false) : rows.filter p = if p c then [c] else [] := by
  induction rows with
  | nil => cases hc
  | cons r rows ih =>
    obtain ⟨hr, hn⟩ := List.nodup_cons.mp hn
    cases List.mem_cons.mp hc with
    | inl he =>
      have hrest : rows.filter p = [] :=
        filter_none fun q hq => h q (by simp [hq]) fun hqc => hr (he ▸ hqc ▸ hq)
      rw [List.filter_cons, hrest, he]
    | inr hc =>
      rw [List.filter_cons_of_neg (by simp [h r (by simp) fun hrc => hr (hrc ▸ hc)])]
      exact ih hn hc fun q hq => h q (by simp [hq])

theorem sum_partition (f : α → Int) (p : α → Bool) (rows : List α) :
    (rows.map f).sum = ((rows.filter p).map f).sum + ((rows.filter (!p ·)).map f).sum := by
  induction rows with
  | nil => rfl
  | cons r rows ih =>
    cases hp : p r <;> simp [hp, ih, add_assoc, add_left_comm]

theorem sum_filter {f : α → Int} {p : α → Bool} {rows : List α}
    (h : ∀ r ∈ rows, p r = false → f r = 0) : ((rows.filter p).map f).sum = (rows.map f).sum := by
  have hrest : ((rows.filter (!p ·)).map f).sum = 0 := by
    apply List.sum_eq_zero
    intro x hx
    obtain ⟨r, hr, rfl⟩ := List.mem_map.mp hx
    obtain ⟨hr, hp⟩ := List.mem_filter.mp hr
    exact h r hr (by simpa using hp)
  rw [sum_partition f p rows, hrest, add_zero]

theorem sum_modify {M : Type} [AddCommMonoid M] {f : α → M} {g : α → α} {d : M}
    (h : ∀ a, f (g a) = f a + d) {rows : List α} {i : Nat} (hi : i < rows.length) :
    ((rows.modify i g).map f).sum = (rows.map f).sum + d := by
  induction rows generalizing i with
  | nil => cases hi
  | cons a rows ih =>
    cases i with
    | zero => rw [List.modify_zero_cons, List.map_cons, List.map_cons, List.sum_cons,
        List.sum_cons, h, add_right_comm]
    | succ i =>
      rw [List.modify_succ_cons, List.map_cons, List.map_cons, List.sum_cons, List.sum_cons,
        ih (by simpa using hi), add_assoc]

theorem map_modify {f : α → β} {g : α → α} (h : ∀ a, f (g a) = f a) (rows : List α) (i : Nat) :
    (rows.modify i g).map f = rows.map f := by
  induction rows generalizing i with
  | nil => cases i <;> rfl
  | cons a rows ih =>
    cases i with
    | zero => rw [List.modify_zero_cons, List.map_cons, List.map_cons, h]
    | succ i => rw [List.modify_succ_cons, List.map_cons, List.map_cons, ih]

theorem map_mapIdx {f : α → β} {g : Nat → α → α} (h : ∀ i a, f (g i a) = f a) (rows : List α) :
    (rows.mapIdx g).map f = rows.map f := by
  apply List.ext_getElem
  · simp
  · intro i hi hi'
    simp [h]

theorem map_mapIdx_range {f : α → β} {g : Nat → α → α} {k : Nat → β}
    (h : ∀ i a, f (g i a) = k i) (rows : List α) :
    (rows.mapIdx g).map f = (List.range rows.length).map k := by
  apply List.ext_getElem
  · simp
  · intro i hi hi'
    simp [h]

theorem sum_range_single (k n x : Nat) :
    ((List.range n).map fun i => if i = k then x else 0).sum = if k < n then x else 0 := by
  induction n with
  | zero => rfl
  | succ n ih =>
    rw [List.range_succ, List.map_append, List.sum_append, ih, List.map_singleton,
      List.sum_singleton]
    split_ifs <;> omega

theorem sum_groups {f : α → Nat} {group : α → Int} {n : Nat} {rows : List α}
    (h : ∀ r ∈ rows, 0 ≤ group r ∧ group r < n) :
    ((List.range n).map fun i : Nat => ((rows.filter (group · = (i : Int))).map f).sum).sum =
      (rows.map f).sum := by
  induction rows with
  | nil => simp
  | cons r rows ih =>
    obtain ⟨hlow, hhigh⟩ := h r (by simp)
    obtain ⟨k, hk⟩ := Int.eq_ofNat_of_zero_le hlow
    have hadd : ∀ i : Nat, (((r :: rows).filter (group · = (i : Int))).map f).sum =
        (if i = k then f r else 0) + ((rows.filter (group · = (i : Int))).map f).sum := by
      intro i
      by_cases hi : i = k
      · rw [List.filter_cons_of_pos (by simp [hk, hi]), List.map_cons, List.sum_cons, if_pos hi]
      · rw [List.filter_cons_of_neg (by simpa [hk, eq_comm] using hi), if_neg hi, zero_add]
    simp only [hadd]
    rw [List.sum_map_add, sum_range_single, if_pos (by omega), ih fun q hq => h q (by simp [hq]),
      List.map_cons, List.sum_cons]

theorem maxOf_perm (f : α → Nat) {l m : List α} (h : l.Perm m) : maxOf f l = maxOf f m := by
  induction h with
  | nil => rfl
  | cons a _ ih => rw [maxOf_cons, maxOf_cons, ih]
  | swap a b l =>
    simp only [maxOf_cons]
    exact max_left_comm _ _ _
  | trans _ _ ih₁ ih₂ => exact ih₁.trans ih₂

theorem maxOf_modify {f : α → Nat} {g : α → α} {n : Nat} (h : ∀ a, f (g a) = max (f a) n)
    {rows : List α} {i : Nat} (hi : i < rows.length) :
    maxOf f (rows.modify i g) = max (maxOf f rows) n := by
  induction rows generalizing i with
  | nil => cases hi
  | cons a rows ih =>
    cases i with
    | zero => rw [List.modify_zero_cons, maxOf_cons, maxOf_cons, h, max_right_comm]
    | succ i =>
      rw [List.modify_succ_cons, maxOf_cons, maxOf_cons, ih (by simpa using hi), max_assoc]

theorem min_of_perm {l m : List Int} (h : l.Perm m) : l.min? = m.min? := by
  ext t
  simp only [List.min?_eq_some_iff, h.mem_iff]

def nextID (ids : List Int) : Int := (ids.foldr max 0) + 1

theorem lt_nextID {ids : List Int} {i : Int} (h : i ∈ ids) : i < nextID ids := by
  have hle : i ≤ ids.foldr max 0 := by
    induction ids with
    | nil => simp at h
    | cons j ids ih =>
      cases List.mem_cons.mp h with
      | inl h => exact h ▸ le_max_left _ _
      | inr h => exact (ih h).trans (le_max_right _ _)
  exact Int.lt_add_one_of_le hle

/-- `ORDER BY key DESC LIMIT 1`. -/
def latest {κ : Type} [LinearOrder κ] (key : α → κ) (rows : List α) : Option α :=
  rows.argmax key

theorem latest_eq_none {κ : Type} [LinearOrder κ] {key : α → κ} {rows : List α} :
    latest key rows = none ↔ rows = [] := List.argmax_eq_none

theorem latest_eq_some {κ : Type} [LinearOrder κ] {key : α → κ} {rows : List α} {r : α}
    (h : latest key rows = some r) : r ∈ rows ∧ ∀ q ∈ rows, key q ≤ key r :=
  ⟨List.argmax_mem h, fun _ hq => List.le_of_mem_argmax hq h⟩

theorem latest_of_max {κ : Type} [LinearOrder κ] {key : α → κ} {rows : List α} {r : α}
    (hr : r ∈ rows) (hmax : ∀ q ∈ rows, key q ≤ key r) (hinj : ∀ q ∈ rows, key q = key r → q = r) :
    latest key rows = some r := by
  cases h : latest key rows with
  | none =>
    rw [latest_eq_none.mp h] at hr
    cases hr
  | some q =>
    obtain ⟨hq, hle⟩ := latest_eq_some h
    rw [hinj q hq (le_antisymm (hmax q hq) (hle r hr))]

theorem latest_concat {κ : Type} [LinearOrder κ] (key : α → κ) (rows : List α) (r : α) :
    latest key (rows ++ [r]) =
      match latest key rows with
      | none => some r
      | some q => if key q < key r then some r else some q := by
  unfold latest
  rw [List.argmax_concat]
  cases List.argmax key rows with
  | none => rfl
  | some q => rfl

theorem maxOf_latest (f : α → Nat) (rows : List α) :
    maxOf f rows = ((latest f rows).map f).getD 0 := by
  cases h : latest f rows with
  | none =>
    rw [latest_eq_none.mp h]
    rfl
  | some r =>
    obtain ⟨hr, hmax⟩ := latest_eq_some h
    exact le_antisymm (maxOf_le hmax) (le_maxOf f hr)

/-- A change of the rows that keeps their order keeps the place of the latest one. -/
theorem latest_map_of {κ μ : Type} [LinearOrder κ] [LinearOrder μ] {g : α → β} {k : α → κ}
    {m : β → μ} {rows : List α}
    (h : ∀ q ∈ rows, ∀ r ∈ rows, m (g q) < m (g r) ↔ k q < k r) :
    latest m (rows.map g) = (latest k rows).map g := by
  unfold latest
  induction rows with
  | nil => rfl
  | cons r rows ih =>
    rw [List.map_cons, List.argmax_cons, List.argmax_cons,
      ih fun q hq r hr => h q (by simp [hq]) r (by simp [hr])]
    cases hl : List.argmax k rows with
    | none => rfl
    | some q =>
      have hq : q ∈ r :: rows := List.mem_cons_of_mem _ (List.argmax_mem hl)
      simp only [Option.map_some, h r (by simp) q hq]
      split_ifs <;> rfl

theorem latest_map {κ : Type} [LinearOrder κ] {g : α → β} {k : α → κ} {m : β → κ}
    (h : ∀ r, m (g r) = k r) (rows : List α) :
    latest m (rows.map g) = (latest k rows).map g := by
  apply latest_map_of
  intro q _ r _
  rw [h, h]

end DnsMonitor.Lib.Tables

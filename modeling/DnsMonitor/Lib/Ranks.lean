import Mathlib.Data.List.Dedup
import Mathlib.Data.List.Sort

namespace DnsMonitor.Lib.Ranks

variable {α β : Type} [LinearOrder α] [LinearOrder β]

/-- The value at a rank, from rank one on. -/
def ranked (xs : List α) (k : Nat) : Option α := (xs.insertionSort (· ≤ ·))[k - 1]?

theorem ranked_isSome {xs : List α} {k : Nat} (hpos : 0 < k) (hle : k ≤ xs.length) :
    ∃ x ∈ xs, ranked xs k = some x := by
  have hlt : k - 1 < (xs.insertionSort (· ≤ ·)).length := by
    rw [List.length_insertionSort]
    omega
  exact ⟨_, (List.mem_insertionSort _).mp (List.getElem_mem hlt), List.getElem?_eq_getElem hlt⟩

theorem insertionSort_of_perm {xs ys : List α} (hp : ys.Perm xs) (hs : ys.Pairwise (· ≤ ·)) :
    xs.insertionSort (· ≤ ·) = ys :=
  ((List.perm_insertionSort _ xs).trans hp.symm).eq_of_pairwise'
    (List.pairwise_insertionSort _ xs) hs

theorem ranked_map {f : α → β} (hf : Monotone f) (xs : List α) (k : Nat) :
    ranked (xs.map f) k = (ranked xs k).map f := by
  have hsort : (xs.map f).insertionSort (· ≤ ·) = (xs.insertionSort (· ≤ ·)).map f := by
    apply insertionSort_of_perm
    · exact (List.perm_insertionSort _ xs).map f
    · exact (List.pairwise_insertionSort _ xs).map f fun _ _ h => hf h
  rw [ranked, hsort, List.getElem?_map, ranked]

def repeated (count : α → Nat) (keys : List α) : List α :=
  keys.flatMap fun k => List.replicate (count k) k

theorem repeated_pairwise (count : α → Nat) {keys : List α} (h : keys.Pairwise (· < ·)) :
    (repeated count keys).Pairwise (· ≤ ·) := by
  induction keys with
  | nil => exact List.Pairwise.nil
  | cons k keys ih =>
    obtain ⟨hk, hkeys⟩ := List.pairwise_cons.mp h
    rw [repeated, List.flatMap_cons, List.pairwise_append]
    refine ⟨List.pairwise_replicate.mpr (Or.inr le_rfl), ih hkeys, ?_⟩
    intro x hx y hy
    obtain ⟨l, hl, hy⟩ := List.mem_flatMap.mp hy
    rw [List.eq_of_mem_replicate hx, List.eq_of_mem_replicate hy]
    exact (hk l hl).le

theorem count_repeated (count : α → Nat) {keys : List α} (h : keys.Nodup) (x : α) :
    (repeated count keys).count x = if x ∈ keys then count x else 0 := by
  induction keys with
  | nil => rfl
  | cons k keys ih =>
    obtain ⟨hk, hkeys⟩ := List.nodup_cons.mp h
    rw [repeated, List.flatMap_cons, List.count_append, ← repeated, ih hkeys, List.count_replicate]
    by_cases hx : x = k
    · subst hx
      simp [hk]
    · simp [hx, Ne.symm hx]

/-- The keys in order, each as often as it occurs, are the values in order. -/
theorem repeated_eq_insertionSort {xs keys : List α} (h : keys.Pairwise (· < ·))
    (hkeys : ∀ x ∈ xs, x ∈ keys) : repeated xs.count keys = xs.insertionSort (· ≤ ·) := by
  have hnodup : keys.Nodup := h.imp fun h => h.ne
  refine (insertionSort_of_perm (List.perm_iff_count.mpr fun x => ?_) (repeated_pairwise _ h)).symm
  rw [count_repeated _ hnodup]
  by_cases hx : x ∈ keys
  · rw [if_pos hx]
  · rw [if_neg hx, List.count_eq_zero.mpr fun hm => hx (hkeys x hm)]

end DnsMonitor.Lib.Ranks

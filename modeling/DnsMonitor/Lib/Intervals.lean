import Mathlib.Algebra.BigOperators.Ring.Finset
import Mathlib.Data.Int.Interval
import Mathlib.Order.ConditionallyCompleteLattice.Finset
import Mathlib.Data.Int.ConditionallyCompleteOrder

namespace DnsMonitor.Lib.Intervals

/-- The length of the part of `[a, b)` that lies in `[c, d)`. -/
def common (c d a b : Int) : Int := max 0 (min b d - max a c)

theorem common_nonneg (c d a b : Int) : 0 ≤ common c d a b := le_max_left _ _

theorem common_eq_card (c d a b : Int) :
    common c d a b = (Finset.Ico (max a c) (min b d)).card := by
  rw [Int.card_Ico, common, max_comm, Int.toNat_eq_max]

theorem common_zero {c d a b : Int} (h : b ≤ c ∨ d ≤ a) : common c d a b = 0 := by
  rw [common, max_def, min_def, max_def]
  split_ifs <;> omega

theorem common_split {c d e : Int} (hcd : c ≤ d) (hde : d ≤ e) (a b : Int) :
    common c d a b + common d e a b = common c e a b := by
  simp only [common, max_def, min_def]
  split_ifs <;> omega

variable {α β : Type}

theorem sum_card_le [DecidableEq β] {f : α → Finset β} {rows : List α} {s : Finset β}
    (hd : rows.Pairwise fun q r => Disjoint (f q) (f r)) (hs : ∀ r ∈ rows, f r ⊆ s) :
    (rows.map fun r => (f r).card).sum ≤ s.card := by
  induction rows generalizing s with
  | nil => exact Nat.zero_le _
  | cons r rows ih =>
    obtain ⟨hr, hd⟩ := List.pairwise_cons.mp hd
    have hrest : ∀ q ∈ rows, f q ⊆ s \ f r := by
      intro q hq
      apply Finset.subset_sdiff.mpr
      exact ⟨hs q (by simp [hq]), (hr q hq).symm⟩
    have hcard := Finset.card_sdiff_add_card_eq_card (hs r (by simp))
    have hle := ih hd hrest
    rw [List.map_cons, List.sum_cons]
    omega

/-- Disjoint intervals do not take more of a window than its length. -/
theorem sum_common_le {start stop : α → Int} {rows : List α}
    (hd : rows.Pairwise fun q r => stop q ≤ start r ∨ stop r ≤ start q) {c d : Int} (h : c ≤ d) :
    (rows.map fun r => common c d (start r) (stop r)).sum ≤ d - c := by
  have hsub : ∀ r ∈ rows, Finset.Ico (max (start r) c) (min (stop r) d) ⊆ Finset.Ico c d :=
    fun r _ => Finset.Ico_subset_Ico (le_max_right _ _) (min_le_right _ _)
  have hdisjoint : rows.Pairwise fun q r => Disjoint (Finset.Ico (max (start q) c)
      (min (stop q) d)) (Finset.Ico (max (start r) c) (min (stop r) d)) := by
    apply hd.imp
    intro q r hqr
    rw [Finset.disjoint_left]
    intro t hq hr
    rw [Finset.mem_Ico] at hq hr
    omega
  have hle := sum_card_le hdisjoint hsub
  rw [Int.card_Ico] at hle
  simp only [common_eq_card]
  have hsum : (rows.map fun r => ((Finset.Ico (max (start r) c) (min (stop r) d)).card : Int)).sum =
      ((rows.map fun r => (Finset.Ico (max (start r) c) (min (stop r) d)).card).sum : Nat) := by
    rw [Nat.cast_list_sum, List.map_map]
    rfl
  rw [hsum]
  omega

end DnsMonitor.Lib.Intervals

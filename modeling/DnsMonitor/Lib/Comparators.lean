import Mathlib.Algebra.Order.Ring.Rat
import Mathlib.Data.List.Sort
import Mathlib.Data.Prod.Lex

namespace DnsMonitor.Lib.Comparators

section

variable {α κ : Type} [LinearOrder κ]

/-- A comparator orders items as their keys are. -/
structure Compares (key : α → κ) (compare : α → α → ℚ) : Prop where
  neg_iff : ∀ a b, compare a b < 0 ↔ key a < key b
  swap : ∀ a b, compare b a = -compare a b

/-- Of two items with different ids exactly one comes first, and what comes first is transitive. -/
structure IsStrictTotal {ι : Type} (id : α → ι) (compare : α → α → ℚ) : Prop where
  irrefl : ∀ a, ¬ compare a a < 0
  trans : ∀ a b c, compare a b < 0 → compare b c < 0 → compare a c < 0
  total : ∀ a b, id a ≠ id b → compare a b < 0 ∨ compare b a < 0
  swap : ∀ a b, compare b a = -compare a b

/-- The first number decides unless it is zero. -/
def orElse (x y : ℚ) : ℚ := if x = 0 then y else x

def flagLast (flag : α → Bool) (compare : α → α → ℚ) (a b : α) : ℚ :=
  if flag a ≠ flag b then if flag a then 1 else -1 else compare a b

def valueFirst (value : α → ℚ) (compare : α → α → ℚ) (a b : α) : ℚ :=
  orElse (value a - value b) (compare a b)

def sortWith (compare : α → α → ℚ) (xs : List α) : List α :=
  xs.insertionSort fun a b => compare a b ≤ 0

namespace Compares

variable {key : α → κ} {compare : α → α → ℚ} (h : Compares key compare)

include h

theorem nonpos_iff (a b : α) : compare a b ≤ 0 ↔ key a ≤ key b := by
  rw [← not_lt, ← not_lt, ← h.neg_iff, h.swap a b, neg_lt_zero]

theorem isStrictTotal {ι : Type} {id : α → ι} (hid : ∀ a b, id a ≠ id b → key a ≠ key b) :
    IsStrictTotal id compare where
  irrefl a := by
    rw [h.neg_iff]
    exact lt_irrefl _
  trans a b c hab hbc := by
    rw [h.neg_iff] at hab hbc ⊢
    exact hab.trans hbc
  total a b hne := by
    rw [h.neg_iff, h.neg_iff]
    exact lt_or_gt_of_ne (hid a b hne)
  swap := h.swap

theorem sortWith_pairwise (xs : List α) : (sortWith compare xs).Pairwise (key · ≤ key ·) := by
  have htotal : Std.Total fun a b => compare a b ≤ 0 := by
    constructor
    intro a b
    rw [h.nonpos_iff, h.nonpos_iff]
    exact le_total _ _
  have htrans : IsTrans α fun a b => compare a b ≤ 0 := by
    constructor
    intro a b c hab hbc
    rw [h.nonpos_iff] at hab hbc ⊢
    exact hab.trans hbc
  exact (List.pairwise_insertionSort _ xs).imp fun hle => (h.nonpos_iff _ _).mp hle

theorem sortWith_strict {xs : List α} (hk : (xs.map key).Nodup) :
    (sortWith compare xs).Pairwise (compare · · < 0) := by
  have hkeys : ((sortWith compare xs).map key).Nodup :=
    ((List.perm_insertionSort _ xs).map key).nodup_iff.mpr hk
  have hle := h.sortWith_pairwise xs
  rw [List.Nodup, List.pairwise_map] at hkeys
  exact hle.imp₂ (fun a b hab hne => (h.neg_iff a b).mpr (lt_of_le_of_ne hab hne)) hkeys

theorem sortWith_perm {xs ys : List α} (hk : (xs.map key).Nodup) (hp : xs.Perm ys) :
    sortWith compare xs = sortWith compare ys := by
  have hperm : (sortWith compare xs).Perm (sortWith compare ys) :=
    (List.perm_insertionSort _ xs).trans (hp.trans (List.perm_insertionSort _ ys).symm)
  refine hperm.eq_of_pairwise ?_ (h.sortWith_pairwise xs) (h.sortWith_pairwise ys)
  intro a b ha hb hab hba
  have ha' : a ∈ xs := (List.mem_insertionSort _).mp ha
  have hb' : b ∈ xs := hp.mem_iff.mpr ((List.mem_insertionSort _).mp hb)
  exact List.inj_on_of_nodup_map hk ha' hb' (le_antisymm hab hba)

theorem flagLast (flag : α → Bool) :
    Compares (fun a => toLex (flag a, key a)) (flagLast flag compare) where
  neg_iff a b := by
    have hfalse : ¬ true < false := by decide
    rw [Prod.Lex.lt_iff, Comparators.flagLast]
    cases flag a <;> cases flag b
    · simp [h.neg_iff]
    · simp
    · simp [hfalse, zero_le_one.not_gt]
    · simp [h.neg_iff]
  swap a b := by
    simp only [Comparators.flagLast]
    cases flag a <;> cases flag b
    · simp [h.swap a b]
    · simp
    · simp
    · simp [h.swap a b]

theorem valueFirst (value : α → ℚ) :
    Compares (fun a => toLex (value a, key a)) (valueFirst value compare) where
  neg_iff a b := by
    simp only [Prod.Lex.lt_iff, ofLex_toLex, Comparators.valueFirst, orElse, ← h.neg_iff]
    split_ifs with hz
    · simp [sub_eq_zero.mp hz]
    · simp [sub_ne_zero.mp hz]
  swap a b := by
    simp only [Comparators.valueFirst, orElse, ← neg_sub (value a), h.swap a b, neg_eq_zero]
    split_ifs <;> rfl

end Compares

end

end DnsMonitor.Lib.Comparators

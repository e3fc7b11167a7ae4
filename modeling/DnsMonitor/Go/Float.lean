import Mathlib.Algebra.Group.Nat.Defs
import Mathlib.Algebra.Order.Ring.Rat
import Mathlib.Algebra.Ring.Int.Defs
import Mathlib.Data.Rat.Floor
import Mathlib.Tactic.SplitIfs

namespace DnsMonitor.Go.Float

/-- The value of an operation of the type `int64`, which wraps around, of its exact result. -/
def int64 (n : Int) : Int := n.bmod (2 ^ 64)

theorem int64_of_fits {n : Int} (h : -2 ^ 63 ≤ n) (h' : n < 2 ^ 63) : int64 n = n := by
  rw [int64, Int.bmod_def]
  split_ifs <;> omega

theorem int64_over {n : Int} (h : 2 ^ 63 ≤ n) (h' : n < 2 ^ 63 + 2 ^ 64) : int64 n = n - 2 ^ 64 := by
  rw [int64, Int.bmod_def]
  split_ifs <;> omega

theorem int64_under {n : Int} (h : n < -2 ^ 63) (h' : -2 ^ 63 - 2 ^ 64 ≤ n) : int64 n = n + 2 ^ 64 := by
  rw [int64, Int.bmod_def]
  split_ifs <;> omega

/-- The type `float64` with the operations the program uses. Only two facts about rounding are
relied on: natural numbers are multiplied exactly as long as 53 bits hold the product, and
comparing an integer with one of less than 53 bits is exact. -/
class GoFloat (F : Type) extends Add F, Sub F, Mul F, Div F, LT F, LE F where
  decLT : DecidableLT F
  decLE : DecidableLE F
  /-- The nearest number. -/
  ofRat : ℚ → F
  abs : F → F
  min : F → F → F
  max : F → F → F
  isNaN : F → Bool
  isInf : F → Bool
  /-- The conversion to `int64`, towards zero. -/
  trunc : F → Int
  /-- `int64(math.Ceil(x))`. -/
  ceil : F → Int
  /-- `COALESCE(SUM(column), 0)` of a column of real numbers. -/
  sum : List F → F
  mul_ofRat : ∀ a b : Int, 0 ≤ a → 0 < b → b ≤ 2 ^ 53 → a * b ≤ 2 ^ 53 →
    ofRat a * ofRat b = ofRat (a * b : Int)
  lt_ofRat : ∀ a b : Int, |b| < 2 ^ 53 → (ofRat a < ofRat b ↔ a < b)

section

variable {F : Type} [GoFloat F]

instance instDecidableLT : DecidableLT F := GoFloat.decLT

instance instDecidableLE : DecidableLE F := GoFloat.decLE

def ofInt (n : Int) : F := GoFloat.ofRat n

theorem mul_ofInt {a b : Int} (ha : 0 ≤ a) (hb : 0 < b) (hb53 : b ≤ 2 ^ 53)
    (h : a * b ≤ 2 ^ 53) : (ofInt a : F) * ofInt b = ofInt (a * b) :=
  GoFloat.mul_ofRat a b ha hb hb53 h

theorem ofInt_lt {a b : Int} (h : |b| < 2 ^ 53) : (ofInt a : F) < ofInt b ↔ a < b :=
  GoFloat.lt_ofRat a b h

end

instance : GoFloat ℚ where
  decLT := inferInstance
  decLE := inferInstance
  ofRat q := q
  abs q := |q|
  min := Min.min
  max := Max.max
  isNaN _ := false
  isInf _ := false
  trunc q := if 0 ≤ q then ⌊q⌋ else ⌈q⌉
  ceil q := ⌈q⌉
  sum := List.sum
  mul_ofRat a b _ _ _ _ := by simp
  lt_ofRat a b _ := by simp

/-- How comparisons, rounding and conversions of the type `float64` go together: a number that
is compared is not NaN, one between integers is finite, and rounding keeps the order. -/
class OrderedFloat (F : Type) [GoFloat F] : Prop where
  le_of_lt : ∀ x y : F, x < y → x ≤ y
  not_le_of_lt : ∀ x y : F, x < y → ¬ y ≤ x
  le_trans : ∀ x y z : F, x ≤ y → y ≤ z → x ≤ z
  lt_of_lt_of_le : ∀ x y z : F, x < y → y ≤ z → x < z
  ofInt_le : ∀ a b : Int, |b| ≤ 2 ^ 53 → a ≤ b → (ofInt a : F) ≤ ofInt b
  isNaN_of_lt : ∀ x y : F, x < y → GoFloat.isNaN y = false
  isInf_of_le : ∀ (x : F) (a b : Int), |a| ≤ 2 ^ 53 → |b| ≤ 2 ^ 53 → ofInt a ≤ x → x ≤ ofInt b →
    GoFloat.isInf x = false
  mul_le_mul : ∀ (x y : F) (a : Int), 0 < a → a ≤ 2 ^ 53 → x ≤ y → x * ofInt a ≤ y * ofInt a
  trunc_le : ∀ (x y : F) (a : Int), a ≤ 2 ^ 53 → ofInt 0 ≤ x → x ≤ y → y ≤ ofInt a →
    GoFloat.trunc x ≤ GoFloat.trunc y
  trunc_ofInt : ∀ a : Int, |a| ≤ 2 ^ 53 → GoFloat.trunc (ofInt a : F) = a

instance : OrderedFloat ℚ where
  le_of_lt _ _ := le_of_lt
  not_le_of_lt _ _ := not_le_of_gt
  le_trans _ _ _ := le_trans
  lt_of_lt_of_le _ _ _ := lt_of_lt_of_le
  ofInt_le a b _ h := Int.cast_le.mpr h
  isNaN_of_lt _ _ _ := rfl
  isInf_of_le _ _ _ _ _ _ _ := rfl
  mul_le_mul x y a ha _ h := mul_le_mul_of_nonneg_right h (Int.cast_nonneg ha.le)
  trunc_le x y a _ hx h _ := by
    have hx : (0 : ℚ) ≤ x := (show ((0 : Int) : ℚ) ≤ x from hx).trans' (by simp)
    simp only [GoFloat.trunc, if_pos hx, if_pos (hx.trans h)]
    exact Int.floor_le_floor h
  trunc_ofInt a _ := by simp [GoFloat.trunc, ofInt, GoFloat.ofRat]

/-- Numbers that are not NaN are ordered linearly, and rounding a fraction keeps the order too. -/
class LinearFloat (F : Type) [GoFloat F] : Prop extends OrderedFloat F where
  le_of_not_lt : ∀ x y : F, GoFloat.isNaN x = false → GoFloat.isNaN y = false → ¬ x < y → y ≤ x
  ofRat_le : ∀ a b : ℚ, a ≤ b → (GoFloat.ofRat a : F) ≤ GoFloat.ofRat b
  mul_comm : ∀ x y : F, x * y = y * x

instance : LinearFloat ℚ where
  le_of_not_lt _ _ _ _ := le_of_not_gt
  ofRat_le _ _ h := h
  mul_comm := mul_comm

end DnsMonitor.Go.Float

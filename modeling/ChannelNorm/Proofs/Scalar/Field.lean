/-
  ChannelNorm.Proofs.Scalar.Field
  ───────────────────────────────
  **ANY ORDERED FIELD AS ARITHMETIC.**

  A comparison of two gradients takes differences, absolute values, quotients and
  sums, and asks which of two values is larger.  An ordered field has all of this,
  exactly: nothing is undefined, and the larger of two values is their maximum.
  What it need not have is a square root, so that any function may stand for it.
-/
import Mathlib
import ChannelNorm.Proofs.Scalar.Lawful

namespace ChannelNorm

/-- A function in the place of the square root. -/
class Rooted (K : Type) where
  root : K → K

namespace OrderedField

variable {K : Type} [Field K] [LinearOrder K] [Rooted K]

/-- The operations and the order of the field. -/
scoped instance arith : OrderedArith K where
  sqrt := Rooted.root
  ofCount n := n
  isZero x := decide (x = 0)
  abs x := |x|
  lt x y := decide (x < y)
  le x y := decide (x ≤ y)

scoped instance lawful : LawfulArith K where
  add_assoc := add_assoc
  add_comm := add_comm
  zero_add := zero_add
  sub_add_cancel := sub_add_cancel
  mul_assoc := mul_assoc
  mul_comm := mul_comm
  one_mul := one_mul
  mul_add := mul_add

theorem larger_eq (a b : K) : OrderedArith.larger a b = max a b := by
  show (if (decide (a < b) || !decide (a ≤ a)) = true then b else a) = max a b
  rw [decide_eq_true (le_refl a), Bool.not_true, Bool.or_false]
  by_cases h : a < b
  · rw [if_pos (decide_eq_true h), max_eq_right h.le]
  · rw [if_neg (by simpa using h), max_eq_left (not_lt.1 h)]

theorem decimalPart_eq (k : ℕ) : (OrderedArith.decimalPart k : K) = 1 / (10 ^ k : ℕ) :=
  rfl

/-- A sum in a stated order is the sum. -/
theorem sumInOrder_eq (xs : List K) : sumInOrder xs = xs.sum :=
  sumInOrder_eq_sum xs

end OrderedField

end ChannelNorm

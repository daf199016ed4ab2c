/-
  ChannelNorm.Proofs.Scalar.Real
  ──────────────────────────────
  **THE REAL NUMBERS AS STORAGE AND ACCUMULATOR.**

  Over the reals nothing is rounded: widening and narrowing are the identity,
  and every operation is the one of the field.  Division by zero and the square
  root of a negative number are the totalised ones; facts in which they would
  matter say so in their hypotheses.
-/
import Mathlib
import ChannelNorm.Proofs.Scalar.Lawful

namespace ChannelNorm

noncomputable instance : Arith ℝ where
  sqrt := Real.sqrt
  ofCount n := n
  isZero x := decide (x = 0)

noncomputable instance : OrderedArith ℝ where
  abs x := |x|
  lt x y := decide (x < y)
  le x y := decide (x ≤ y)

noncomputable instance : Element ℝ ℝ where
  dtype := .float64
  widen x := x
  narrow x := x

instance : LawfulArith ℝ where
  add_assoc := add_assoc
  add_comm := add_comm
  zero_add := zero_add
  sub_add_cancel := sub_add_cancel
  mul_assoc := mul_assoc
  mul_comm := mul_comm
  one_mul := one_mul
  mul_add := mul_add

@[simp] theorem widen_real (x : ℝ) : (widen x : ℝ) = x :=
  rfl

@[simp] theorem narrow_real (x : ℝ) : (narrow x : ℝ) = x :=
  rfl

@[simp] theorem ofCount_real (n : Nat) : (ofCount n : ℝ) = n :=
  rfl

@[simp] theorem sqrt_real (x : ℝ) : (sqrt x : ℝ) = Real.sqrt x :=
  rfl

@[simp] theorem isZero_real (x : ℝ) : isZero x = decide (x = 0) :=
  rfl

/-- No real number is undefined. -/
theorem larger_real (a b : ℝ) : OrderedArith.larger a b = max a b := by
  show (if (decide (a < b) || !decide (a ≤ a)) = true then b else a) = max a b
  rw [decide_eq_true (le_refl a), Bool.not_true, Bool.or_false]
  by_cases h : a < b
  · rw [if_pos (decide_eq_true h), max_eq_right h.le]
  · rw [if_neg (by simpa using h), max_eq_left (not_lt.1 h)]

theorem decimalPart_real (k : ℕ) : (OrderedArith.decimalPart k : ℝ) = 1 / 10 ^ k := by
  show (1 : ℝ) / ((10 ^ k : ℕ) : ℝ) = 1 / 10 ^ k
  rw [Nat.cast_pow, Nat.cast_ofNat]

/-- A sum in a stated order is the sum. -/
theorem sumInOrder_real (xs : List ℝ) : sumInOrder xs = xs.sum :=
  sumInOrder_eq_sum xs

end ChannelNorm

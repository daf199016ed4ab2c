/-
  ChannelNorm.Scalar.Arith
  ────────────────────────
  **THE ARITHMETIC THE KERNELS ARE WRITTEN OVER.**

  Every kernel is polymorphic in two number types:

      α   the storage element, what tensors hold
      A   the accumulator, what per-channel sums run in

  Neither carries any law here.  A kernel therefore computes the same
  expression, in the same order, over binary floating point, over the reals
  and over an arbitrary commutative ring; which laws a fact about it needs is
  visible in that fact's hypotheses.
-/
import ChannelNorm.DType

namespace ChannelNorm

/-! ## §1. Operations. -/

/-- The operations a kernel applies to storage elements and accumulators. -/
class Arith (α : Type) extends Add α, Sub α, Mul α, Div α, Zero α, One α where
  /-- Square root. -/
  sqrt : α → α
  /-- A number of elements, as a value. -/
  ofCount : Nat → α
  /-- Comparison with zero; both signed zeros pass and an undefined value
  does not. -/
  isZero : α → Bool

/-- Arithmetic with a sign and a computable order, for eligibility thresholds
and error measures. -/
class OrderedArith (α : Type) extends Arith α, Neg α where
  /-- Absolute value. -/
  abs : α → α
  /-- Strictly less; false when either side is undefined. -/
  lt : α → α → Bool
  /-- Less or equal; false when either side is undefined. -/
  le : α → α → Bool

export Arith (sqrt ofCount isZero)

/-- A storage element `α` whose reductions run in the accumulator `A`. -/
class Element (α : Type) (A : outParam Type) [OrderedArith A] extends Arith α where
  /-- The name of the storage format. -/
  dtype : DType
  /-- Storage to accumulator. -/
  widen : α → A
  /-- Accumulator to storage, rounding where the storage is coarser. -/
  narrow : A → α

export Element (widen narrow)

/-! ## §2. Sums in a stated order. -/

variable {α : Type}

/-- Sum from zero, first element first. -/
def sumInOrder [Add α] [Zero α] (xs : List α) : α :=
  xs.foldl (· + ·) 0

/-- The larger of two values; an undefined one is ignored. -/
def OrderedArith.larger [OrderedArith α] (a b : α) : α :=
  if lt a b || !(le a a) then b else a

/-- One part in `10 ^ k`. -/
def OrderedArith.decimalPart [OrderedArith α] (k : Nat) : α :=
  1 / ofCount (Nat.pow 10 k)

/-- The value of an average over nothing. -/
def Arith.undefined [Arith α] : α :=
  0 / ofCount 0

end ChannelNorm

/-
  ChannelNorm.GradientCheck
  ─────────────────────────
  **NUMERICAL GRADIENTS, AND HOW FAR ANOTHER GRADIENT IS FROM THEM.**

  A loss maps a tensor to a number and may fail.  Its gradient at a point is
  estimated one element at a time, by moving that element a step `h` and
  dividing the change of the loss:

      forward    (f (x + h) - f x) / h
      backward   (f x - f (x - h)) / h
      central    (f (x + h) - f (x - h)) / (2 h)

  Two gradients are compared element by element; an element passes when its
  absolute or its relative error is within tolerance.
-/
import ChannelNorm.Notice
import ChannelNorm.Scalar.Arith
import ChannelNorm.Tensor.Basic

namespace ChannelNorm

open OrderedArith (abs lt le larger decimalPart)

variable {A : Type} [OrderedArith A]

/-! ## §1. Methods and tolerances. -/

/-- Where the loss is evaluated. -/
inductive DifferenceMethod where
  | forward
  | backward
  | central
  deriving DecidableEq, Repr

namespace DifferenceMethod

/-- The truncation error is of this order in the step. -/
def errorOrder : DifferenceMethod → Nat
  | .forward => 1
  | .backward => 1
  | .central => 2

/-- The step used when none is given. -/
def recommendedStep : DifferenceMethod → A
  | .forward => decimalPart 7
  | .backward => decimalPart 7
  | .central => decimalPart 6

end DifferenceMethod

/-- How gradients are estimated and compared. -/
structure CheckerConfig (A : Type) where
  method : DifferenceMethod
  /-- The step; the method's recommendation if absent. -/
  epsilon : Option A
  /-- Relative tolerance. -/
  rtol : A
  /-- Absolute tolerance. -/
  atol : A

namespace CheckerConfig

/-- Central differences with a relative tolerance of `1e-4` and an absolute one
of `1e-6`. -/
def standard : CheckerConfig A where
  method := .central
  epsilon := none
  rtol := decimalPart 4
  atol := decimalPart 6

/-- The step in force. -/
def step (c : CheckerConfig A) : A :=
  c.epsilon.getD c.method.recommendedStep

end CheckerConfig

/-! ## §2. Losses and numerical gradients. -/

/-- A gradient of another shape than what it is paired with. -/
def TensorError.pairShape (operation : String) (expected got : Shape) : TensorError :=
  .shapeMismatch operation expected.text got.text

/-- `Σ output · weights`, the loss whose gradient in `output` is `weights`.
The sum starts at negative zero. -/
def weightedSumLoss (output weights : Tensor A) : Except TensorError A :=
  if output.sameShape weights then
    .ok ((List.zipWith (· * ·) output.toList weights.toList).foldl (· + ·) (-0))
  else .error (.pairShape "weighted_sum_loss" output.shape weights.shape)

/-- `x` with one element moved, in row-major layout. -/
def Tensor.shiftElement (x : Tensor A) (index : Nat) (offset : A) : Tensor A :=
  x.withContents (x.toList.modify index (· + offset)) (by simp)

/-- The slope of the loss along one element, given its value at the centre for
the one-sided methods. -/
def slopeAt {m : Type → Type} [Monad m] (c : CheckerConfig A) (x : Tensor A)
    (loss : Tensor A → m A) (centre : Option A) (index : Nat) : m A :=
  match c.method, centre with
  | .forward, some fx => do
      let ahead ← loss (x.shiftElement index c.step)
      return (ahead - fx) / c.step
  | .backward, some fx => do
      let behind ← loss (x.shiftElement index (-c.step))
      return (fx - behind) / c.step
  | _, _ => do
      let ahead ← loss (x.shiftElement index c.step)
      let behind ← loss (x.shiftElement index (-c.step))
      return (ahead - behind) / (ofCount 2 * c.step)

/-- Gradient of `loss` at `x`, one moved element at a time. -/
def numericalGradient {m : Type → Type} [Monad m] [MonadExceptOf TensorError m]
    (c : CheckerConfig A) (x : Tensor A) (loss : Tensor A → m A) : m (Tensor A) := do
  let centre ← if c.method = .central then pure none else some <$> loss x
  let slopes ← (List.range x.numel).mapM (slopeAt c x loss centre)
  match Tensor.ofList slopes x.dims with
  | .ok gradient => return gradient.toDevice x.device
  | .error e => throw e

/-! ## §3. Comparison. -/

/-- How two gradients compare. -/
structure GradientComparison (A : Type) where
  isValid : Bool
  /-- Largest absolute error. -/
  maxError : A
  meanError : A
  /-- Largest relative error. -/
  relativeError : A
  numElements : Nat
  /-- Elements within either tolerance. -/
  numPassed : Nat
  /-- Flat index of the first element of largest error. -/
  worstIndex : Option Nat

/-- Absolute error of one element. -/
def absoluteError (p : A × A) : A :=
  abs (p.1 - p.2)

/-- Absolute error over the larger of the two values, unless that is tiny. -/
def relativeError (p : A × A) : A :=
  -- next to zero a relative error says nothing
  let scale := larger (abs p.1) (abs p.2)
  if lt (decimalPart 10) scale then absoluteError p / scale else absoluteError p

/-- Whether one element is within either tolerance. -/
def CheckerConfig.passes (c : CheckerConfig A) (p : A × A) : Bool :=
  le (absoluteError p) c.atol || le (relativeError p) c.rtol

/-- The largest error so far and where it was first met. -/
def worstStep (worst : A × Option Nat) (e : A × Nat) : A × Option Nat :=
  if lt worst.1 e.1 || worst.2.isNone then (larger worst.1 e.1, some e.2) else worst

/-- Compare two gradients of one shape element by element. -/
def compareGradients (c : CheckerConfig A) (analytical numerical : Tensor A) :
    Except TensorError (GradientComparison A) :=
  if analytical.sameShape numerical then
    let pairs := analytical.toList.zip numerical.toList
    let errors := pairs.map absoluteError
    let worst := errors.zipIdx.foldl worstStep (0, none)
    let passed := pairs.countP c.passes
    .ok {
      isValid := passed == analytical.numel
      maxError := worst.1
      meanError :=
        if analytical.numel = 0 then 0 else sumInOrder errors / ofCount analytical.numel
      relativeError := (pairs.map relativeError).foldl larger 0
      numElements := analytical.numel
      numPassed := passed
      worstIndex := worst.2 }
  else .error (.pairShape "compare_gradients" analytical.shape numerical.shape)

/-- Compare a gradient with the numerical one at `x`. -/
def checkGradient {m : Type → Type} [Monad m] [MonadExceptOf TensorError m]
    (c : CheckerConfig A) (x analytical : Tensor A) (loss : Tensor A → m A) :
    m (GradientComparison A) := do
  let numerical ← numericalGradient c x loss
  match compareGradients c analytical numerical with
  | .ok r => return r
  | .error e => throw e

/-! ## §4. Reports. -/

namespace GradientComparison

/-- What a finished check reports: only a failure. -/
def notices (r : GradientComparison Float) : List Notice :=
  if r.isValid then [] else [.gradientCheckFailed r.maxError r.worstIndex]

/-- The comparison as a text of several lines. -/
def text (r : GradientComparison Float) : String :=
  String.join
    (["Gradient Check Result:\n",
      "  Status: " ++ (if r.isValid then "PASS" else "FAIL") ++ "\n",
      "  Max Error: " ++ Scientific.ofDouble r.maxError ++ "\n",
      "  Mean Error: " ++ Scientific.ofDouble r.meanError ++ "\n",
      "  Relative Error: " ++ Scientific.ofDouble r.relativeError ++ "\n",
      "  Elements Passed: " ++ toString r.numPassed ++ "/" ++ toString r.numElements ++ "\n"]
      ++ r.worstIndex.toList.map fun i => "  Worst Element: " ++ toString i ++ "\n")

end GradientComparison

end ChannelNorm

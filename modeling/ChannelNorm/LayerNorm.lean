/-
  ChannelNorm.LayerNorm
  ─────────────────────
  **LAYER NORMALIZATION.**

  The trailing dimensions are normalized together, one row for every index of
  the leading ones: the input is folded to `(1, rows, row length)`, normalized
  by a batch-norm call in training mode without parameters, and unfolded.  The
  affine parameters have the shape of a row and are applied elementwise
  afterwards.
-/
import ChannelNorm.Backend.Dispatch
import ChannelNorm.Tensor.Broadcast
import ChannelNorm.Tensor.Reduce

namespace ChannelNorm

variable {α A : Type}

/-- Result of a normalization whose affine part comes last, with what its
backward needs. -/
structure NormalizedForward (α : Type) where
  /-- The result, affine part applied. -/
  output : Tensor α
  /-- The result before the affine part, in the input's shape. -/
  normalized : Tensor α
  /-- Mean and inverse standard deviation of every block. -/
  saved : ChannelStats α
  backend : BackendTag

/-! ## §1. Refusals. -/

namespace TensorError

/-- Normalization over no dimension at all. -/
def noNormalizedShape : TensorError :=
  .invalidArgument "layer_norm"
    ("Expected normalized_shape to be at least 1-dimensional, i.e., containing at least "
      ++ "one element, but got normalized_shape=[]")

/-- A parameter that is not of the shape of a row. -/
def rowParamShape (name : String) (normalizedShape dims : List Nat) : TensorError :=
  .shapeMismatch "layer_norm"
    (name ++ " of shape " ++ (Shape.mk normalizedShape).text)
    (name ++ " of shape " ++ (Shape.mk dims).text)

/-- An input whose trailing dimensions are not those to normalize. -/
def rowSuffix (normalizedShape : List Nat) (input : Shape) : TensorError :=
  .shapeMismatch "layer_norm"
    ("input with shape [*, " ++ (Shape.mk normalizedShape).text ++ "]")
    ("input of size " ++ input.text)

end TensorError

/-! ## §2. The plan. -/

/-- How one input is folded: leading dimensions, and those of a row. -/
structure LayerNormPlan where
  leading : List Nat
  normalizedShape : List Nat
  deriving DecidableEq

namespace LayerNormPlan

/-- A parameter must have the shape of a row. -/
def checkParam (name : String) (normalizedShape : List Nat) :
    Option (Tensor α) → Except TensorError Unit
  | none => .ok ()
  | some p =>
      if p.dims = normalizedShape then .ok ()
      else .error (.rowParamShape name normalizedShape p.dims)

/-- The plan of an input that ends with `normalizedShape`. -/
def ofInput (input : Tensor α) (normalizedShape : List Nat) (weight bias : Option (Tensor α)) :
    Except TensorError LayerNormPlan := do
  if normalizedShape.isEmpty then
    throw .noNormalizedShape
  checkParam "weight" normalizedShape weight
  checkParam "bias" normalizedShape bias
  if !input.shape.endsWith normalizedShape then
    throw (.rowSuffix normalizedShape input.shape)
  return { leading := input.dims.take (input.rank - normalizedShape.length), normalizedShape }

/-- Number of rows. -/
def rows (p : LayerNormPlan) : Nat :=
  volume p.leading

/-- Number of elements in a row. -/
def rowLen (p : LayerNormPlan) : Nat :=
  volume p.normalizedShape

def inputDims (p : LayerNormPlan) : List Nat :=
  p.leading ++ p.normalizedShape

/-- Input shape to `(1, rows, row length)`. -/
def fold (p : LayerNormPlan) (t : Tensor α) : Except TensorError (Tensor α) :=
  t.reshape [1, p.rows, p.rowLen]

/-- `(1, rows, row length)` back to the input shape. -/
def unfold (p : LayerNormPlan) (t : Tensor α) : Except TensorError (Tensor α) :=
  t.reshape p.inputDims

/-- Sum a full-size tensor over the rows. -/
def reduceToParam [Add α] [Zero α] (p : LayerNormPlan) (t : Tensor α) :
    Except TensorError (Tensor α) := do
  let rows ← t.reshape [p.rows, p.rowLen]
  (rows.sumAxis 0).reshape p.normalizedShape

end LayerNormPlan

/-! ## §3. Forward. -/

variable [OrderedArith A] [Element α A]

/-- A batch-norm call in training mode without parameters. -/
def ForwardArgs.plain (input : Tensor α) (eps : A) : ForwardArgs α A where
  input := input
  weight := none
  bias := none
  training := true
  momentum := 0
  eps := eps

/-- The affine part; without parameters there is nothing to apply. -/
def applyAffine (normalized : Tensor α) (weight bias : Option (Tensor α)) :
    Except TensorError (Tensor α) :=
  match weight, bias with
  | none, none => .ok normalized
  | _, _ => normalized.affine weight bias

/-- Layer normalization that keeps the statistics and the result before the
affine part. -/
def layerNormForward (ex : Executor) (registry : Registry α A) (enabled : Bool)
    (input : Tensor α) (normalizedShape : List Nat) (weight bias : Option (Tensor α))
    (eps : A) : Logged α A (NormalizedForward α) := do
  let plan ← LayerNormPlan.ofInput input normalizedShape weight bias
  let folded ← plan.fold input
  let forward ← (batchNormForward ex registry enabled (.plain folded eps) .none).toLogged
  let normalized ← plan.unfold forward.output
  let output ← applyAffine normalized weight bias
  return { output, normalized, saved := forward.saved, backend := forward.backend }

/-- Layer normalization; the normalized output only. -/
def layerNorm (ex : Executor) (registry : Registry α A) (enabled : Bool)
    (input : Tensor α) (normalizedShape : List Nat) (weight bias : Option (Tensor α))
    (eps : A) : Logged α A (Tensor α) := do
  let forward ← layerNormForward ex registry enabled input normalizedShape weight bias eps
  return forward.output

end ChannelNorm

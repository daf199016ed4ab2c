/-
  ChannelNorm.Replay.Block
  ────────────────────────
  **BACKWARD OF NORMALIZATIONS WHOSE AFFINE PART COMES LAST.**

  Layer and group normalization differ in how they fold their input and in how
  a full-size gradient is summed to a parameter; the rest of the backward is one
  rule.  The incoming gradient is multiplied by the stretched weight and taken
  through the folded, weightless backward; the weight gradient sums the incoming
  gradient times the normalized input, and the bias gradient the incoming
  gradient itself.
-/
import ChannelNorm.LayerNorm

namespace ChannelNorm

variable {α A : Type}

/-- How blocks are folded, unfolded and reduced. -/
structure BlockPlan (α : Type) where
  fold : Tensor α → Except TensorError (Tensor α)
  unfold : Tensor α → Except TensorError (Tensor α)
  /-- Sum a full-size gradient to the shape of a parameter. -/
  reduce : Tensor α → Except TensorError (Tensor α)

/-- Saved state of one forward call. -/
structure BlockState (α A : Type) where
  input : Tensor α
  normalized : Tensor α
  /-- The weight, in the shape it is stretched from. -/
  weight : Option (Tensor α)
  hasBias : Bool
  saved : ChannelStats α
  backend : BackendTag
  eps : A

variable [OrderedArith A] [Element α A]

namespace BlockState

/-- The backward call of the folded problem. -/
def backwardArgs (s : BlockState α A) (foldedInput foldedGrad : Tensor α) :
    BackwardArgs α A where
  gradOutput := foldedGrad
  input := foldedInput
  weight := none
  running := .none
  saved := s.saved
  training := true
  eps := s.eps
  mask := ⟨true, false, false⟩

/-- The input gradient. -/
def inputGradient (ex : Executor) (registry : Registry α A) (plan : BlockPlan α)
    (s : BlockState α A) (gradOutput : Tensor α) : Logged α A (Option (Tensor α)) := do
  let gradNormalized ← gradOutput.affine s.weight none
  let foldedInput ← plan.fold s.input
  let foldedGrad ← plan.fold gradNormalized
  let grads ← batchNormBackward ex registry s.backend (s.backwardArgs foldedInput foldedGrad)
  Tensor.mapOptional plan.unfold grads.input

/-- The weight gradient. -/
def weightGradient (plan : BlockPlan α) (s : BlockState α A) (gradOutput : Tensor α) :
    Except TensorError (Tensor α) := do
  let scaled ← gradOutput.affine (some s.normalized) none
  plan.reduce scaled

/-- The gradients the mask asks for; a parameter that was absent has none. -/
def backward (ex : Executor) (registry : Registry α A) (plan : BlockPlan α)
    (s : BlockState α A) (gradOutput : Tensor α) (mask : GradMask) :
    Logged α A (Gradients α) := do
  let input ← if mask.input then s.inputGradient ex registry plan gradOutput else pure none
  let weight ←
    if mask.weight && s.weight.isSome then
      ((s.weightGradient plan gradOutput).map some : Except TensorError (Option (Tensor α)))
    else pure none
  let bias ←
    if mask.bias && s.hasBias then
      ((plan.reduce gradOutput).map some : Except TensorError (Option (Tensor α)))
    else pure none
  return { input, weight, bias }

end BlockState

end ChannelNorm

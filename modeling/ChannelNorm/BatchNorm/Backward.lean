/-
  ChannelNorm.BatchNorm.Backward
  ──────────────────────────────
  **GRADIENTS OF THE NATIVE FORWARD.**

  Two passes over each channel.  The first sums, in the accumulator, the
  incoming gradient and its product with the centred input; the order of the
  visit follows the strides of both tensors.  The second writes the input
  gradient: in training mode less its projections on the constant and on the
  centred input, in evaluation mode scaled only.

      sum  = Σ g          dot = Σ (x - mean) g          k = dot · s² / n

      training     (g - sum / n - (x - mean) k) · s · w
      evaluation   g · (s w)
-/
import ChannelNorm.BatchNorm.Check
import ChannelNorm.BatchNorm.Variance
import ChannelNorm.Schedule

namespace ChannelNorm

variable {α A : Type} [OrderedArith A] [Element α A]

/-! ## §1. One channel. -/

/-- Sums of one channel over the incoming gradient. -/
structure GradSums (A : Type) where
  /-- Sum of the incoming gradient. -/
  sum : A
  /-- Sum of its products with the centred input. -/
  dot : A

/-- The sums over pairs of an input and an incoming gradient. -/
def GradSums.ofPairs (mean : α) (pairs : List (α × α)) : GradSums A where
  sum := sumInOrder (pairs.map fun p => widen p.2)
  dot := sumInOrder (pairs.map fun p => widen ((p.1 - mean) * p.2))

/-- The input gradient of one element in training mode, over `n` elements. -/
def trainingGrad (n : A) (sums : GradSums A) (mean invstd weight x g : α) : α :=
  let k : α := narrow (sums.dot * widen invstd * widen invstd / n)
  let gradMean : α := narrow (sums.sum / n)
  (g - gradMean - (x - mean) * k) * invstd * weight

/-- The input gradient of one element in evaluation mode. -/
def evaluationGrad (invstd weight g : α) : α :=
  g * (invstd * weight)

/-! ## §2. All channels. -/

namespace Schedule

/-- The sums of every channel. -/
def gradSums (input : Tensor α) (s : Schedule input.channels) (gradOutput : Tensor α)
    (mean : Vector α input.channels) : Vector (GradSums A) input.channels :=
  -- every channel has the same axes, so one order serves them all
  let order := jointOrder input.planeAxes gradOutput.planeAxes
  s.mapChannels fun c =>
    .ofPairs (mean.get c) ((input.planeIn order c).zip (gradOutput.planeIn order c))

/-- The input gradient, one task per channel. -/
def inputGrad (args : BackwardArgs α A) (s : Schedule args.input.channels)
    (mean invstd weight : Vector α args.input.channels)
    (sums : Vector (GradSums A) args.input.channels) : Tensor α :=
  let n : A := ofCount args.input.elementsPerChannel
  s.forEachChannel args.input.zerosLike fun c _ =>
    let gs := args.gradOutput.plane c
    if args.training then
      List.zipWith (trainingGrad n (sums.get c) (mean.get c) (invstd.get c) (weight.get c))
        (args.input.plane c) gs
    else gs.map (evaluationGrad (invstd.get c) (weight.get c))

/-- The gradients of checked arguments. -/
def backwardKernel (args : BackwardArgs α A) (s : Schedule args.input.channels)
    (params : BackwardParams α args.input.channels) : Gradients α :=
  let invstd :=
    if args.training then params.spread else params.spread.map (runningInverseStd · args.eps)
  let weight := params.weight.getD (.replicate args.input.channels 1)
  let sums : Vector (GradSums A) args.input.channels :=
    s.gradSums args.input args.gradOutput params.mean
  { input :=
      if args.mask.input then some (s.inputGrad args params.mean invstd weight sums) else none
    weight :=
      if args.mask.weight then
        some (args.input.perChannel
          (Vector.zipWith (fun s i => narrow (s.dot * widen i)) sums invstd))
      else none
    bias :=
      if args.mask.bias then some (args.input.perChannel (sums.map fun s => narrow s.sum))
      else none }

/-- Gradients of native batch normalization.  Training mode reads the saved
statistics, evaluation mode the running ones; an absent weight is all ones. -/
def nativeBatchNormBackward (args : BackwardArgs α A) (s : Schedule args.input.channels) :
    Except TensorError (Gradients α) :=
  (checkBackward "native_batch_norm_backward" args).map (s.backwardKernel args)

end Schedule

/-- The gradients as an executor schedules their sums. -/
def nativeBatchNormBackward (ex : Executor) (args : BackwardArgs α A) :
    Except TensorError (Gradients α) :=
  (ex.schedule args.input.channels args.input.numel).nativeBatchNormBackward args

end ChannelNorm

/-
  ChannelNorm.Replay.Instance
  ───────────────────────────
  **RECORDED INSTANCE NORMALIZATION.**

  The context keeps the folded problem: folded input, tiled parameters and
  tiled running statistics as the forward call left them.  Its backward folds
  the incoming gradient, replays the folded backward, unfolds the input gradient
  and sums the parameter gradients over the samples.
-/
import ChannelNorm.InstanceNorm

namespace ChannelNorm

variable {α A : Type}

/-- Saved state of one instance-norm forward call. -/
structure InstanceNormContext (α A : Type) where
  plan : InstanceNormPlan
  foldedInput : Tensor α
  weightTiled : Option (Tensor α)
  runningTiled : ChannelStats α
  saved : ChannelStats α
  backend : BackendTag
  training : Bool
  eps : A

variable [OrderedArith A] [Element α A]

namespace InstanceNormContext

/-- What is kept of a finished forward call. -/
def capture (plan : InstanceNormPlan) (args : ForwardArgs α A) (running : ChannelStats α)
    (f : Forward α) : Except TensorError (Tensor α × InstanceNormContext α A) := do
  let foldedInput ← plan.fold args.input
  let weightTiled ← plan.repeatParam args.weight
  let mean ← plan.repeatParam running.mean
  let var ← plan.repeatParam running.var
  return (f.output,
    { plan
      foldedInput
      weightTiled
      runningTiled := { mean, var }
      saved := f.saved
      backend := f.backend
      training := args.training
      eps := args.eps })

/-- Run instance norm and keep everything its backward needs. -/
def forward (ex : Executor) (registry : Registry α A) (enabled : Bool)
    (args : ForwardArgs α A) (running : ChannelStats α) :
    Run α A (Tensor α × InstanceNormContext α A) :=
  match InstanceNormPlan.ofInput args.input with
  | .error e => .refused e running
  | .ok plan =>
      let run := instanceNormForward ex registry enabled args running
      { result := run.result.bind (capture plan args run.running)
        events := run.events
        running := run.running }

/-- The backward call of the folded problem. -/
def backwardArgs (ctx : InstanceNormContext α A) (foldedGrad : Tensor α) (mask : GradMask) :
    BackwardArgs α A where
  gradOutput := foldedGrad
  input := ctx.foldedInput
  weight := ctx.weightTiled
  running := ctx.runningTiled
  saved := ctx.saved
  training := ctx.training
  eps := ctx.eps
  mask := mask

/-- Gradients of the folded problem in the caller's shapes. -/
def unfoldGradients (plan : InstanceNormPlan) (g : Gradients α) :
    Except TensorError (Gradients α) := do
  let input ← Tensor.mapOptional plan.unfold g.input
  let weight ← Tensor.mapOptional plan.sumParam g.weight
  let bias ← Tensor.mapOptional plan.sumParam g.bias
  return { input, weight, bias }

/-- Replay the backward of the implementation that ran the forward. -/
def backward (ex : Executor) (registry : Registry α A) (ctx : InstanceNormContext α A)
    (gradOutput : Tensor α) (mask : GradMask) : Logged α A (Gradients α) := do
  let foldedGrad ← ctx.plan.fold gradOutput
  let grads ← batchNormBackward ex registry ctx.backend (ctx.backwardArgs foldedGrad mask)
  unfoldGradients ctx.plan grads

end InstanceNormContext

end ChannelNorm

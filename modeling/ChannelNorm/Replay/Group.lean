/-
  ChannelNorm.Replay.Group
  ────────────────────────
  **RECORDED GROUP NORMALIZATION.**

  Parameter gradients hold one value per channel, and a parameter that was
  absent has none.
-/
import ChannelNorm.GroupNorm
import ChannelNorm.Replay.Block

namespace ChannelNorm

variable {α A : Type}

/-- Saved state of one group-norm forward call. -/
structure GroupNormContext (α A : Type) where
  plan : GroupNormPlan
  state : BlockState α A

/-- Groups of channels as blocks. -/
def GroupNormPlan.toBlocks [Add α] [Zero α] (p : GroupNormPlan) : BlockPlan α where
  fold := p.fold
  unfold := p.unfold
  reduce := p.reduceToChannels

variable [OrderedArith A] [Element α A]

namespace GroupNormContext

def backend (ctx : GroupNormContext α A) : BackendTag :=
  ctx.state.backend

/-- Run group norm and keep everything its backward needs. -/
def forward (ex : Executor) (registry : Registry α A) (enabled : Bool)
    (input : Tensor α) (numGroups : Nat) (weight bias : Option (Tensor α)) (eps : A) :
    Logged α A (Tensor α × GroupNormContext α A) := do
  let plan ← GroupNormPlan.ofInput input numGroups weight bias
  let f ← groupNormForward ex registry enabled input numGroups weight bias eps
  let stretched ← plan.broadcastParam weight
  return (f.output,
    { plan
      state :=
        { input
          normalized := f.normalized
          weight := stretched
          hasBias := bias.isSome
          saved := f.saved
          backend := f.backend
          eps } })

/-- Replay the backward of the implementation that ran the forward. -/
def backward (ex : Executor) (registry : Registry α A) (ctx : GroupNormContext α A)
    (gradOutput : Tensor α) (mask : GradMask) : Logged α A (Gradients α) :=
  ctx.state.backward ex registry ctx.plan.toBlocks gradOutput mask

end GroupNormContext

end ChannelNorm

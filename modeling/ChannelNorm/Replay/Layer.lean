/-
  ChannelNorm.Replay.Layer
  ────────────────────────
  **RECORDED LAYER NORMALIZATION.**

  Parameter gradients have the shape of a row, and a parameter that was absent
  has none.
-/
import ChannelNorm.Replay.Block

namespace ChannelNorm

variable {α A : Type}

/-- Saved state of one layer-norm forward call. -/
structure LayerNormContext (α A : Type) where
  plan : LayerNormPlan
  state : BlockState α A

/-- Rows as blocks. -/
def LayerNormPlan.toBlocks [Add α] [Zero α] (p : LayerNormPlan) : BlockPlan α where
  fold := p.fold
  unfold := p.unfold
  reduce := p.reduceToParam

variable [OrderedArith A] [Element α A]

namespace LayerNormContext

def backend (ctx : LayerNormContext α A) : BackendTag :=
  ctx.state.backend

/-- Run layer norm and keep everything its backward needs. -/
def forward (ex : Executor) (registry : Registry α A) (enabled : Bool)
    (input : Tensor α) (normalizedShape : List Nat) (weight bias : Option (Tensor α))
    (eps : A) : Logged α A (Tensor α × LayerNormContext α A) := do
  let plan ← LayerNormPlan.ofInput input normalizedShape weight bias
  let f ← layerNormForward ex registry enabled input normalizedShape weight bias eps
  return (f.output,
    { plan
      state :=
        { input
          normalized := f.normalized
          weight
          hasBias := bias.isSome
          saved := f.saved
          backend := f.backend
          eps } })

/-- Replay the backward of the implementation that ran the forward. -/
def backward (ex : Executor) (registry : Registry α A) (ctx : LayerNormContext α A)
    (gradOutput : Tensor α) (mask : GradMask) : Logged α A (Gradients α) :=
  ctx.state.backward ex registry ctx.plan.toBlocks gradOutput mask

end LayerNormContext

end ChannelNorm

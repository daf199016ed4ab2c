/-
  ChannelNorm.Replay.Batch
  ────────────────────────
  **RECORDED BATCH NORMALIZATION.**

  A context keeps what a forward call used and which implementation ran, so
  that the matching backward can be replayed later.  The running statistics are
  those left by the forward call.
-/
import ChannelNorm.Backend.Dispatch

namespace ChannelNorm

variable {α A : Type}

/-- Saved state of one batch-norm forward call. -/
structure BatchNormContext (α A : Type) where
  input : Tensor α
  weight : Option (Tensor α)
  running : ChannelStats α
  saved : ChannelStats α
  backend : BackendTag
  training : Bool
  eps : A

variable [OrderedArith A] [Element α A]

namespace BatchNormContext

/-- Run batch norm and keep everything its backward needs. -/
def forward (ex : Executor) (registry : Registry α A) (enabled : Bool)
    (args : ForwardArgs α A) (running : ChannelStats α) :
    Run α A (Tensor α × BatchNormContext α A) :=
  let run := batchNormForward ex registry enabled args running
  run.map fun f =>
    (f.output,
      { input := args.input
        weight := args.weight
        running := run.running
        saved := f.saved
        backend := f.backend
        training := args.training
        eps := args.eps })

/-- The backward call that answers this context's forward. -/
def backwardArgs (ctx : BatchNormContext α A) (gradOutput : Tensor α) (mask : GradMask) :
    BackwardArgs α A where
  gradOutput := gradOutput
  input := ctx.input
  weight := ctx.weight
  running := ctx.running
  saved := ctx.saved
  training := ctx.training
  eps := ctx.eps
  mask := mask

/-- Replay the backward of the implementation that ran the forward. -/
def backward (ex : Executor) (registry : Registry α A) (ctx : BatchNormContext α A)
    (gradOutput : Tensor α) (mask : GradMask) : Logged α A (Gradients α) :=
  let replay := batchNormBackward ex registry ctx.backend (ctx.backwardArgs gradOutput mask)
  { replay with events := .notice (.contextReplayed ctx.backend) :: replay.events }

end BatchNormContext

end ChannelNorm

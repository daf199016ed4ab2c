/-
  ChannelNorm.Backend.Dispatch
  ────────────────────────────
  **BACKEND SELECTION, AND REPLAY OF THE MATCHING BACKWARD.**

  A forward call runs on the first eligible implementation in the order
  `cudnn`, `miopen`, native, and reports which.  A backward call takes that
  report back and runs the implementation it names; it never picks another one.
  Arguments are checked before anything is selected.
-/
import ChannelNorm.Backend.Accelerator
import ChannelNorm.BatchNorm.Backward
import ChannelNorm.BatchNorm.Native
import ChannelNorm.Tensor.Reshape

namespace ChannelNorm

variable {α A : Type} [OrderedArith A] [Element α A]

/-! ## §1. Refusals. -/

namespace TensorError

/-- A forward whose accelerator failed. -/
def forwardFailed (slot : AcceleratorSlot) (cause : TensorError) : TensorError :=
  .backendFailure "batch_norm" slot.name cause.message

/-- A backward whose accelerator failed. -/
def replayFailed (slot : AcceleratorSlot) (cause : TensorError) : TensorError :=
  .backendFailure "batch_norm_impl_index_backward" slot.name cause.message

/-- A backward whose accelerator is gone. -/
def replayUnavailable (slot : AcceleratorSlot) : TensorError :=
  .backendUnavailable "batch_norm_impl_index_backward" slot.name

/-- An accelerated backward without the weight it needs. -/
def replayNeedsWeight (slot : AcceleratorSlot) : TensorError :=
  .invalidArgument "batch_norm_impl_index_backward"
    ("the " ++ slot.name ++ " backward requires a weight")

end TensorError

/-! ## §2. Eligibility. -/

/-- Accelerators take both running statistics, or none in training mode. -/
def runningCompatible (hasMean hasVar training : Bool) : Bool :=
  (hasMean && hasVar) || (!hasMean && !hasVar && training)

/-- What every accelerator asks of a call: an input on an accelerator device,
both affine parameters, and compatible running statistics. -/
def acceleratable (args : ForwardArgs α A) (running : ChannelStats α) : Bool :=
  args.input.device.isGpu
    && (args.weight.isSome && args.bias.isSome)
    && runningCompatible running.mean.isSome running.var.isSome args.training

/-- Whether the accelerator in the `cudnn` slot may run a call. -/
def cudnnEligible (config : NormConfig) (enabled : Bool) (args : ForwardArgs α A)
    (running : ChannelStats α) (a : Accelerator α A) : Bool :=
  acceleratable args running
    && decide (args.input.dims.headD 0 ≤ Accelerator.cudnnMaxBatchSize)
    && enabled
    && config.allowAccelerators
    && decide (Accelerator.cudnnMinVersion ≤ a.version)
    && OrderedArith.le a.minEpsilon args.eps

/-- Whether the accelerator in the `miopen` slot may run a call. -/
def miopenEligible (args : ForwardArgs α A) (running : ChannelStats α) : Bool :=
  acceleratable args running
    && decide (args.input.rank ≤ Accelerator.miopenDimMax)
    && (Element.dtype α != .float64)

/-- The accelerator a call runs on, with its slot, if any is eligible. -/
def selectAccelerator (config : NormConfig) (registry : Registry α A) (enabled : Bool)
    (args : ForwardArgs α A) (running : ChannelStats α) :
    Option (AcceleratorSlot × Accelerator α A) :=
  let cudnn := registry.cudnn.filter (cudnnEligible config enabled args running)
  let miopen := registry.miopen.filter fun _ => miopenEligible args running
  (cudnn.map (AcceleratorSlot.cudnn, ·)).or (miopen.map (AcceleratorSlot.miopen, ·))

/-! ## §3. Forward. -/

/-- Run a call on an accelerator.  Input and affine parameters are handed over
contiguous; the running statistics are the caller's. -/
def acceleratedForward (slot : AcceleratorSlot) (a : Accelerator α A)
    (args : ForwardArgs α A) (weight bias : Tensor α) (running : ChannelStats α) :
    Run α A (Forward α) :=
  let handed : AcceleratedForward α A :=
    { input := args.input.contiguous
      weight := weight.contiguous
      bias := bias.contiguous
      training := args.training
      momentum := args.momentum
      eps := args.eps }
  let run := a.forward handed running
  { result := (run.result.mapError (.forwardFailed slot)).map fun out =>
      { output := out.output
        saved := { mean := some out.saveMean, var := some out.saveVar }
        backend := slot.tag }
    events :=
      .notice (.acceleratorChosen slot a.name (Element.dtype α) args.input.shape)
        :: .invoked (.acceleratorForward slot a.handle handed) :: run.events
    running := run.running }

/-- Run a call on the native implementation. -/
def nativeForward (ex : Executor) (args : ForwardArgs α A) (running : ChannelStats α) :
    Run α A (Forward α) :=
  (nativeBatchNorm ex args running).after
    [.notice (.nativeChosen (Element.dtype α) args.input.shape args.training),
      .invoked (.nativeForward args)]

/-- Batch normalization with backend selection; the result names the
implementation that ran. -/
def batchNormForward (ex : Executor) (registry : Registry α A) (enabled : Bool)
    (args : ForwardArgs α A) (running : ChannelStats α) : Run α A (Forward α) :=
  match checkForward "batch_norm" args running with
  | .error e => .refused e running
  | .ok _ =>
      -- an eligible accelerator implies that both parameters are there
      match selectAccelerator ex.config registry enabled args running, args.weight, args.bias with
      | some (slot, a), some weight, some bias =>
          acceleratedForward slot a args weight bias running
      | _, _, _ => nativeForward ex args running

/-- Batch normalization over axis 1; the normalized output only. -/
def batchNorm (ex : Executor) (registry : Registry α A) (enabled : Bool)
    (args : ForwardArgs α A) (running : ChannelStats α) : Run α A (Tensor α) :=
  (batchNormForward ex registry enabled args running).map (·.output)

/-! ## §4. Backward. -/

/-- Replay the backward of an accelerator.  It computes all three gradients,
and the mask is applied to its result. -/
def acceleratedBackward (slot : AcceleratorSlot) (a : Accelerator α A)
    (args : BackwardArgs α A) (weight : Tensor α) : Logged α A (Gradients α) :=
  let handed : AcceleratedBackward α A :=
    { input := args.input.contiguous
      gradOutput := args.gradOutput.contiguous
      weight := weight
      running := args.running
      saved := args.saved
      eps := args.eps }
  let run := a.backward handed
  { result := (run.result.mapError (.replayFailed slot)).map fun g =>
      Gradients.masked ⟨some g.input, some g.weight, some g.bias⟩ args.mask
    events :=
      .notice (.acceleratorReplayed slot a.name)
        :: .invoked (.acceleratorBackward slot a.handle handed) :: run.events }

/-- Replay the backward of whichever implementation `tag` names. -/
def batchNormBackward (ex : Executor) (registry : Registry α A) (tag : BackendTag)
    (args : BackwardArgs α A) : Logged α A (Gradients α) :=
  match tag.slot? with
  | none => ⟨nativeBatchNormBackward ex args, [.invoked (.nativeBackward args)]⟩
  | some slot =>
      match registry.get slot, args.weight with
      | none, _ => ⟨.error (.replayUnavailable slot), []⟩
      | some _, none => ⟨.error (.replayNeedsWeight slot), []⟩
      | some a, some weight => acceleratedBackward slot a args weight

end ChannelNorm

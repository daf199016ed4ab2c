/-
  ChannelNorm.InstanceNorm
  ────────────────────────
  **INSTANCE NORMALIZATION.**

  Every `(sample, channel)` pair is normalized on its own by folding the batch
  axis into the channel axis: `(N, C, …)` becomes `(1, N * C, …)`, and
  parameters of one value per channel are tiled `N` times.  Tiling and summing
  are adjoint, and averaging undoes tiling up to rounding.
-/
import ChannelNorm.Backend.Dispatch
import ChannelNorm.Tensor.Reduce

namespace ChannelNorm

variable {α A : Type}

/-! ## §1. The plan. -/

/-- How one input is folded: its dimensions `(batch, channels, …spatial)`. -/
structure InstanceNormPlan where
  batch : Nat
  channels : Nat
  spatial : List Nat
  addressable : Addressable (batch :: channels :: spatial)
  deriving DecidableEq

namespace InstanceNormPlan

/-- The plan of an input of at least two axes. -/
def ofInput (input : Tensor α) : Except TensorError InstanceNormPlan :=
  match h : input.dims with
  | batch :: channels :: spatial =>
      .ok { batch, channels, spatial, addressable := h ▸ input.addressable }
  | _ => .error (.noChannelAxis "instance_norm" input.dims)

def inputDims (p : InstanceNormPlan) : List Nat :=
  p.batch :: p.channels :: p.spatial

def foldedDims (p : InstanceNormPlan) : List Nat :=
  1 :: p.batch * p.channels :: p.spatial

/-- `(N, C, …)` to `(1, N * C, …)`. -/
def fold (p : InstanceNormPlan) (t : Tensor α) : Except TensorError (Tensor α) :=
  t.reshape p.foldedDims

/-- `(1, N * C, …)` back to `(N, C, …)`. -/
def unfold (p : InstanceNormPlan) (t : Tensor α) : Except TensorError (Tensor α) :=
  t.reshape p.inputDims

/-- A parameter of any shape, flattened and laid end to end once per sample. -/
def tileParam (p : InstanceNormPlan) (param : Tensor α) : Except TensorError (Tensor α) := do
  let flat ← param.reshape [param.numel]
  flat.tile p.batch

/-- Tile a parameter that may be missing. -/
def repeatParam (p : InstanceNormPlan) (param : Option (Tensor α)) :
    Except TensorError (Option (Tensor α)) :=
  Tensor.mapOptional p.tileParam param

/-- Average a tiled statistic to one value per channel; an empty batch has
nothing to average and gives undefined values. -/
def averageParam [Arith α] (p : InstanceNormPlan) (tiled : Tensor α) :
    Except TensorError (Tensor α) :=
  if p.batch = 0 then
    .ok ((Tensor.full [p.channels]
      (addressable_singleton_of_mem (by simp) p.addressable) Arith.undefined).toDevice
        tiled.device)
  else (tiled.reshape [p.batch, p.channels]).map Tensor.averageAxis0

/-- Sum a tiled gradient to one value per channel. -/
def sumParam [Add α] [Zero α] (p : InstanceNormPlan) (tiled : Tensor α) :
    Except TensorError (Tensor α) :=
  (tiled.reshape [p.batch, p.channels]).map (·.sumAxis 0)

end InstanceNormPlan

/-! ## §2. Forward. -/

/-- An evaluation without statistics to evaluate with. -/
def TensorError.instanceStatistics : TensorError :=
  .missingState "instance_norm"
    "Expected running_mean and running_var to be defined when use_input_stats is false"

variable [OrderedArith A] [Element α A]

namespace InstanceNormPlan

/-- The folded call: input folded, parameters and running statistics tiled. -/
def foldCall (p : InstanceNormPlan) (args : ForwardArgs α A) (running : ChannelStats α) :
    Except TensorError (ForwardArgs α A × ChannelStats α) := do
  let weight ← p.repeatParam args.weight
  let bias ← p.repeatParam args.bias
  let mean ← p.repeatParam running.mean
  let var ← p.repeatParam running.var
  let input ← p.fold args.input
  return ({ args with input, weight, bias }, { mean, var })

/-- Replace a caller's statistic by the average of the tiled one. -/
def writeBack (p : InstanceNormPlan) (caller tiled : Option (Tensor α)) :
    Except TensorError (Option (Tensor α)) :=
  match caller, tiled with
  | some caller, some tiled => do
      let averaged ← p.averageParam tiled
      let shaped ← averaged.reshape caller.dims
      return some (← caller.copyFrom shaped)
  | caller, _ => .ok caller

/-- Finish a folded call: write the running statistics back, the mean before
the variance, and unfold the output.  What was written stays written when a
later step fails. -/
def finish (p : InstanceNormPlan) (running : ChannelStats α) (folded : Run α A (Forward α)) :
    Run α A (Forward α) :=
  match folded.result with
  | .error e => { result := .error e, events := folded.events, running }
  | .ok forward =>
      -- the tiled statistics hold what the folded call left in them
      match p.writeBack running.mean folded.running.mean with
      | .error e => { result := .error e, events := folded.events, running }
      | .ok mean =>
          match p.writeBack running.var folded.running.var with
          | .error e =>
              { result := .error e, events := folded.events, running := { running with mean } }
          | .ok var =>
              { result := (p.unfold forward.output).map fun output => { forward with output }
                events := folded.events
                running := { mean, var } }

end InstanceNormPlan

/-- Instance normalization that keeps the folded statistics and the backend.
`training` asks for the statistics of the input itself. -/
def instanceNormForward (ex : Executor) (registry : Registry α A) (enabled : Bool)
    (args : ForwardArgs α A) (running : ChannelStats α) : Run α A (Forward α) :=
  if !args.training && (running.mean.isNone || running.var.isNone) then
    .refused .instanceStatistics running
  else
    match InstanceNormPlan.ofInput args.input with
    | .error e => .refused e running
    | .ok plan =>
        match plan.foldCall args running with
        | .error e => .refused e running
        | .ok (foldedArgs, tiled) =>
            plan.finish running (batchNormForward ex registry enabled foldedArgs tiled)

/-- Instance normalization; the normalized output only. -/
def instanceNorm (ex : Executor) (registry : Registry α A) (enabled : Bool)
    (args : ForwardArgs α A) (running : ChannelStats α) : Run α A (Tensor α) :=
  (instanceNormForward ex registry enabled args running).map (·.output)

end ChannelNorm

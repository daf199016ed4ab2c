/-
  ChannelNorm.GroupNorm
  ─────────────────────
  **GROUP NORMALIZATION.**

  Channels are split into consecutive groups of equal size, and every
  `(sample, group)` block is normalized on its own: the input is folded to
  `(1, N * G, rest)`, where the last dimension is left open, normalized by a
  batch-norm call in training mode without parameters, and unfolded.  The
  affine parameters hold one value per channel and are stretched over
  `[1, C, 1, …]` afterwards.
-/
import ChannelNorm.LayerNorm

namespace ChannelNorm

variable {α A : Type}

/-! ## §1. Refusals. -/

namespace TensorError

/-- Channels that do not split into that many groups. -/
def groupCount (input : Shape) (numGroups : Nat) : TensorError :=
  .invalidArgument "group_norm"
    ("Expected number of channels in input to be divisible by num_groups, but got input of shape "
      ++ input.text ++ " and num_groups=" ++ toString numGroups)

/-- A parameter that is not a vector of one value per channel. -/
def channelVector (name : String) (channels : Nat) (shape : Shape) : TensorError :=
  .shapeMismatch "group_norm"
    (name ++ " vector of size " ++ toString channels)
    (name ++ " of shape " ++ shape.text)

end TensorError

/-! ## §2. The plan. -/

/-- How one input is folded: its dimensions `(batch, channels, …spatial)` and
the number of groups. -/
structure GroupNormPlan where
  batch : Nat
  channels : Nat
  spatial : List Nat
  numGroups : Nat
  deriving DecidableEq

/-- A count read as a signed 64-bit word; from `2 ^ 63` on it is negative. -/
def signedWord (n : Nat) : Int :=
  Int.bmod n UInt64.size

namespace GroupNormPlan

/-- A parameter must be a vector of one value per channel. -/
def checkParam (name : String) (channels : Nat) : Option (Tensor α) → Except TensorError Unit
  | none => .ok ()
  | some p =>
      if p.rank = 1 ∧ p.numel = channels then .ok ()
      else .error (.channelVector name channels p.shape)

/-- The plan of an input whose channels split into `numGroups` groups. -/
def ofInput (input : Tensor α) (numGroups : Nat) (weight bias : Option (Tensor α)) :
    Except TensorError GroupNormPlan :=
  match input.dims with
  | batch :: channels :: spatial => do
      if numGroups = 0 ∨ channels % numGroups ≠ 0 then
        throw (.groupCount input.shape numGroups)
      checkParam "weight" channels weight
      checkParam "bias" channels bias
      return { batch, channels, spatial, numGroups }
  | _ => .error (.noChannelAxis "group_norm" input.dims)

def inputDims (p : GroupNormPlan) : List Nat :=
  p.batch :: p.channels :: p.spatial

/-- `[1, C, 1, …]`, the shape affine parameters are stretched from. -/
def affineShape (p : GroupNormPlan) : List Nat :=
  1 :: p.channels :: p.spatial.map fun _ => 1

/-- Input shape to `(1, N * G, rest)`. -/
def fold (p : GroupNormPlan) (t : Tensor α) : Except TensorError (Tensor α) :=
  t.reshapeInfer [1, signedWord (p.batch * p.numGroups), -1]

/-- The folded shape back to the input shape. -/
def unfold (p : GroupNormPlan) (t : Tensor α) : Except TensorError (Tensor α) :=
  t.reshape p.inputDims

/-- Sum a full-size tensor over every axis but the channel axis: first within
each plane, then over the samples. -/
def reduceToChannels [Add α] [Zero α] (p : GroupNormPlan) (t : Tensor α) :
    Except TensorError (Tensor α) := do
  let grouped ← t.reshapeInfer [signedWord p.batch, signedWord p.channels, -1]
  return (grouped.sumAxis 2).sumAxis 0

/-- A parameter, if there is one, in the shape it is stretched from. -/
def broadcastParam (p : GroupNormPlan) (param : Option (Tensor α)) :
    Except TensorError (Option (Tensor α)) :=
  Tensor.mapOptional (·.reshape p.affineShape) param

end GroupNormPlan

/-! ## §3. Forward. -/

variable [OrderedArith A] [Element α A]

/-- Group normalization that keeps the statistics and the result before the
affine part. -/
def groupNormForward (ex : Executor) (registry : Registry α A) (enabled : Bool)
    (input : Tensor α) (numGroups : Nat) (weight bias : Option (Tensor α)) (eps : A) :
    Logged α A (NormalizedForward α) := do
  let plan ← GroupNormPlan.ofInput input numGroups weight bias
  let folded ← plan.fold input
  let forward ← (batchNormForward ex registry enabled (.plain folded eps) .none).toLogged
  let normalized ← plan.unfold forward.output
  let weight ← plan.broadcastParam weight
  let bias ← plan.broadcastParam bias
  let output ← applyAffine normalized weight bias
  return { output, normalized, saved := forward.saved, backend := forward.backend }

/-- Group normalization; the normalized output only. -/
def groupNorm (ex : Executor) (registry : Registry α A) (enabled : Bool)
    (input : Tensor α) (numGroups : Nat) (weight bias : Option (Tensor α)) (eps : A) :
    Logged α A (Tensor α) := do
  let forward ← groupNormForward ex registry enabled input numGroups weight bias eps
  return forward.output

end ChannelNorm

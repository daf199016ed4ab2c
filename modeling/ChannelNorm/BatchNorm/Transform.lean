/-
  ChannelNorm.BatchNorm.Transform
  ───────────────────────────────
  **THE FORWARD TRANSFORM.**

  Every element `x` of a channel becomes `((x - mean) * invstd) * weight + bias`.
  Inference on contiguous tensors folds the four numbers of a channel into two
  and runs over the flat buffer:

      x * alpha + beta,   alpha = invstd * weight,   beta = bias - mean * alpha

  where the channel of the element at flat position `k` is
  `(k / imageSize) % channels`.
-/
import ChannelNorm.BatchNorm.Check
import ChannelNorm.BatchNorm.Variance
import ChannelNorm.Schedule

namespace ChannelNorm

variable {α A : Type} [OrderedArith A] [Element α A]

/-! ## §1. Channel by channel. -/

/-- The values of a parameter, or a default for every channel. -/
def channelValues {channels : Nat} (param : Option (Vector α channels)) (default : α) :
    Vector α channels :=
  param.getD (.replicate channels default)

/-- One element normalized. -/
def normalizeElement (mean invstd weight bias x : α) : α :=
  (x - mean) * invstd * weight + bias

/-- The transform over arbitrary strides, one task per channel. -/
def Schedule.transformGeneral (input : Tensor α) (s : Schedule input.channels)
    (weight bias : Option (Vector α input.channels)) (mean invstd : Vector α input.channels) :
    Tensor α :=
  let weight := channelValues weight 1
  let bias := channelValues bias 0
  s.forEachChannel input.zerosLike fun c _ =>
    (input.plane c).map (normalizeElement (mean.get c) (invstd.get c) (weight.get c) (bias.get c))

/-- The same as an executor schedules it. -/
def transformGeneral (ex : Executor) (input : Tensor α)
    (weight bias : Option (Vector α input.channels)) (mean invstd : Vector α input.channels) :
    Tensor α :=
  (ex.schedule input.channels input.numel).transformGeneral (A := A) input weight bias mean invstd

/-! ## §2. Over the flat buffer. -/

/-- Whether inference may run over the flat buffer: every tensor involved is
contiguous. -/
def contiguousInference (args : ForwardArgs α A) (running : ChannelStats α) : Bool :=
  !args.training
    && args.input.isContiguous
    && args.weight.all (·.isContiguous)
    && args.bias.all (·.isContiguous)
    && running.mean.any (·.isContiguous)
    && running.var.any (·.isContiguous)

/-- Slope of a channel. -/
def inferenceAlpha (eps : A) (var weight : α) : α :=
  runningInverseStd var eps * weight

/-- Offset of a channel with a known slope. -/
def inferenceBeta (alpha mean bias : α) : α :=
  bias - mean * alpha

/-- The transform over a flat buffer, for contiguous inference. -/
def transformContiguous (input : Tensor α) (weight bias : Option (Vector α input.channels))
    (mean var : Vector α input.channels) (eps : A) : Tensor α :=
  let weight := channelValues weight 1
  let bias := channelValues bias 0
  let alpha := Vector.zipWith (inferenceAlpha eps) var weight
  let beta := Vector.zipWith (fun a mb => inferenceBeta a mb.1 mb.2) alpha (mean.zip bias)
  let imageSize := input.numel / input.dims.headD 0 / input.channels
  -- planes follow each other channel by channel within a sample, then sample by sample
  if h : 0 < input.channels then
    input.withContents
      (input.toList.mapIdx fun k x =>
        let c : Fin input.channels := ⟨k / imageSize % input.channels, Nat.mod_lt _ h⟩
        x * alpha.get c + beta.get c)
      (by simp)
  else input.zerosLike

end ChannelNorm

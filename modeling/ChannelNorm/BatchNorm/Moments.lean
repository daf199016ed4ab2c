/-
  ChannelNorm.BatchNorm.Moments
  ─────────────────────────────
  **STATISTICS OF THE CHANNELS OF A BATCH.**

  Each channel is reduced in two passes, both in the accumulator and in
  row-major order: the first gives the mean, which is rounded to storage, the
  second the sum of squared deviations from that mean.  The running statistics
  move towards those of the batch by the momentum; their variance is the
  unbiased one, over one element less.
-/
import ChannelNorm.BatchNorm.Check
import ChannelNorm.BatchNorm.Variance
import ChannelNorm.Schedule

namespace ChannelNorm

variable {α A : Type} [OrderedArith A] [Element α A]

/-! ## §1. One channel. -/

/-- First and second moment of one channel. -/
structure ChannelMoments (α A : Type) where
  mean : α
  /-- Sum of squared deviations from the mean. -/
  varSum : A

/-- Squared deviation of a value from a mean, in the accumulator. -/
def squaredDeviation (mean x : α) : A :=
  (widen x - widen mean) * (widen x - widen mean)

/-- The moments of the `n` values of a channel. -/
def ChannelMoments.ofValues (n : A) (xs : List α) : ChannelMoments α A :=
  let mean : α := narrow (sumInOrder (xs.map widen) / n)
  { mean, varSum := sumInOrder (xs.map (squaredDeviation mean)) }

/-- The running mean after a batch. -/
def ChannelMoments.blendMean (momentum : A) (m : ChannelMoments α A) (old : α) : α :=
  narrow (momentum * widen m.mean + (1 - momentum) * widen old)

/-- The running variance after a batch of `dof + 1` values. -/
def ChannelMoments.blendVar (momentum dof : A) (m : ChannelMoments α A) (old : α) : α :=
  narrow (momentum * (m.varSum / dof) + (1 - momentum) * widen old)

/-! ## §2. All channels. -/

/-- The moments of every channel of an input. -/
def Schedule.channelMoments (input : Tensor α) (s : Schedule input.channels) :
    Vector (ChannelMoments α A) input.channels :=
  s.mapChannels fun c => .ofValues (ofCount input.elementsPerChannel) (input.plane c)

/-- Mean of every channel, and its biased variance under a storage policy. -/
structure BatchStats (α : Type) (channels : Nat) where
  mean : Vector α channels
  var : Vector α channels

/-- The statistics of a batch whose moments are known. -/
def BatchStats.ofMoments {channels : Nat} (n eps : A) (policy : VarTransform)
    (moments : Vector (ChannelMoments α A) channels) : BatchStats α channels where
  mean := moments.map (·.mean)
  var := moments.map fun m => narrow (policy.apply (m.varSum / n) eps)

/-- Running statistics with a batch folded in, in place. -/
def ChannelStats.blend {channels : Nat} (running : ChannelStats α) (momentum dof : A)
    (moments : Vector (ChannelMoments α A) channels) : ChannelStats α where
  mean := running.mean.map fun t =>
    t.overwrite (List.zipWith (·.blendMean momentum ·) moments.toList t.toList)
  var := running.var.map fun t =>
    t.overwrite (List.zipWith (·.blendVar momentum dof ·) moments.toList t.toList)

/-- The statistics of a batch, and the running statistics with it folded in. -/
def Schedule.updateStats (input : Tensor α) (s : Schedule input.channels)
    (running : ChannelStats α) (momentum eps : A) (policy : VarTransform) :
    BatchStats α input.channels × ChannelStats α :=
  let moments := s.channelMoments input
  let count := input.elementsPerChannel
  (.ofMoments (ofCount count) eps policy moments,
    running.blend momentum (ofCount (count - 1)) moments)

/-! ## §3. The public update. -/

/-- An input without a channel axis. -/
def TensorError.noChannelsToUpdate (dims : List Nat) : TensorError :=
  .invalidShape "batch_norm_update_stats" "expected an input with at least 2 dimensions" dims

/-- Check the arguments of a statistics update. -/
def checkUpdate (input : Tensor α) (running : ChannelStats α) : Except TensorError Unit := do
  if input.rank < 2 then
    throw (.noChannelsToUpdate input.dims)
  let _ ← checkOptional "batch_norm_update_stats" "running_mean" input.channels running.mean
  let _ ← checkOptional "batch_norm_update_stats" "running_var" input.channels running.var

/-- Batch statistics of `input`, mean and biased variance per channel, with the
running averages folded in.  Running statistics come back unchanged when the
call is refused. -/
def Schedule.batchNormUpdateStats (input : Tensor α) (s : Schedule input.channels)
    (running : ChannelStats α) (momentum : A) :
    Except TensorError (Tensor α × Tensor α) × ChannelStats α :=
  match checkUpdate input running with
  | .error e => (.error e, running)
  | .ok _ =>
      let (stats, updated) := s.updateStats input running momentum 0 .rawVariance
      (.ok (input.perChannel stats.mean, input.perChannel stats.var), updated)

/-- The update as an executor schedules it. -/
def batchNormUpdateStats (ex : Executor) (input : Tensor α) (running : ChannelStats α)
    (momentum : A) : Except TensorError (Tensor α × Tensor α) × ChannelStats α :=
  (ex.schedule input.channels input.numel).batchNormUpdateStats input running momentum

end ChannelNorm

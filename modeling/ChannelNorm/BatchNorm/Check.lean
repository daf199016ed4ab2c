/-
  ChannelNorm.BatchNorm.Check
  ───────────────────────────
  **ARGUMENT CHECKS, AND THE VALUES THEY VOUCH FOR.**

  A check that passes returns what it checked in the form the kernels use: one
  value per channel, as a vector whose length is the number of channels.  What
  the kernels read is therefore always there.  Checks run in a fixed order and
  the first failure is the one reported: rank, then the statistics, then the
  affine parameters (forward); rank, gradient shape, weight, then the
  statistics of the mode (backward).
-/
import ChannelNorm.BatchNorm.Call

namespace ChannelNorm

variable {α A : Type}

/-! ## §1. Refusals. -/

namespace TensorError

/-- An input without a channel axis. -/
def noChannelAxis (operation : String) (dims : List Nat) : TensorError :=
  .invalidShape operation "expected an input with at least 2 dimensions (N, C, ...)" dims

/-- A parameter that does not hold one value per channel. -/
def channelCount (operation name : String) (channels numel : Nat) (dims : List Nat) :
    TensorError :=
  (shapeMismatch operation
      (name ++ " with " ++ toString channels ++ " elements")
      (name ++ " with " ++ toString numel ++ " elements")).withContext
    ((ErrorContext.empty.withInputShape dims).withMetadata "message"
      (name ++ " should contain " ++ toString channels ++ " elements not " ++ toString numel))

/-- A statistic the mode reads but the caller did not supply. -/
def missingStatistic (operation name mode : String) : TensorError :=
  .missingState operation (name ++ " must be defined in " ++ mode ++ " mode")

/-- An incoming gradient of another shape than the input. -/
def gradientShape (operation : String) (input gradOutput : Shape) : TensorError :=
  .shapeMismatch operation ("grad_output of shape " ++ input.text)
    ("grad_output of shape " ++ gradOutput.text)

end TensorError

/-! ## §2. One parameter. -/

/-- The values of a parameter, if it holds exactly one per channel. -/
def checkParam (operation name : String) (channels : Nat) (p : Tensor α) :
    Except TensorError (Vector α channels) :=
  if h : p.numel = channels then .ok ⟨p.toList.toArray, by simpa using h⟩
  else .error (.channelCount operation name channels p.numel p.dims)

/-- A parameter that may be missing. -/
def checkOptional (operation name : String) (channels : Nat) :
    Option (Tensor α) → Except TensorError (Option (Vector α channels))
  | none => .ok none
  | some p => (checkParam operation name channels p).map some

/-- A statistic the mode reads. -/
def checkRequired (operation name mode : String) (channels : Nat) :
    Option (Tensor α) → Except TensorError (Vector α channels)
  | none => .error (.missingStatistic operation name mode)
  | some p => checkParam operation name channels p

/-! ## §3. Forward arguments. -/

/-- What a forward call normalizes with: the batch itself, or given
statistics. -/
inductive NormMode (α : Type) (channels : Nat) where
  | training
  | evaluation (mean var : Vector α channels)

/-- Checked arguments of a forward call. -/
structure ForwardParams (α : Type) (channels : Nat) where
  mode : NormMode α channels
  weight : Option (Vector α channels)
  bias : Option (Vector α channels)

/-- Check the arguments shared by every forward call. -/
def checkForward (operation : String) (args : ForwardArgs α A) (running : ChannelStats α) :
    Except TensorError (ForwardParams α args.input.channels) := do
  if args.input.rank < 2 then
    throw (.noChannelAxis operation args.input.dims)
  let channels := args.input.channels
  -- statistics come before parameters, and the mean before the variance
  let mode ← if args.training then do
      let _ ← checkOptional operation "running_mean" channels running.mean
      let _ ← checkOptional operation "running_var" channels running.var
      pure .training
    else do
      let mean ← checkRequired operation "running_mean" "evaluation" channels running.mean
      let var ← checkRequired operation "running_var" "evaluation" channels running.var
      pure (.evaluation mean var)
  let weight ← checkOptional operation "weight" channels args.weight
  let bias ← checkOptional operation "bias" channels args.bias
  return { mode, weight, bias }

/-! ## §4. Backward arguments. -/

/-- Checked arguments of a backward call: the statistics of its mode, as they
were given, and the weight. -/
structure BackwardParams (α : Type) (channels : Nat) where
  mean : Vector α channels
  spread : Vector α channels
  weight : Option (Vector α channels)

/-- Check the arguments of a native backward call.  Only the statistics of its
mode are looked at: saved ones in training, running ones in evaluation. -/
def checkBackward (operation : String) (args : BackwardArgs α A) :
    Except TensorError (BackwardParams α args.input.channels) := do
  if args.input.rank < 2 then
    throw (.noChannelAxis operation args.input.dims)
  if !args.gradOutput.sameShape args.input then
    throw (.gradientShape operation args.input.shape args.gradOutput.shape)
  let channels := args.input.channels
  let weight ← checkOptional operation "weight" channels args.weight
  -- the statistics of the other mode are never looked at
  if args.training then
    let mean ← checkRequired operation "save_mean" "training" channels args.saved.mean
    let spread ← checkRequired operation "save_invstd" "training" channels args.saved.var
    return { mean, spread, weight }
  else
    let mean ← checkRequired operation "running_mean" "evaluation" channels args.running.mean
    let spread ← checkRequired operation "running_var" "evaluation" channels args.running.var
    return { mean, spread, weight }

end ChannelNorm

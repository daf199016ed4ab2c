/-
  ChannelNorm.BatchNorm.Native
  ────────────────────────────
  **THE NATIVE FORWARD.**

  In training mode the batch statistics are computed, folded into the running
  statistics that are supplied, and saved; in evaluation mode the running
  statistics are used as they are and nothing is saved.  A call is refused only
  by its checks, before anything changes; what follows cannot fail.
-/
import ChannelNorm.Backend.Event
import ChannelNorm.BatchNorm.Moments
import ChannelNorm.BatchNorm.Transform

namespace ChannelNorm

variable {α A : Type} [OrderedArith A] [Element α A]

namespace Schedule

/-- Normalize with the statistics of the batch, updating the running ones. -/
def trainForward (args : ForwardArgs α A) (s : Schedule args.input.channels)
    (running : ChannelStats α) (weight bias : Option (Vector α args.input.channels)) :
    Run α A (Forward α) :=
  let (stats, updated) := s.updateStats args.input running args.momentum args.eps .inverseStd
  let forward : Forward α :=
    { output := s.transformGeneral (A := A) args.input weight bias stats.mean stats.var
      saved :=
        { mean := some (args.input.perChannel stats.mean)
          var := some (args.input.perChannel stats.var) }
      backend := .native }
  { result := .ok forward, events := [], running := updated }

/-- Normalize with given statistics. -/
def evaluateForward (args : ForwardArgs α A) (s : Schedule args.input.channels)
    (running : ChannelStats α) (weight bias : Option (Vector α args.input.channels))
    (mean var : Vector α args.input.channels) : Run α A (Forward α) :=
  let run (output : Tensor α) (events : List (Event α A)) : Run α A (Forward α) :=
    { result := .ok { output, saved := .none, backend := .native }, events, running }
  if contiguousInference args running then
    run (transformContiguous args.input weight bias mean var args.eps)
      [.notice (.contiguousInference args.input.dims)]
  else
    run (s.transformGeneral (A := A) args.input weight bias mean
      (var.map (runningInverseStd · args.eps))) []

/-- Native batch normalization. -/
def nativeBatchNorm (args : ForwardArgs α A) (s : Schedule args.input.channels)
    (running : ChannelStats α) : Run α A (Forward α) :=
  match checkForward "native_batch_norm" args running with
  | .error e => .refused e running
  | .ok params =>
      match params.mode with
      | .training => s.trainForward args running params.weight params.bias
      | .evaluation mean var =>
          s.evaluateForward args running params.weight params.bias mean var

end Schedule

/-- The call as an executor schedules it. -/
def nativeBatchNorm (ex : Executor) (args : ForwardArgs α A) (running : ChannelStats α) :
    Run α A (Forward α) :=
  (ex.schedule args.input.channels args.input.numel).nativeBatchNorm args running

end ChannelNorm

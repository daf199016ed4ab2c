/-
  ChannelNorm.Config
  ──────────────────
  **KNOBS SHARED BY EVERY NORMALIZATION CALL.**
-/
namespace ChannelNorm

/-- Configuration shared by every normalization call. -/
structure NormConfig where
  /-- Global switch for accelerators, ANDed with the flag of each call. -/
  allowAccelerators : Bool
  /-- Least number of channels handed to one task. -/
  parallelGrain : Nat
  /-- Inputs with fewer elements than this run as one task. -/
  serialThreshold : Nat
  deriving DecidableEq, Repr

namespace NormConfig

/-- Accelerators on, one channel per task, and tasks only from 32 Ki elements. -/
def standard : NormConfig :=
  { allowAccelerators := true, parallelGrain := 1, serialThreshold := 32 * 1024 }

instance : Inhabited NormConfig := ⟨standard⟩

/-- The record with its field names, as log lines show it. -/
def text (c : NormConfig) : String :=
  "NormConfig \x7b allow_accelerators: " ++ toString c.allowAccelerators
    ++ ", parallel_grain: " ++ toString c.parallelGrain
    ++ ", serial_threshold: " ++ toString c.serialThreshold ++ " \x7d"

end NormConfig

end ChannelNorm

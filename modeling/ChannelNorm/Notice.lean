/-
  ChannelNorm.Notice
  ──────────────────
  **WHAT RUNS REPORT AS THEY GO.**

  Notices are the log records of the library: which configuration is in force,
  what was installed, which implementation and which path a call took, and a
  gradient check that failed.
-/
import ChannelNorm.Backend.Tag
import ChannelNorm.Config
import ChannelNorm.DType
import ChannelNorm.Scalar.Scientific

namespace ChannelNorm

/-- How important a notice is. -/
inductive NoticeLevel where
  | trace
  | debug
  | info
  | warn
  deriving DecidableEq, Repr

/-- The name of a level in log lines. -/
def NoticeLevel.name : NoticeLevel → String
  | .trace => "TRACE"
  | .debug => "DEBUG"
  | .info => "INFO"
  | .warn => "WARN"

/-- One report of a run. -/
inductive Notice where
  /-- A new configuration is in force. -/
  | configUpdated (config : NormConfig)
  /-- An accelerator now fills an empty slot. -/
  | installed (slot : AcceleratorSlot) (name : String) (version : Nat) (dtype : DType)
  /-- An accelerator took the place of another one. -/
  | replaced (slot : AcceleratorSlot) (previous name : String) (version : Nat) (dtype : DType)
  /-- A slot was emptied. -/
  | uninstalled (slot : AcceleratorSlot) (name : String) (dtype : DType)
  /-- A forward call runs on an accelerator. -/
  | acceleratorChosen (slot : AcceleratorSlot) (name : String) (dtype : DType) (shape : Shape)
  /-- A forward call runs on the native implementation. -/
  | nativeChosen (dtype : DType) (shape : Shape) (training : Bool)
  /-- Inference runs over the flat buffer. -/
  | contiguousInference (dims : List Nat)
  /-- A backward call runs on an accelerator. -/
  | acceleratorReplayed (slot : AcceleratorSlot) (name : String)
  /-- A recorded forward call is replayed backwards. -/
  | contextReplayed (backend : BackendTag)
  /-- A gradient disagrees with its numerical estimate. -/
  | gradientCheckFailed (maxError : Float) (worst : Option Nat)

namespace Notice

def level : Notice → NoticeLevel
  | .configUpdated _ => .debug
  | .installed .. => .info
  | .replaced .. => .warn
  | .uninstalled .. => .info
  | .acceleratorChosen .. => .debug
  | .nativeChosen .. => .debug
  | .contiguousInference _ => .trace
  | .acceleratorReplayed .. => .debug
  | .contextReplayed _ => .trace
  | .gradientCheckFailed .. => .debug

/-- An optional number as log lines show it. -/
def optionText : Option Nat → String
  | none => "None"
  | some n => "Some(" ++ toString n ++ ")"

/-- The wording of a notice. -/
def text : Notice → String
  | .configUpdated config => "normalization config updated: " ++ config.text
  | .installed slot name version dtype =>
      slot.name ++ " accelerator '" ++ name ++ "' (version " ++ toString version
        ++ ") installed for " ++ dtype.name
  | .replaced slot previous name version dtype =>
      slot.name ++ " accelerator '" ++ previous ++ "' for " ++ dtype.name
        ++ " replaced by '" ++ name ++ "' (version " ++ toString version ++ ")"
  | .uninstalled slot name dtype =>
      slot.name ++ " accelerator '" ++ name ++ "' uninstalled for " ++ dtype.name
  | .acceleratorChosen slot name dtype shape =>
      "batch_norm: " ++ slot.tag.text ++ " backend '" ++ name ++ "' for " ++ dtype.name
        ++ " input " ++ shape.text
  | .nativeChosen dtype shape training =>
      "batch_norm: native backend for " ++ dtype.name ++ " input " ++ shape.text
        ++ " (training=" ++ toString training ++ ")"
  | .contiguousInference dims =>
      "batch_norm: contiguous inference path, dims " ++ (Shape.mk dims).text
  | .acceleratorReplayed slot name =>
      "batch_norm backward: replaying " ++ slot.tag.text ++ " backend '" ++ name ++ "'"
  | .contextReplayed backend => "batch_norm backward replay on " ++ backend.text
  | .gradientCheckFailed maxError worst =>
      "gradient check failed: max error " ++ Scientific.ofDouble maxError
        ++ " at element " ++ optionText worst

/-- The log line of a notice. -/
def line (n : Notice) : String :=
  n.level.name ++ " " ++ n.text

end Notice

end ChannelNorm

/-
  ChannelNorm.Error
  ─────────────────
  **FAILURES OF TENSOR AND NORMALIZATION CALLS.**

  A failure names the operation that refused, what was wrong with the call,
  and optionally a context of input shapes and remarks.  The wording of every
  kind of failure is in `TensorError.message`; modules that refuse a call add
  one constructor function each for their causes.
-/
import ChannelNorm.Shape

namespace ChannelNorm

/-- What was wrong with a call. -/
inductive Fault where
  /-- Two shapes that should agree do not. -/
  | shapeMismatch (expected got : String)
  /-- A shape the operation cannot work with. -/
  | invalidShape (reason : String) (shape : Option (List Nat))
  /-- An argument outside its domain. -/
  | invalidArgument (reason : String)
  /-- A statistic the mode needs was not supplied. -/
  | missingState (reason : String)
  /-- An operation the callee does not offer. -/
  | unsupportedOperation (reason : String)
  /-- No implementation is installed where one is needed. -/
  | backendUnavailable (backend : String)
  /-- An installed implementation failed. -/
  | backendFailure (backend details : String)
  deriving DecidableEq, Repr

/-- Circumstances attached to a failure. -/
structure ErrorContext where
  /-- Shapes of the tensors involved. -/
  inputShapes : List (List Nat)
  /-- Remarks by key; a key occurs once. -/
  metadata : List (String × String)
  deriving DecidableEq, Repr

namespace ErrorContext

/-- A context that says nothing. -/
def empty : ErrorContext :=
  { inputShapes := [], metadata := [] }

/-- Add the shape of one more tensor. -/
def withInputShape (c : ErrorContext) (shape : List Nat) : ErrorContext :=
  { c with inputShapes := c.inputShapes ++ [shape] }

/-- Add a remark, replacing an earlier one under the same key. -/
def withMetadata (c : ErrorContext) (key value : String) : ErrorContext :=
  { c with metadata := c.metadata.filter (·.1 != key) ++ [(key, value)] }

end ErrorContext

/-- A refused call. -/
structure TensorError where
  fault : Fault
  operation : String
  context : Option ErrorContext
  deriving DecidableEq, Repr

namespace TensorError

/-! ## §1. One constructor per kind of fault. -/

def shapeMismatch (operation expected got : String) : TensorError :=
  ⟨.shapeMismatch expected got, operation, none⟩

/-- A refused shape, reported with the shape itself. -/
def invalidShape (operation reason : String) (shape : List Nat) : TensorError :=
  ⟨.invalidShape reason (some shape), operation, none⟩

/-- A refused shape where neither the operation nor the shape is on record. -/
def invalidShapeSimple (reason : String) : TensorError :=
  ⟨.invalidShape reason none, "unknown", none⟩

def invalidArgument (operation reason : String) : TensorError :=
  ⟨.invalidArgument reason, operation, none⟩

def missingState (operation reason : String) : TensorError :=
  ⟨.missingState reason, operation, none⟩

def unsupportedOperation (operation reason : String) : TensorError :=
  ⟨.unsupportedOperation reason, operation, none⟩

def backendUnavailable (operation backend : String) : TensorError :=
  ⟨.backendUnavailable backend, operation, none⟩

def backendFailure (operation backend details : String) : TensorError :=
  ⟨.backendFailure backend details, operation, none⟩

/-- A shape whose element count does not fit the data it is paired with. -/
def incompatibleShape : TensorError :=
  ⟨.invalidShape "Shape error: ShapeError/IncompatibleShape: incompatible shapes" none,
    "tensor_creation", none⟩

/-- A shape whose dimensions multiply past what memory can address. -/
def addressOverflow : TensorError :=
  ⟨.invalidShape "Shape error: ShapeError/Overflow: arithmetic overflow" none,
    "tensor_creation", none⟩

/-- Attach a context, dropping an earlier one. -/
def withContext (e : TensorError) (c : ErrorContext) : TensorError :=
  { e with context := some c }

/-! ## §2. Wording. -/

/-- The shape on record with a refused shape. -/
def shape? (e : TensorError) : Option (List Nat) :=
  match e.fault with
  | .invalidShape _ shape => shape
  | _ => none

/-- The text of a failure. -/
def message (e : TensorError) : String :=
  let op := "operation '" ++ e.operation ++ "'"
  match e.fault with
  | .shapeMismatch expected got =>
      "Shape mismatch in " ++ op ++ ": expected " ++ expected ++ ", got " ++ got
  | .invalidShape reason _ => "Invalid shape in " ++ op ++ ": " ++ reason
  | .invalidArgument reason => "Invalid argument in " ++ op ++ ": " ++ reason
  | .missingState reason => "Missing required state in " ++ op ++ ": " ++ reason
  | .unsupportedOperation reason =>
      "Operation '" ++ e.operation ++ "' not supported: " ++ reason
  | .backendUnavailable backend =>
      "Backend '" ++ backend ++ "' is not available for " ++ op
  | .backendFailure backend details =>
      "Backend '" ++ backend ++ "' failed in " ++ op ++ ": " ++ details

instance : ToString TensorError := ⟨message⟩

end TensorError

end ChannelNorm

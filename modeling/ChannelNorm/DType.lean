/-
  ChannelNorm.DType
  ─────────────────
  **STORAGE FORMATS.**

  The element formats the normalization kernels are instantiated for, and the
  lookup from a host type to its format: only the two binary floating-point
  types have one.
-/
namespace ChannelNorm

/-- Element format of a tensor. -/
inductive DType where
  | float32
  | float64
  deriving DecidableEq, Repr

namespace DType

/-- Bytes per element. -/
def size : DType → Nat
  | .float32 => 4
  | .float64 => 8

/-- The name shown in messages. -/
def name : DType → String
  | .float32 => "float32"
  | .float64 => "float64"

instance : ToString DType := ⟨name⟩

end DType

/-- The format of a host type's values, `none` for a type that tensors of
numbers are not built from. -/
class StorageFormat (α : Type) where
  dtype? : Option DType

instance (priority := low) (α : Type) : StorageFormat α := ⟨none⟩

instance : StorageFormat Float32 := ⟨some .float32⟩

instance : StorageFormat Float := ⟨some .float64⟩

end ChannelNorm

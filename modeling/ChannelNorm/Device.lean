/-
  ChannelNorm.Device
  ──────────────────
  **PLACEMENT TAGS.**

  Tensor storage is always host memory.  The tag says where a caller intends
  the data to live, and only backend selection reads it.
-/
namespace ChannelNorm

/-- Placement tag of a tensor. -/
inductive Device where
  | cpu
  | gpu (id : Nat)
  deriving DecidableEq, Repr

namespace Device

instance : Inhabited Device := ⟨.cpu⟩

/-- Whether the tag names an accelerator device. -/
def isGpu : Device → Bool
  | .cpu => false
  | .gpu _ => true

/-- The text of a tag: `cpu` or `gpu:<id>`. -/
def text : Device → String
  | .cpu => "cpu"
  | .gpu id => "gpu:" ++ toString id

instance : ToString Device := ⟨text⟩

end Device

end ChannelNorm

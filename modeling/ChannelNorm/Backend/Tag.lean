/-
  ChannelNorm.Backend.Tag
  ───────────────────────
  **WHICH IMPLEMENTATION RAN.**

  A forward call records the implementation that computed it as a tag, and the
  backward call replays the implementation the tag names.  The numbers 0, 1 and
  2 are the recorded form and never change:

      ofIndex tag.index = .ok tag
-/
import ChannelNorm.Error

namespace ChannelNorm

/-! ## §1. Slots. -/

/-- Where an accelerated implementation can be installed. -/
inductive AcceleratorSlot where
  | cudnn
  | miopen
  deriving DecidableEq, Repr

/-- The implementation that produced a forward result. -/
inductive BackendTag where
  | native
  | cudnn
  | miopen
  deriving DecidableEq, Repr

/-- The tag of the accelerator installed in a slot. -/
def AcceleratorSlot.tag : AcceleratorSlot → BackendTag
  | .cudnn => .cudnn
  | .miopen => .miopen

namespace BackendTag

/-! ## §2. Tags. -/

/-- The recorded form of a tag. -/
def index : BackendTag → Int
  | .native => 0
  | .cudnn => 1
  | .miopen => 2

def name : BackendTag → String
  | .native => "native"
  | .cudnn => "cudnn"
  | .miopen => "miopen"

/-- Name and recorded form, as in `cudnn (1)`. -/
def text (t : BackendTag) : String :=
  t.name ++ " (" ++ toString t.index ++ ")"

instance : ToString BackendTag := ⟨text⟩

/-- The slot a tag names, none for the native implementation. -/
def slot? : BackendTag → Option AcceleratorSlot
  | .native => none
  | .cudnn => some .cudnn
  | .miopen => some .miopen

/-- A number that records no tag. -/
def unknownIndex (index : Int) : TensorError :=
  .invalidArgument "batch_norm_impl_index_backward"
    ("unknown backend index " ++ toString index)

/-- Decode a recorded tag. -/
def ofIndex (index : Int) : Except TensorError BackendTag :=
  if index = 0 then .ok .native
  else if index = 1 then .ok .cudnn
  else if index = 2 then .ok .miopen
  else .error (unknownIndex index)

/-- The recorded form of a tag is decoded to the tag. -/
theorem ofIndex_index (t : BackendTag) : ofIndex t.index = .ok t := by
  cases t <;> rfl

/-- The report of a caller whose recorded tag cannot be right: forward and
backward bookkeeping disagree, and no implementation may be guessed. -/
def inconsistentIndex (index : Int) : String :=
  "Unsupported impl_index in batch_norm_impl_index_backward: " ++ toString index

end BackendTag

namespace AcceleratorSlot

def name (s : AcceleratorSlot) : String :=
  s.tag.name

instance : ToString AcceleratorSlot := ⟨name⟩

end AcceleratorSlot

end ChannelNorm

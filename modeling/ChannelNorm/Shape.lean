/-
  ChannelNorm.Shape
  ─────────────────
  **SHAPES: LISTS OF DIMENSIONS.**

  A shape is the list of a tensor's axis lengths, outermost first.  The empty
  list is the shape of a scalar.  The volume of a list of dimensions is the
  number of elements of an array of these dimensions; it does not depend on
  their order, and it splits where the list splits:

      volume (ds ++ es)  =  volume ds * volume es
-/
namespace ChannelNorm

/-! ## §1. Volumes. -/

/-- Number of elements of an array of these dimensions. -/
def volume : List Nat → Nat
  | [] => 1
  | d :: ds => d * volume ds

@[simp] theorem volume_nil : volume [] = 1 :=
  rfl

@[simp] theorem volume_cons (d : Nat) (ds : List Nat) : volume (d :: ds) = d * volume ds :=
  rfl

theorem volume_singleton (d : Nat) : volume [d] = d :=
  Nat.mul_one d

theorem volume_pair (d e : Nat) : volume [d, e] = d * e := by
  rw [volume_cons, volume_singleton]

theorem volume_append (ds es : List Nat) : volume (ds ++ es) = volume ds * volume es := by
  induction ds with
  | nil => simp
  | cons d ds ih => rw [List.cons_append, volume_cons, volume_cons, ih, Nat.mul_assoc]

/-- The order of the dimensions does not matter. -/
theorem volume_perm {ds es : List Nat} (h : ds.Perm es) : volume ds = volume es := by
  induction h with
  | nil => rfl
  | cons d _ ih => rw [volume_cons, volume_cons, ih]
  | swap d e ds => simp only [volume_cons]; rw [Nat.mul_left_comm]
  | trans _ _ ih₁ ih₂ => rw [ih₁, ih₂]

/-! ## §2. Shapes. -/

/-- Comma-separated items in square brackets. -/
def bracketed (items : List String) : String :=
  "[" ++ String.intercalate ", " items ++ "]"

/-- Axis lengths, outermost first. -/
structure Shape where
  dims : List Nat
  deriving DecidableEq, Repr

namespace Shape

/-- Number of axes. -/
def rank (s : Shape) : Nat :=
  s.dims.length

/-- Number of elements. -/
def size (s : Shape) : Nat :=
  volume s.dims

/-- Length of one axis, if there is such an axis. -/
def dim? (s : Shape) (axis : Nat) : Option Nat :=
  s.dims[axis]?

/-- Product of the dimensions before `axis`; an axis past the end takes all of
them. -/
def leadingSize (s : Shape) (axis : Nat) : Nat :=
  volume (s.dims.take axis)

/-- Whether the trailing dimensions are exactly `suffix`. -/
def endsWith (s : Shape) (suffix : List Nat) : Bool :=
  suffix.isSuffixOf s.dims

/-- Dimensions in brackets, as in `[2, 3, 4]`. -/
def text (s : Shape) : String :=
  bracketed (s.dims.map toString)

instance : ToString Shape := ⟨text⟩

end Shape

end ChannelNorm

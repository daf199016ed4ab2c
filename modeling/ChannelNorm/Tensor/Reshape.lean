/-
  ChannelNorm.Tensor.Reshape
  ──────────────────────────
  **REARRANGING A TENSOR.**

  Reshaping keeps the contents and gives them another shape; permuting keeps
  the buffer and gives its axes another order; sub-sampling keeps every k-th
  index of an axis.  Results carry the device of their input.

      t.reshape dims = .ok r  →  r.toList = t.toList
-/
import ChannelNorm.Tensor.Basic

namespace ChannelNorm

variable {α : Type}

/-! ## §1. Refusals. -/

namespace TensorError

/-- A reshape that would change the number of elements. -/
def reshapeCount (numel : Nat) (target dims : List Nat) : TensorError :=
  .invalidShape "reshape" ("cannot reshape tensor of " ++ toString numel
    ++ " elements into " ++ (Shape.mk target).text) dims

/-- A second dimension left open. -/
def severalInferred : TensorError :=
  .invalidArgument "reshape" "only one dimension can be inferred"

/-- A dimension below `-1`. -/
def negativeDimension (d : Int) : TensorError :=
  .invalidArgument "reshape" ("invalid dimension " ++ toString d)

/-- An open dimension that no value fits. -/
def cannotInfer (axis : Nat) (target : List Int) (dims : List Nat) : TensorError :=
  .invalidShape "reshape" ("cannot infer dimension " ++ toString axis ++ " for shape "
    ++ bracketed (target.map toString)) dims

/-- A list that does not name every axis once. -/
def notPermutation (order : List Nat) (rank : Nat) : TensorError :=
  .invalidArgument "permute" ((Shape.mk order).text ++ " is not a permutation of "
    ++ toString rank ++ " axes")

/-- Tiling of anything but a vector. -/
def tileRank (dims : List Nat) : TensorError :=
  .invalidShape "repeat" "only 1-D tensors can be repeated" dims

/-- A copy between different shapes. -/
def copyShape (dst src : Shape) : TensorError :=
  .shapeMismatch "copy_from" dst.text src.text

end TensorError

namespace Tensor

/-- A tensor if there is one, changed by an operation that may fail. -/
def mapOptional (f : Tensor α → Except TensorError (Tensor α)) :
    Option (Tensor α) → Except TensorError (Option (Tensor α))
  | none => .ok none
  | some t => (f t).map some

/-! ## §2. Same contents, another shape. -/

/-- The tensor itself if it is contiguous, else a row-major copy. -/
def contiguous (t : Tensor α) : Tensor α :=
  if t.isContiguous then t else t.withContents t.toList t.length_toList

/-- The same contents under another shape, which must have as many elements. -/
def reshape (t : Tensor α) (target : List Nat) : Except TensorError (Tensor α) :=
  if len : volume target = t.numel then
    if h : Addressable target then
      .ok (build target h t.toList (t.length_toList.trans len.symm) t.device)
    else .error .incompatibleShape
  else .error (.reshapeCount t.numel target t.dims)

/-- The position of the open dimension `-1`, if there is one.  Dimensions are
looked at in order, and the first one that cannot stand is reported. -/
def openDimension? : List Int → Nat → Option Nat → Except TensorError (Option Nat)
  | [], _, found => .ok found
  | d :: ds, axis, found =>
      if d = -1 then
        match found with
        | none => openDimension? ds (axis + 1) (some axis)
        | some _ => .error .severalInferred
      else if d < 0 then .error (.negativeDimension d)
      else openDimension? ds (axis + 1) found

/-- Number of elements the given dimensions account for. -/
def knownSize (target : List Int) : Nat :=
  volume ((target.filter (0 ≤ ·)).map Int.toNat)

/-- Reshape where at most one dimension is `-1` and follows from the others. -/
def reshapeInfer (t : Tensor α) (target : List Int) : Except TensorError (Tensor α) :=
  match openDimension? target 0 none with
  | .error e => .error e
  | .ok none => t.reshape (target.map Int.toNat)
  | .ok (some axis) =>
      let known := knownSize target
      if known = 0 ∨ t.numel % known ≠ 0 then .error (.cannotInfer axis target t.dims)
      else t.reshape ((target.map Int.toNat).set axis (t.numel / known))

theorem toList_reshape {t r : Tensor α} {target : List Nat} (h : t.reshape target = .ok r) :
    r.toList = t.toList := by
  unfold reshape at h
  split at h <;> try contradiction
  split at h <;> try contradiction
  cases h
  exact toList_build

theorem dims_reshape {t r : Tensor α} {target : List Nat} (h : t.reshape target = .ok r) :
    r.dims = target := by
  unfold reshape at h
  split at h <;> try contradiction
  split at h <;> try contradiction
  cases h
  exact dims_build

/-! ## §3. Same buffer, another view. -/

/-- Axis `i` of the result is axis `order[i]`; generally not contiguous. -/
def permute (t : Tensor α) (order : List Nat) : Except TensorError (Tensor α) :=
  if h : order.isPerm (List.range t.layout.rank) = true then
    .ok {
      layout := t.layout.permute order h
      buffer := t.buffer
      device := t.device
      bound := fun p hp => t.bound p <|
        (offsetsFrom_perm (by
          have := (List.isPerm_iff.1 h).filterMap (t.layout.axes[·]?)
          rwa [Layout.rank, Layout.filterMap_getElem?_range] at this) 0).mem_iff.1 hp }
  else .error (.notPermutation order t.rank)

/-- The indices `0, k, 2k, …` of one axis, as a view of the same buffer. -/
def everyNth (t : Tensor α) (axis k : Nat) (hk : 0 < k) : Tensor α where
  layout := t.layout.everyNth axis k hk
  buffer := t.buffer
  device := t.device
  bound p hp :=
    t.bound p ((offsetsFrom_everyNth_sublist t.layout.axes axis k 0 hk).subset hp)

/-! ## §4. Copies. -/

/-- A list laid `times` times end to end; the empty list is its own tiling,
however many copies are asked for. -/
def tiled (times : Nat) (xs : List α) : List α :=
  if xs.isEmpty then [] else (List.replicate times xs).flatten

theorem tiled_eq_flatten (times : Nat) (xs : List α) :
    tiled times xs = (List.replicate times xs).flatten := by
  cases xs with
  | nil => exact (List.flatten_replicate_nil).symm
  | cons x xs => rfl

/-- A vector laid `times` times end to end. -/
def tile (t : Tensor α) (times : Nat) : Except TensorError (Tensor α) :=
  if t.rank = 1 then
    let data := tiled times t.toList
    if h : Addressable [data.length] then
      .ok (build [data.length] h data (by simp) t.device)
    else .error .addressOverflow
  else .error (.tileRank t.dims)

/-- Overwrite every element with the matching element of `src`. -/
def copyFrom (t src : Tensor α) : Except TensorError (Tensor α) :=
  if t.sameShape src then .ok (t.overwrite src.toList)
  else .error (.copyShape t.shape src.shape)

end Tensor

end ChannelNorm

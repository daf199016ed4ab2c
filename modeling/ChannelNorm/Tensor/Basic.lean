/-
  ChannelNorm.Tensor.Basic
  ────────────────────────
  **TENSORS: A STRIDED WINDOW ON A BUFFER.**

  A tensor is a layout, a buffer that covers it and a placement tag.  Its
  contents are the list `toList` of its elements in row-major order, whatever
  the strides; everything an operation computes is a function of shape, device
  and contents, except where its comment names the layout.  Main facts:

      t.toList.length = t.numel
      (build dims h data len dev).toList = data
      (t.overwrite xs).toList = xs            for as many xs as elements
-/
import ChannelNorm.Device
import ChannelNorm.Error
import ChannelNorm.Tensor.Layout

namespace ChannelNorm

variable {α β : Type}

/-! ## §1. Reading and writing buffer positions. -/

/-- Values at the given positions of a buffer. -/
def readAll (buffer : Array α) (positions : List Nat) : List α :=
  positions.filterMap (buffer[·]?)

/-- Put one value at each position, pairing them in order. -/
def writeAll (buffer : Array α) (positions : List Nat) (values : List α) : Array α :=
  (positions.zip values).foldl (fun b pv => b.setIfInBounds pv.1 pv.2) buffer

theorem length_readAll {buffer : Array α} {positions : List Nat}
    (h : ∀ p ∈ positions, p < buffer.size) :
    (readAll buffer positions).length = positions.length := by
  induction positions with
  | nil => rfl
  | cons p ps ih =>
      have hp : buffer[p]? = some _ := Array.getElem?_eq_getElem (h p (by simp))
      rw [readAll, List.filterMap_cons_some hp, List.length_cons, List.length_cons,
        ← readAll, ih fun q hq => h q (by simp [hq])]

theorem foldl_setIfInBounds_size (ws : List (Nat × α)) (buffer : Array α) :
    (ws.foldl (fun b pv => b.setIfInBounds pv.1 pv.2) buffer).size = buffer.size := by
  induction ws generalizing buffer with
  | nil => rfl
  | cons w ws ih => rw [List.foldl_cons, ih, Array.size_setIfInBounds]

@[simp] theorem size_writeAll (buffer : Array α) (positions : List Nat) (values : List α) :
    (writeAll buffer positions values).size = buffer.size :=
  foldl_setIfInBounds_size _ _

theorem getElem?_writeAll_of_notMem {buffer : Array α} {positions : List Nat}
    {values : List α} {p : Nat} (h : p ∉ positions) :
    (writeAll buffer positions values)[p]? = buffer[p]? := by
  induction positions generalizing buffer values with
  | nil => rfl
  | cons q qs ih =>
      cases values with
      | nil => rfl
      | cons v vs =>
          simp only [List.mem_cons, not_or] at h
          have := @ih (buffer.setIfInBounds q v) vs h.2
          simp only [writeAll, List.zip_cons_cons, List.foldl_cons] at this ⊢
          rw [this, Array.getElem?_setIfInBounds_ne (Ne.symm h.1)]

/-- What is written at distinct positions is read back from them. -/
theorem readAll_writeAll {buffer : Array α} {positions : List Nat} {values : List α}
    (hnd : positions.Nodup) (hb : ∀ p ∈ positions, p < buffer.size)
    (hlen : values.length = positions.length) :
    readAll (writeAll buffer positions values) positions = values := by
  induction positions generalizing buffer values with
  | nil => simpa [readAll] using (List.length_eq_zero_iff.1 hlen).symm
  | cons p ps ih =>
      cases values with
      | nil => simp at hlen
      | cons v vs =>
          rw [List.nodup_cons] at hnd
          have hps : ∀ q ∈ ps, q < (buffer.setIfInBounds p v).size := fun q hq => by
            rw [Array.size_setIfInBounds]
            exact hb q (by simp [hq])
          have htail := @ih (buffer.setIfInBounds p v) vs hnd.2 hps (by simpa using hlen)
          have hhead : (writeAll (buffer.setIfInBounds p v) ps vs)[p]? = some v := by
            rw [getElem?_writeAll_of_notMem hnd.1]
            exact Array.getElem?_setIfInBounds_self_of_lt (hb p (by simp))
          have hstep : writeAll buffer (p :: ps) (v :: vs)
              = writeAll (buffer.setIfInBounds p v) ps vs := rfl
          rw [hstep, readAll, List.filterMap_cons_some hhead, ← readAll, htail]

theorem readAll_range' (data : List α) :
    readAll data.toArray (List.range' 0 data.length) = data := by
  rw [← List.range_eq_range', readAll]
  simpa using Layout.filterMap_getElem?_range data

/-! ## §2. Tensors and their contents. -/

/-- A strided window on a buffer, with a placement tag. -/
structure Tensor (α : Type) where
  layout : Layout
  buffer : Array α
  device : Device
  bound : ∀ p ∈ layout.offsets, p < buffer.size

/-- Data that does not have as many elements as its shape. -/
def TensorError.lengthMismatch (len : Nat) (dims : List Nat) : TensorError :=
  .invalidShapeSimple ("Data length " ++ toString len ++ " does not match shape "
    ++ (Shape.mk dims).text ++ " (expected " ++ toString (volume dims) ++ " elements)")

namespace Tensor

/-- Axis lengths, outermost first. -/
def dims (t : Tensor α) : List Nat :=
  t.layout.dims

def shape (t : Tensor α) : Shape :=
  ⟨t.dims⟩

/-- Number of axes. -/
def rank (t : Tensor α) : Nat :=
  t.dims.length

/-- Number of elements. -/
def numel (t : Tensor α) : Nat :=
  volume t.dims

/-- Length of one axis, if there is such an axis. -/
def dim? (t : Tensor α) (axis : Nat) : Option Nat :=
  t.dims[axis]?

def isEmpty (t : Tensor α) : Bool :=
  t.numel == 0

/-- The elements in row-major order. -/
def toList (t : Tensor α) : List α :=
  readAll t.buffer t.layout.offsets

/-- Whether the elements fill the front of the buffer in row-major order. -/
def isContiguous (t : Tensor α) : Bool :=
  t.layout.isContiguous

/-- The elements as one stretch of the buffer, for contiguous tensors only. -/
def asSlice? (t : Tensor α) : Option (Array α) :=
  if t.isContiguous then some (t.buffer.extract 0 t.numel) else none

/-- The element at an index, if it has one in-range coordinate per axis. -/
def get? (t : Tensor α) (index : List Nat) : Option α :=
  (Layout.offsetOf? t.layout.axes index).bind (t.buffer[·]?)

def sameShape (t : Tensor α) (u : Tensor β) : Bool :=
  t.dims == u.dims

theorem addressable (t : Tensor α) : Addressable t.dims :=
  t.layout.addressable

theorem sameShape_of_dims {t : Tensor α} {u : Tensor β} (h : t.dims = u.dims) :
    t.sameShape u = true :=
  beq_iff_eq.2 h

theorem rank_congr {t : Tensor α} {u : Tensor β} (h : t.dims = u.dims) : t.rank = u.rank :=
  congrArg List.length h

/-- With two dimensions named, there are two axes at least. -/
theorem two_le_rank {t : Tensor α} {n c : Nat} {rest : List Nat} (h : t.dims = n :: c :: rest) :
    2 ≤ t.rank := by
  unfold rank
  rw [h]
  exact Nat.le_add_left 2 _

/-- A vector has as many elements as it is long. -/
theorem numel_of_dims_singleton {t : Tensor α} {n : Nat} (h : t.dims = [n]) : t.numel = n :=
  (congrArg volume h).trans (volume_singleton n)

/-- Contents have as many elements as the shape says. -/
@[simp] theorem length_toList (t : Tensor α) : t.toList.length = t.numel := by
  rw [toList, length_readAll t.bound, Layout.length_offsets]
  rfl

/-! ## §3. Construction. -/

/-- A row-major tensor with the given contents. -/
def build (dims : List Nat) (h : Addressable dims) (data : List α)
    (len : data.length = volume dims) (device : Device) : Tensor α where
  layout := .rowMajor dims h
  buffer := data.toArray
  device := device
  bound p hp := by
    rw [Layout.offsets_rowMajor, List.mem_range'_1] at hp
    simpa [len] using hp

section
variable {dims : List Nat} {h : Addressable dims} {data : List α}
  {len : data.length = volume dims} {device : Device}

@[simp] theorem dims_build : (build dims h data len device).dims = dims :=
  Layout.dims_rowMajor dims h

@[simp] theorem device_build : (build dims h data len device).device = device :=
  rfl

@[simp] theorem toList_build : (build dims h data len device).toList = data := by
  have hoff : (build dims h data len device).layout.offsets = List.range' 0 data.length := by
    rw [len]
    exact Layout.offsets_rowMajor dims h
  rw [toList, hoff]
  exact readAll_range' data

end

/-- Every element is `value`. -/
def full (dims : List Nat) (h : Addressable dims) (value : α) : Tensor α :=
  build dims h (List.replicate (volume dims) value) List.length_replicate .cpu

def zeros [Zero α] (dims : List Nat) (h : Addressable dims) : Tensor α :=
  full dims h 0

def ones [One α] (dims : List Nat) (h : Addressable dims) : Tensor α :=
  full dims h 1

/-- A row-major tensor from its elements; the length is checked before the
shape. -/
def ofList (data : List α) (dims : List Nat) : Except TensorError (Tensor α) :=
  if len : data.length = volume dims then
    if h : Addressable dims then .ok (build dims h data len .cpu)
    else .error .addressOverflow
  else .error (.lengthMismatch data.length dims)

/-- The same tensor with another placement tag. -/
def toDevice (t : Tensor α) (device : Device) : Tensor α :=
  { t with device }

/-- A row-major tensor of `t`'s shape and device with other contents. -/
def withContents (t : Tensor α) (data : List β) (len : data.length = t.numel) : Tensor β :=
  build t.dims t.addressable data len t.device

section
variable {t : Tensor α} {data : List β} {len : data.length = t.numel}

@[simp] theorem dims_withContents : (t.withContents data len).dims = t.dims :=
  dims_build

@[simp] theorem device_withContents : (t.withContents data len).device = t.device :=
  rfl

@[simp] theorem toList_withContents : (t.withContents data len).toList = data :=
  toList_build

end

/-- A row-major tensor of `t`'s shape and device, every element `value`. -/
def fullLike (t : Tensor α) (value : β) : Tensor β :=
  t.withContents (List.replicate t.numel value) List.length_replicate

/-- A row-major tensor of zeros of `t`'s shape and device. -/
def zerosLike [Zero β] (t : Tensor α) : Tensor β :=
  t.fullLike 0

@[simp] theorem dims_zerosLike [Zero β] (t : Tensor α) :
    (t.zerosLike : Tensor β).dims = t.dims := by
  show (t.withContents (List.replicate t.numel (0 : β)) List.length_replicate).dims = t.dims
  exact dims_withContents

/-- One axis holding the values of a vector. -/
def ofVector {n : Nat} (v : Vector α n) (h : Addressable [n]) (device : Device) : Tensor α :=
  build [n] h v.toList (by simp) device

/-! ## §4. Writing in place. -/

/-- Replace the elements, in row-major order, keeping layout and device. -/
def overwrite (t : Tensor α) (values : List α) : Tensor α where
  layout := t.layout
  buffer := writeAll t.buffer t.layout.offsets values
  device := t.device
  bound p hp := by
    rw [size_writeAll]
    exact t.bound p hp

@[simp] theorem layout_overwrite (t : Tensor α) (values : List α) :
    (t.overwrite values).layout = t.layout :=
  rfl

@[simp] theorem device_overwrite (t : Tensor α) (values : List α) :
    (t.overwrite values).device = t.device :=
  rfl

/-- What is written is what the tensor then holds. -/
theorem toList_overwrite {t : Tensor α} {values : List α} (h : values.length = t.numel) :
    (t.overwrite values).toList = values := by
  refine readAll_writeAll t.layout.nodup t.bound ?_
  rw [h, Layout.length_offsets]
  rfl

end Tensor

end ChannelNorm

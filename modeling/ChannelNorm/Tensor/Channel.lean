/-
  ChannelNorm.Tensor.Channel
  ──────────────────────────
  **CHANNELS: THE SLICES ALONG AXIS 1.**

  In an input of dimensions `(N, C, …)` channel `c` is the slice of index `c`
  along axis 1.  Its positions are those of the remaining axes, counted from
  `c` strides of axis 1.  Every element belongs to exactly one channel, and a
  channel of a non-empty input has `numel / C` elements.
-/
import ChannelNorm.Tensor.Basic
import ChannelNorm.Tensor.Visit

namespace ChannelNorm

variable {α : Type}

namespace Tensor

/-- Number of channels: the length of axis 1. -/
def channels (t : Tensor α) : Nat :=
  t.dims.getD 1 0

theorem channels_congr {β : Type} {t : Tensor α} {u : Tensor β} (h : t.dims = u.dims) :
    t.channels = u.channels :=
  congrArg (List.getD · 1 0) h

/-- The second dimension counts the channels. -/
theorem channels_of_cons {t : Tensor α} {n c : Nat} {rest : List Nat}
    (h : t.dims = n :: c :: rest) : t.channels = c :=
  congrArg (List.getD · 1 0) h

/-- Number of elements in each channel, zero if there are no channels. -/
def elementsPerChannel (t : Tensor α) : Nat :=
  t.numel / t.channels

/-- The axes of one channel. -/
def planeAxes (t : Tensor α) : List Axis :=
  t.layout.axes.eraseIdx 1

/-- The buffer position where a channel starts. -/
def planeStart (t : Tensor α) (c : Nat) : Nat :=
  c * ((t.layout.axes[1]?).map Axis.stride).getD 0

/-- Buffer positions of a channel in row-major order. -/
def planeOffsets (t : Tensor α) (c : Nat) : List Nat :=
  offsetsFrom t.planeAxes (t.planeStart c)

/-- The elements of a channel in row-major order. -/
def plane (t : Tensor α) (c : Nat) : List α :=
  readAll t.buffer (t.planeOffsets c)

/-- The elements of a channel in the given order of visit. -/
def planeIn (t : Tensor α) (order : VisitOrder) (c : Nat) : List α :=
  readAll t.buffer (order.offsets t.planeAxes (t.planeStart c))

/-- Replace the contents of one channel. -/
def modifyPlane (t : Tensor α) (c : Nat) (f : List α → List α) : Tensor α where
  layout := t.layout
  buffer := writeAll t.buffer (t.planeOffsets c) (f (t.plane c))
  device := t.device
  bound p hp := by
    rw [size_writeAll]
    exact t.bound p hp

/-- One value per channel, as a vector on `t`'s device. -/
def perChannel {β : Type} (t : Tensor α) (v : Vector β t.channels) : Tensor β :=
  .ofVector v (by
    unfold channels
    rw [List.getD_eq_getElem?_getD]
    cases h : t.dims[1]? with
    | none => decide
    | some d => exact addressable_singleton_of_mem (List.mem_of_getElem? h) t.addressable)
    t.device

end Tensor

end ChannelNorm

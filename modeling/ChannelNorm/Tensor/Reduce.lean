/-
  ChannelNorm.Tensor.Reduce
  ─────────────────────────
  **SUMS ALONG ONE AXIS.**

  Summing along an axis leaves one sum per lane, a lane being the elements that
  differ in that axis only.  Lanes are summed in order, except when the axis is
  the one whose stride is smallest and its elements are neighbours: then a lane
  is summed in eight interleaved partial sums.
-/
import ChannelNorm.Scalar.Arith
import ChannelNorm.Tensor.Basic
import ChannelNorm.Tensor.Visit

namespace ChannelNorm

variable {α : Type}

/-! ## §1. Eight interleaved partial sums. -/

/-- Eight running sums; number `j` takes the elements `j, j + 8, j + 16, …`. -/
structure PartialSums (α : Type) where
  (p0 p1 p2 p3 p4 p5 p6 p7 : α)

namespace PartialSums

def start [Zero α] : PartialSums α :=
  ⟨0, 0, 0, 0, 0, 0, 0, 0⟩

/-- The partial sums added up, in pairs four apart. -/
def total [Add α] [Zero α] (p : PartialSums α) : α :=
  0 + (p.p0 + p.p4) + (p.p1 + p.p5) + (p.p2 + p.p6) + (p.p3 + p.p7)

/-- Take full blocks of eight, then add the rest one by one to the total. -/
def consume [Add α] [Zero α] (p : PartialSums α) : List α → α
  | a :: b :: c :: d :: e :: f :: g :: h :: rest =>
      consume ⟨p.p0 + a, p.p1 + b, p.p2 + c, p.p3 + d,
        p.p4 + e, p.p5 + f, p.p6 + g, p.p7 + h⟩ rest
  | rest => rest.foldl (· + ·) p.total

end PartialSums

/-- Sum in eight interleaved partial sums. -/
def sumInterleaved [Add α] [Zero α] (xs : List α) : α :=
  PartialSums.start.consume xs

/-! ## §2. Sums along an axis. -/

/-- The axis of smallest stride; of several the last one. -/
def tightestAxis (axes : List Axis) : Nat :=
  (axes.zipIdx.foldl
    (fun best p => if p.1.stride ≤ best.1 then (p.1.stride, p.2) else best)
    ((axes.map Axis.stride).headD 0, 0)).2

/-- An average along an axis without elements. -/
def TensorError.emptyAverage (dims : List Nat) : TensorError :=
  .invalidShape "mean" "cannot average an empty axis" dims

theorem dimsOf_eraseIdx (axes : List Axis) (axis : Nat) :
    dimsOf (axes.eraseIdx axis) = (dimsOf axes).eraseIdx axis := by
  induction axes generalizing axis with
  | nil => rfl
  | cons a as ih =>
      cases axis with
      | zero => rfl
      | succ axis => simpa [dimsOf] using ih axis

namespace Tensor

/-- A tensor whose buffer holds `data` in the given visiting order. -/
def buildIn (order : VisitOrder) (dims : List Nat) (h : Addressable dims) (data : List α)
    (len : data.length = volume dims) (device : Device) : Tensor α :=
  match order with
  | .rows => build dims h data len device
  | .columns =>
      { layout := .columnMajor dims h
        buffer := data.toArray
        device := device
        bound := fun p hp => by
          have hperm := offsetsFrom_perm (List.reverse_perm (rowMajorAxes dims.reverse)) 0
          have hp := hperm.mem_iff.1 hp
          rw [offsetsFrom_rowMajorAxes, List.mem_range'_1,
            volume_perm (List.reverse_perm dims)] at hp
          simpa [len] using hp }

/-- Sum along one axis, which the result no longer has. -/
def sumAxis [Add α] [Zero α] (t : Tensor α) (axis : Nat) : Tensor α :=
  let summed := t.layout.axes.getD axis ⟨1, 0⟩
  let rest := t.layout.axes.eraseIdx axis
  let lane start := readAll t.buffer ((List.range summed.len).map (start + · * summed.stride))
  -- lanes of the tightest axis are summed one by one, other lanes row by row
  let tight := axis == tightestAxis t.layout.axes
  let order := if tight then jointOrder rest rest else .rows
  -- neighbours are summed interleaved; a lane of one element counts as such
  let sumLane :=
    if tight && (summed.stride == 1 || decide (summed.len ≤ 1)) then sumInterleaved
    else sumInOrder
  buildIn order (t.dims.eraseIdx axis)
    (Nat.le_trans (extent_eraseIdx_le _ _) t.addressable)
    ((order.offsets rest 0).map fun start => sumLane (lane start))
    (by
      rw [List.length_map, (order.offsets_perm rest 0).length_eq, length_offsetsFrom,
        dimsOf_eraseIdx]
      rfl)
    t.device

/-- Average over the leading axis. -/
def averageAxis0 [Arith α] (t : Tensor α) : Tensor α :=
  let sums := t.sumAxis 0
  let n := Arith.ofCount (t.dims.getD 0 0)
  sums.overwrite (sums.toList.map (· / n))

/-- Average over the leading axis, which must not be empty.  A scalar has no
leading axis and no answer. -/
def meanAxis0? [Arith α] (t : Tensor α) : Option (Except TensorError (Tensor α)) :=
  (t.dim? 0).map fun n =>
    if n = 0 then .error (.emptyAverage t.dims) else .ok t.averageAxis0

end Tensor

end ChannelNorm

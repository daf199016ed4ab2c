/-
  ChannelNorm.Tensor.Visit
  ────────────────────────
  **THE ORDER IN WHICH STRIDED ARRAYS ARE VISITED.**

  A sum over two arrays of one shape visits them in the order that suits their
  strides: row-major when both are laid out so, column-major when both are
  transposed, and otherwise whichever the two favour together.  Each array
  gives four hints; an array with at most one axis longer than one is both
  row- and column-major.
-/
import ChannelNorm.Tensor.Layout

namespace ChannelNorm

/-- Last axis fastest, or first axis fastest. -/
inductive VisitOrder where
  | rows
  | columns
  deriving DecidableEq, Repr

namespace VisitOrder

/-- Buffer positions of an array in this order. -/
def offsets : VisitOrder → List Axis → Nat → List Nat
  | .rows, axes, start => offsetsFrom axes start
  | .columns, axes, start => offsetsFrom axes.reverse start

end VisitOrder

/-- What the strides of one array say about the order of a visit. -/
structure VisitHints where
  /-- Laid out in row-major order. -/
  isRows : Bool
  /-- Laid out in column-major order. -/
  isColumns : Bool
  /-- Favours a row-major visit. -/
  favoursRows : Bool
  /-- Favours a column-major visit. -/
  favoursColumns : Bool
  deriving DecidableEq, Repr

namespace VisitHints

/-- Whether an axis is a run of neighbouring elements. -/
def isRun (a : Axis) : Bool :=
  decide (1 < a.len) && a.stride == 1

/-- The hints an array gives, of which is known how long its axes are, which of
them are runs, and when axes are contiguous. -/
def of {γ : Type} (len : γ → Nat) (isRun : γ → Bool) (isContiguous : List γ → Bool)
    (axes : List γ) : VisitHints :=
  if isContiguous axes then
    -- with at most one long axis both orders walk the buffer front to back
    let slim := decide (axes.length ≤ 1) || decide (axes.countP (1 < len ·) ≤ 1)
    ⟨true, slim, true, slim⟩
  -- a strided vector can be visited in one order only
  else if axes.length ≤ 1 then ⟨false, false, false, false⟩
  else if isContiguous axes.reverse then ⟨false, true, false, true⟩
  -- a run is best taken innermost; one along the first axis is looked for first
  else if axes.head?.any isRun then ⟨false, false, false, true⟩
  else if axes.getLast?.any isRun then ⟨false, false, true, false⟩
  else ⟨false, false, false, false⟩

/-- The hints an array of these axes gives. -/
def ofAxes (axes : List Axis) : VisitHints :=
  of Axis.len isRun Layout.contiguousAxes axes

/-- Positive for rows, negative for columns. -/
def tendency (h : VisitHints) : Int :=
  (h.isRows.toNat : Int) - h.isColumns.toNat + h.favoursRows.toNat - h.favoursColumns.toNat

/-- The order in which two arrays with these hints are visited together. -/
def jointOrder (p q : VisitHints) (rank : Nat) : VisitOrder :=
  if p.isRows && q.isRows then .rows
  else if p.isColumns && q.isColumns then .columns
  else if rank = 1 ∨ 0 ≤ p.tendency + q.tendency then .rows
  else .columns

end VisitHints

/-- The order in which two arrays of one shape are visited together. -/
def jointOrder (p q : List Axis) : VisitOrder :=
  (VisitHints.ofAxes p).jointOrder (VisitHints.ofAxes q) p.length

/-- A visit in either order is a visit of the same positions. -/
theorem VisitOrder.offsets_perm (order : VisitOrder) (axes : List Axis) (start : Nat) :
    (order.offsets axes start).Perm (offsetsFrom axes start) := by
  cases order with
  | rows => exact .refl _
  | columns => exact offsetsFrom_perm (List.reverse_perm axes) start

end ChannelNorm

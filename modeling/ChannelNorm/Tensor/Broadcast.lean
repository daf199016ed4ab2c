/-
  ChannelNorm.Tensor.Broadcast
  ────────────────────────────
  **SCALE AND SHIFT WITH STRETCHED OPERANDS.**

  A parameter stretches to a shape when its axes, aligned on the right, each
  have the target's length or length one, and there are no more of them than
  the target has.  Stretching gives an axis of length one the stride zero, so
  that one element serves every index; missing leading axes are such axes too.
-/
import ChannelNorm.Tensor.Reshape

namespace ChannelNorm

variable {α : Type}

/-! ## §1. Stretched axes. -/

/-- The axes of an array read at the dimensions `target`, axis by axis. -/
def stretchAxes? : List Axis → List Nat → Option (List Axis)
  | [], [] => some []
  | a :: as, d :: ds =>
      if a.len = d then (stretchAxes? as ds).map (a :: ·)
      else if a.len = 1 then (stretchAxes? as ds).map (⟨d, 0⟩ :: ·)
      else none
  | _, _ => none

/-- Axes with leading axes of length one added up to `rank` axes. -/
def padAxes (axes : List Axis) (rank : Nat) : List Axis :=
  List.replicate (rank - axes.length) ⟨1, 0⟩ ++ axes

theorem dimsOf_stretchAxes? {axes out : List Axis} {target : List Nat}
    (h : stretchAxes? axes target = some out) : dimsOf out = target := by
  fun_induction stretchAxes? axes target generalizing out with
  | case1 => cases h; rfl
  | case2 a as ds ih =>
      obtain ⟨bs, hbs, rfl⟩ := Option.map_eq_some_iff.1 h
      simp [dimsOf, ← ih hbs]
  | case3 a as d ds _ _ ih =>
      obtain ⟨bs, hbs, rfl⟩ := Option.map_eq_some_iff.1 h
      simp [dimsOf, ← ih hbs]
  | case4 => simp at h
  | case5 => simp at h

/-- A stretched array visits only positions of the array itself. -/
theorem mem_offsetsFrom_of_stretchAxes? {axes out : List Axis} {target : List Nat}
    {start p : Nat} (h : stretchAxes? axes target = some out)
    (hp : p ∈ offsetsFrom out start) : p ∈ offsetsFrom axes start := by
  fun_induction stretchAxes? axes target generalizing out start with
  | case1 => cases h; exact hp
  | case2 a as ds ih =>
      obtain ⟨bs, hbs, rfl⟩ := Option.map_eq_some_iff.1 h
      simp only [offsetsFrom_cons, List.mem_flatMap] at hp ⊢
      obtain ⟨i, hi, hp⟩ := hp
      exact ⟨i, hi, ih hbs hp⟩
  | case3 a as d ds _ hone ih =>
      obtain ⟨bs, hbs, rfl⟩ := Option.map_eq_some_iff.1 h
      simp only [offsetsFrom_cons, List.mem_flatMap, List.mem_range] at hp ⊢
      obtain ⟨i, _, hp⟩ := hp
      exact ⟨0, by omega, ih hbs (by simpa using hp)⟩
  | case4 => simp at h
  | case5 => simp at h

theorem offsetsFrom_padAxes (axes : List Axis) (rank start : Nat) :
    offsetsFrom (padAxes axes rank) start = offsetsFrom axes start := by
  have pad : ∀ n s, offsetsFrom (List.replicate n ⟨1, 0⟩ ++ axes) s = offsetsFrom axes s := by
    intro n
    induction n with
    | zero => intro s; rfl
    | succ n ih =>
        intro s
        rw [List.replicate_succ, List.cons_append, offsetsFrom_cons]
        simpa using ih s
  exact pad _ start

/-! ## §2. Elementwise operations with a stretched operand. -/

/-- A parameter that does not stretch to the shape it is applied to. -/
def TensorError.notBroadcastable (target dims : List Nat) : TensorError :=
  .shapeMismatch "affine" (Shape.mk target).text (Shape.mk dims).text

namespace Tensor

/-- The elements of `t` stretched to the shape `target`, in row-major order. -/
def broadcast? (t : Tensor α) (target : List Nat) : Option (Vector α (volume target)) :=
  match h : stretchAxes? (padAxes t.layout.axes target.length) target with
  | none => none
  | some axes =>
      some ⟨(readAll t.buffer (offsetsFrom axes 0)).toArray, by
        rw [List.size_toArray, length_readAll, length_offsetsFrom, dimsOf_stretchAxes? h]
        intro p hp
        have := mem_offsetsFrom_of_stretchAxes? h hp
        rw [offsetsFrom_padAxes] at this
        exact t.bound p this⟩

/-- Combine every element, in place, with the matching element of an operand
stretched to `t`'s shape; an absent operand changes nothing. -/
def combine (t : Tensor α) (f : α → α → α) :
    Option (Tensor α) → Except TensorError (Tensor α)
  | none => .ok t
  | some operand =>
      match operand.broadcast? t.dims with
      | none => .error (.notBroadcastable t.dims operand.dims)
      | some values => .ok (t.overwrite (List.zipWith f t.toList values.toList))

/-- `t * scale + shift`, both operands stretched to `t`'s shape; the result is
contiguous. -/
def affine [Mul α] [Add α] (t : Tensor α) (scale shift : Option (Tensor α)) :
    Except TensorError (Tensor α) := do
  let scaled ← t.contiguous.combine (· * ·) scale
  scaled.combine (· + ·) shift

end Tensor

end ChannelNorm

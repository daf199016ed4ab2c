/-
  ChannelNorm.Tensor.Layout
  ─────────────────────────
  **STRIDED LAYOUTS.**

  A layout lists the axes of a tensor, outermost first, each with its length
  and its stride in the buffer.  `offsetsFrom` lists the buffer positions of
  all elements in row-major order, that is with the last axis running fastest.
  Two rules about it carry everything else:

      offsetsFrom (rowMajorAxes dims) b  =  range' b (volume dims)
      as ~ bs  →  offsetsFrom as b ~ offsetsFrom bs b

  The first says that a row-major tensor fills its buffer from the front, the
  second that reordering axes only reorders the visit.  A `Layout` is a list of
  axes that never visits a position twice and whose dimensions can be
  addressed; every operation below keeps both.

  Strides run forward from position 0.  An array in memory that runs an axis
  backward, or starts elsewhere, reads as a tensor with such a layout: it has its
  contents, its contiguity and its order of visit (`StridedArray.reads_reading`).
-/
import ChannelNorm.Shape

namespace ChannelNorm

/-- One axis of a strided array. -/
structure Axis where
  len : Nat
  stride : Nat
  deriving DecidableEq, Repr

/-! ## §1. Buffer positions in row-major order. -/

/-- The dimensions of a list of axes. -/
def dimsOf (axes : List Axis) : List Nat :=
  axes.map Axis.len

/-- The position of each index, with the last axis running fastest. -/
def positionsFrom : List Axis → Nat → List Nat
  | [], start => [start]
  | a :: as, start =>
      (List.range a.len).flatMap fun i => positionsFrom as (start + i * a.stride)

/-- The buffer positions of an array whose first element is at `start`, with
the last axis running fastest.  An array without elements has none, and its
axes are not walked, however long some of them are. -/
def offsetsFrom (axes : List Axis) (start : Nat) : List Nat :=
  if volume (dimsOf axes) = 0 then [] else positionsFrom axes start

/-- Axes of a row-major array: each stride is the size of what is inside. -/
def rowMajorAxes : List Nat → List Axis
  | [] => []
  | d :: ds => ⟨d, volume ds⟩ :: rowMajorAxes ds

@[simp] theorem dimsOf_rowMajorAxes (dims : List Nat) :
    dimsOf (rowMajorAxes dims) = dims := by
  induction dims with
  | nil => rfl
  | cons d ds ih => simpa [dimsOf, rowMajorAxes] using ih

/-- Blocks of equal length laid end to end. -/
theorem length_flatMap_const {α β : Type} (xs : List α) (f : α → List β) {c : Nat}
    (h : ∀ x, (f x).length = c) : (xs.flatMap f).length = xs.length * c := by
  induction xs with
  | nil => rw [List.flatMap_nil, List.length_nil, List.length_nil, Nat.zero_mul]
  | cons x xs ih =>
      rw [List.flatMap_cons, List.length_append, h, ih, List.length_cons, Nat.succ_mul,
        Nat.add_comm]

theorem length_positionsFrom (axes : List Axis) (start : Nat) :
    (positionsFrom axes start).length = volume (dimsOf axes) := by
  induction axes generalizing start with
  | nil => rfl
  | cons a as ih =>
      rw [positionsFrom, length_flatMap_const _ _ fun i => ih _, List.length_range]
      rfl

/-- Walking the axes finds every position, and none if there are no elements. -/
theorem offsetsFrom_eq_positionsFrom (axes : List Axis) (start : Nat) :
    offsetsFrom axes start = positionsFrom axes start := by
  unfold offsetsFrom
  split
  next h => exact (List.length_eq_zero_iff.1 ((length_positionsFrom axes start).trans h)).symm
  next => rfl

@[simp] theorem offsetsFrom_nil (start : Nat) : offsetsFrom [] start = [start] :=
  offsetsFrom_eq_positionsFrom [] start

/-- The positions of an array are those of its slices along the first axis. -/
theorem offsetsFrom_cons (a : Axis) (as : List Axis) (start : Nat) :
    offsetsFrom (a :: as) start
      = (List.range a.len).flatMap fun i => offsetsFrom as (start + i * a.stride) := by
  simp only [offsetsFrom_eq_positionsFrom, positionsFrom]

/-- An array visits as many positions as it has elements. -/
@[simp] theorem length_offsetsFrom (axes : List Axis) (start : Nat) :
    (offsetsFrom axes start).length = volume (dimsOf axes) := by
  rw [offsetsFrom_eq_positionsFrom, length_positionsFrom]

theorem flatMap_range'_blocks (n b p : Nat) :
    ((List.range n).flatMap fun i => List.range' (b + i * p) p) = List.range' b (n * p) := by
  induction n with
  | zero => simp
  | succ n ih =>
      rw [List.range_succ, List.flatMap_append, ih]
      simp [Nat.succ_mul, List.range'_append_1]

/-- A row-major array fills its buffer from the front. -/
theorem offsetsFrom_rowMajorAxes (dims : List Nat) (start : Nat) :
    offsetsFrom (rowMajorAxes dims) start = List.range' start (volume dims) := by
  induction dims generalizing start with
  | nil => exact offsetsFrom_nil start
  | cons d ds ih =>
      simp only [rowMajorAxes, offsetsFrom_cons, ih, volume_cons]
      exact flatMap_range'_blocks d start (volume ds)

/-! ## §2. Reordering the axes reorders the visit. -/

theorem perm_flatMap_of_forall {α β : Type} (xs : List α) {f g : α → List β}
    (h : ∀ x, (f x).Perm (g x)) : (xs.flatMap f).Perm (xs.flatMap g) := by
  induction xs with
  | nil => exact .refl _
  | cons x xs ih => simpa using (h x).append ih

theorem flatMap_append_perm {α β : Type} (xs : List α) (f g : α → List β) :
    (xs.flatMap fun x => f x ++ g x).Perm (xs.flatMap f ++ xs.flatMap g) := by
  induction xs with
  | nil => exact .refl _
  | cons x xs ih =>
      simp only [List.flatMap_cons, List.append_assoc]
      refine .append_left _ ?_
      refine (List.Perm.append_left _ ih).trans ?_
      rw [← List.append_assoc, ← List.append_assoc]
      exact .append_right _ List.perm_append_comm

/-- Two nested visits may be exchanged. -/
theorem flatMap_swap_perm {α β γ : Type} (xs : List α) (ys : List β) (f : α → β → List γ) :
    (xs.flatMap fun x => ys.flatMap (f x)).Perm
      (ys.flatMap fun y => xs.flatMap fun x => f x y) := by
  induction xs with
  | nil => simp
  | cons x xs ih =>
      simp only [List.flatMap_cons]
      exact (List.Perm.append_left _ ih).trans (flatMap_append_perm ys (f x) _).symm

theorem offsetsFrom_perm {as bs : List Axis} (h : as.Perm bs) (start : Nat) :
    (offsetsFrom as start).Perm (offsetsFrom bs start) := by
  induction h generalizing start with
  | nil => exact .refl _
  | cons a _ ih =>
      rw [offsetsFrom_cons, offsetsFrom_cons]
      exact perm_flatMap_of_forall _ fun _ => ih _
  | swap a b as =>
      simp only [offsetsFrom_cons]
      refine (flatMap_swap_perm _ _ _).trans ?_
      refine perm_flatMap_of_forall _ fun i => perm_flatMap_of_forall _ fun j => ?_
      rw [Nat.add_right_comm]
  | trans _ _ ih₁ ih₂ => exact (ih₁ start).trans (ih₂ start)

/-! ## §3. Keeping every k-th index of an axis. -/

/-- The axis of the indices `0, k, 2k, …`.  An axis of at most one index takes
no steps, and its stride is zero. -/
def Axis.everyNth (a : Axis) (k : Nat) : Axis :=
  let len := (a.len + k - 1) / k
  { len := len, stride := if len ≤ 1 then 0 else a.stride * k }

theorem multiples_sublist_range (k n m : Nat) (hk : 0 < k) (h : m = 0 ∨ (m - 1) * k < n) :
    ((List.range m).map (· * k)).Sublist (List.range n) := by
  induction m generalizing n with
  | zero => simp
  | succ m ih =>
      have hm : m * k < n := by simpa using h
      have hpre : ((List.range m).map (· * k)).Sublist (List.range (m * k)) := by
        refine ih (m * k) ?_
        cases m with
        | zero => exact .inl rfl
        | succ m => exact .inr (by simp [Nat.succ_mul]; omega)
      rw [List.range_succ, List.map_append]
      have hsplit : List.range n = List.range (m * k) ++ List.range' (m * k) (n - m * k) := by
        have happ := List.range'_append_1 (s := 0) (m := m * k) (n := n - m * k)
        rw [Nat.zero_add, Nat.add_sub_cancel' (Nat.le_of_lt hm)] at happ
        rw [List.range_eq_range', List.range_eq_range', happ]
      rw [hsplit]
      refine hpre.append ?_
      obtain ⟨r, hr⟩ : ∃ r, n - m * k = r + 1 := ⟨n - m * k - 1, by omega⟩
      simp [hr, List.range'_succ]

theorem flatMap_sublist {α β : Type} {xs ys : List α} (h : xs.Sublist ys) (f : α → List β) :
    (xs.flatMap f).Sublist (ys.flatMap f) := by
  induction h with
  | slnil => exact .refl _
  | cons y _ ih =>
      rw [List.flatMap_cons]
      exact ih.trans (List.sublist_append_right _ _)
  | cons_cons y _ ih =>
      rw [List.flatMap_cons, List.flatMap_cons]
      exact (List.Sublist.refl _).append ih

theorem flatMap_sublist_of_forall {α β : Type} (xs : List α) {f g : α → List β}
    (h : ∀ x, (f x).Sublist (g x)) : (xs.flatMap f).Sublist (xs.flatMap g) := by
  induction xs with
  | nil => exact .refl _
  | cons x xs ih => simpa using (h x).append ih

theorem Axis.everyNth_len_lt (a : Axis) {k : Nat} (hk : 0 < k) :
    (a.everyNth k).len = 0 ∨ ((a.everyNth k).len - 1) * k < a.len := by
  rcases Nat.eq_zero_or_pos a.len with h | h
  · left
    simp only [Axis.everyNth, h, Nat.zero_add]
    exact Nat.div_eq_of_lt (by omega)
  · right
    have hdiv : (a.len + k - 1) / k = (a.len - 1) / k + 1 := by
      rw [show a.len + k - 1 = (a.len - 1) + k by omega, Nat.add_div_right _ hk]
    simp only [Axis.everyNth, hdiv, Nat.add_sub_cancel]
    have := Nat.div_mul_le_self (a.len - 1) k
    omega

/-- Positions kept by dropping indices of one axis are visited in the same
order as before. -/
theorem offsetsFrom_everyNth_sublist (axes : List Axis) (axis k start : Nat) (hk : 0 < k) :
    (offsetsFrom (axes.modify axis (·.everyNth k)) start).Sublist (offsetsFrom axes start) := by
  induction axes generalizing axis start with
  | nil => simp
  | cons a as ih =>
      cases axis with
      | succ axis =>
          simp only [List.modify_succ_cons, offsetsFrom_cons]
          exact flatMap_sublist_of_forall _ fun i => ih axis _
      | zero =>
          simp only [List.modify_zero_cons, offsetsFrom_cons]
          have hstep : ∀ j, j ∈ List.range (a.everyNth k).len →
              j * (a.everyNth k).stride = j * k * a.stride := by
            intro j hj
            have hj := List.mem_range.1 hj
            simp only [Axis.everyNth] at hj ⊢
            split
            · have : j = 0 := by omega
              simp [this]
            · rw [Nat.mul_comm a.stride, Nat.mul_assoc]
          have hmap : ((List.range (a.everyNth k).len).flatMap fun j =>
                offsetsFrom as (start + j * (a.everyNth k).stride))
              = ((List.range (a.everyNth k).len).map (· * k)).flatMap fun i =>
                offsetsFrom as (start + i * a.stride) := by
            rw [List.flatMap_map]
            rw [List.flatMap_def, List.flatMap_def]
            refine congrArg List.flatten (List.map_congr_left fun j hj => ?_)
            rw [hstep j hj]
          rw [hmap]
          exact flatMap_sublist (multiples_sublist_range k a.len _ hk (a.everyNth_len_lt hk)) _

/-! ## §4. Addressable dimensions. -/

/-- Product of the dimensions other than zero: the extent of an array before a
zero dimension empties it. -/
def extent (dims : List Nat) : Nat :=
  volume (dims.filter (· != 0))

/-- The largest extent that fits a signed 64-bit offset. -/
def maxExtent : Nat :=
  0x7fffffffffffffff

/-- The extent fits a signed 64-bit offset. -/
def Addressable (dims : List Nat) : Prop :=
  extent dims ≤ maxExtent

instance (dims : List Nat) : Decidable (Addressable dims) :=
  inferInstanceAs (Decidable (_ ≤ _))

theorem extent_cons (d : Nat) (ds : List Nat) :
    extent (d :: ds) = (if d = 0 then 1 else d) * extent ds := by
  by_cases h : d = 0 <;> simp [extent, h]

theorem extent_pos (dims : List Nat) : 0 < extent dims := by
  induction dims with
  | nil => simp [extent]
  | cons d ds ih =>
      rw [extent_cons]
      split
      · simpa using ih
      · exact Nat.mul_pos (by omega) ih

theorem extent_perm {ds es : List Nat} (h : ds.Perm es) : extent ds = extent es := by
  induction h with
  | nil => rfl
  | cons d _ ih => rw [extent_cons, extent_cons, ih]
  | swap d e ds => simp only [extent_cons]; rw [Nat.mul_left_comm]
  | trans _ _ ih₁ ih₂ => rw [ih₁, ih₂]

/-- Without a zero dimension the extent is the number of elements. -/
theorem volume_le_extent (dims : List Nat) : volume dims ≤ extent dims := by
  induction dims with
  | nil => exact Nat.le_refl _
  | cons d ds ih =>
      rw [extent_cons, volume_cons]
      split
      · simp [*]
      · exact Nat.mul_le_mul_left _ ih

theorem le_extent_of_mem {d : Nat} {dims : List Nat} (h : d ∈ dims) : d ≤ extent dims := by
  induction dims with
  | nil => simp at h
  | cons e es ih =>
      rw [extent_cons]
      rcases List.mem_cons.1 h with rfl | h
      · have := extent_pos es
        split
        · omega
        · exact Nat.le_mul_of_pos_right _ this
      · refine Nat.le_trans (ih h) (Nat.le_mul_of_pos_left _ ?_)
        split <;> omega

theorem extent_modify_le (axes : List Axis) (axis k : Nat) (hk : 0 < k) :
    extent (dimsOf (axes.modify axis (·.everyNth k))) ≤ extent (dimsOf axes) := by
  induction axes generalizing axis with
  | nil => simp
  | cons a as ih =>
      cases axis with
      | succ axis =>
          simp only [List.modify_succ_cons, dimsOf, List.map_cons, extent_cons]
          exact Nat.mul_le_mul_left _ (ih axis)
      | zero =>
          simp only [List.modify_zero_cons, dimsOf, List.map_cons, extent_cons]
          refine Nat.mul_le_mul_right _ ?_
          have h := a.everyNth_len_lt hk
          split <;> split <;> try omega
          have : (a.everyNth k).len - 1 ≤ ((a.everyNth k).len - 1) * k :=
            Nat.le_mul_of_pos_right _ hk
          omega

theorem extent_eraseIdx_le (dims : List Nat) (axis : Nat) :
    extent (dims.eraseIdx axis) ≤ extent dims := by
  induction dims generalizing axis with
  | nil => simp
  | cons d ds ih =>
      have hd : 1 ≤ if d = 0 then 1 else d := by split <;> omega
      cases axis with
      | zero =>
          rw [List.eraseIdx_cons_zero, extent_cons]
          exact Nat.le_mul_of_pos_left _ hd
      | succ axis =>
          rw [List.eraseIdx_cons_succ, extent_cons, extent_cons]
          exact Nat.mul_le_mul_left _ (ih axis)

/-- The dimension of one axis is addressable by itself. -/
theorem addressable_singleton_of_mem {d : Nat} {dims : List Nat} (h : d ∈ dims)
    (ha : Addressable dims) : Addressable [d] := by
  have hle : d ≤ extent dims := le_extent_of_mem h
  have hone : 1 ≤ maxExtent := by decide
  have hext : extent [d] = if d = 0 then 1 else d := by
    rw [extent_cons]
    exact Nat.mul_one _
  unfold Addressable at ha ⊢
  rw [hext]
  split
  · exact hone
  · exact Nat.le_trans hle ha

/-! ## §5. Layouts. -/

/-- Axes that visit no buffer position twice and whose dimensions can be
addressed. -/
structure Layout where
  axes : List Axis
  nodup : (offsetsFrom axes 0).Nodup
  addressable : Addressable (dimsOf axes)

namespace Layout

/-- Axis lengths, outermost first. -/
def dims (l : Layout) : List Nat :=
  dimsOf l.axes

/-- Number of axes. -/
def rank (l : Layout) : Nat :=
  l.axes.length

/-- Buffer positions in row-major order. -/
def offsets (l : Layout) : List Nat :=
  offsetsFrom l.axes 0

@[simp] theorem length_offsets (l : Layout) : l.offsets.length = volume l.dims :=
  length_offsetsFrom _ _

@[simp] theorem length_dims (l : Layout) : l.dims.length = l.rank := by
  simp [dims, dimsOf, rank]

/-- The layout that fills a buffer from the front in row-major order. -/
def rowMajor (dims : List Nat) (h : Addressable dims) : Layout where
  axes := rowMajorAxes dims
  nodup := by
    rw [offsetsFrom_rowMajorAxes]
    exact List.nodup_range' 1
  addressable := by simpa using h

@[simp] theorem dims_rowMajor (dims : List Nat) (h : Addressable dims) :
    (rowMajor dims h).dims = dims :=
  dimsOf_rowMajorAxes dims

theorem offsets_rowMajor (dims : List Nat) (h : Addressable dims) :
    (rowMajor dims h).offsets = List.range' 0 (volume dims) :=
  offsetsFrom_rowMajorAxes dims 0

/-- The same positions with the axes in another order. -/
def reorder (l : Layout) (axes : List Axis) (h : axes.Perm l.axes) : Layout where
  axes := axes
  nodup := (offsetsFrom_perm h 0).nodup_iff.2 l.nodup
  addressable := by
    have : extent (dimsOf axes) = extent (dimsOf l.axes) := extent_perm (h.map _)
    unfold Addressable
    rw [this]
    exact l.addressable

theorem filterMap_getElem?_range {α : Type} (xs : List α) :
    (List.range xs.length).filterMap (xs[·]?) = xs := by
  induction xs with
  | nil => rfl
  | cons x xs ih =>
      rw [List.length_cons, List.range_succ_eq_map, List.filterMap_cons]
      simpa [List.filterMap_map, Function.comp_def] using ih

/-- Axis `i` of the result is axis `order[i]`, for a permutation `order` of the
axis numbers. -/
def permute (l : Layout) (order : List Nat) (h : order.isPerm (List.range l.rank) = true) :
    Layout :=
  l.reorder (order.filterMap (l.axes[·]?)) <| by
    have := (List.isPerm_iff.1 h).filterMap (l.axes[·]?)
    rwa [rank, filterMap_getElem?_range] at this

/-- The axes in reverse order. -/
def transpose (l : Layout) : Layout :=
  l.reorder l.axes.reverse (List.reverse_perm _)

/-- The layout that fills a buffer from the front with the first axis running
fastest. -/
def columnMajor (dims : List Nat) (h : Addressable dims) : Layout :=
  (rowMajor dims.reverse (by
    unfold Addressable
    rw [extent_perm (List.reverse_perm dims)]
    exact h)).transpose

/-- Indices `0, k, 2k, …` of one axis. -/
def everyNth (l : Layout) (axis k : Nat) (hk : 0 < k) : Layout where
  axes := l.axes.modify axis (·.everyNth k)
  nodup := (offsetsFrom_everyNth_sublist l.axes axis k 0 hk).nodup l.nodup
  addressable := Nat.le_trans (extent_modify_le l.axes axis k hk) l.addressable

/-! ## §6. Contiguity. -/

/-- Whether strides are those of row-major order, the strides of axes of length
one not mattering. -/
def hasRowMajorStrides : List Axis → Bool
  | [] => true
  | a :: as => (a.len == 1 || a.stride == volume (dimsOf as)) && hasRowMajorStrides as

/-- Whether the axes of an array are contiguous in row-major order; an array
without elements always is. -/
def contiguousAxes (axes : List Axis) : Bool :=
  axes.any (·.len == 0) || hasRowMajorStrides axes

/-- Whether the elements fill the front of the buffer in row-major order. -/
def isContiguous (l : Layout) : Bool :=
  contiguousAxes l.axes

/-! ## §7. One position. -/

/-- The buffer position of an index, if it has one in-range coordinate per
axis. -/
def offsetOf? : List Axis → List Nat → Option Nat
  | [], [] => some 0
  | a :: as, i :: is =>
      if i < a.len then (offsetOf? as is).map (i * a.stride + ·) else none
  | _, _ => none

end Layout

end ChannelNorm

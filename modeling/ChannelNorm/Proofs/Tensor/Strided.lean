/-
  ChannelNorm.Proofs.Tensor.Strided
  ─────────────────────────────────
  **ARRAYS AS THEY LIE IN MEMORY.**

  An array is a buffer, the position of its first element and a stride for each
  axis.  A stride may be negative, and the first element may lie anywhere: views
  that run an axis backwards, or leave the front out, are arrays like any other.
  All that is asked is that every index has an element inside the buffer and no
  two indices share one.  Then, whatever the strides,

      a.get? i  =  a.toList[flatIndex a.dims i]?        for the indices of `a`
      a.asSlice?  =  some a.toList.toArray              if strides are row-major
      (a.overwrite xs).toList  =  xs                    for as many as there are

  The array of a tensor is such an array, with strides that are not negative, and
  what is done with it is done with the tensor.
-/
import ChannelNorm.Proofs.Tensor.Buffer
import ChannelNorm.Proofs.Tensor.Slice
import ChannelNorm.Tensor.Broadcast

namespace ChannelNorm

variable {α : Type}

/-! ## §1. Axes with signed strides. -/

/-- One axis of an array in memory. -/
structure SignedAxis where
  len : Nat
  stride : Int
  deriving DecidableEq, Repr

/-- The dimensions of a list of axes. -/
def lensOf (axes : List SignedAxis) : List Nat :=
  axes.map SignedAxis.len

/-- How far the element of an index lies from the first one. -/
def displacementOf : List SignedAxis → List Nat → Int
  | a :: as, i :: is => i * a.stride + displacementOf as is
  | _, _ => 0

/-- The same, for an index that must have one in-range coordinate per axis. -/
def displacementOf? : List SignedAxis → List Nat → Option Int
  | [], [] => some 0
  | a :: as, i :: is =>
      if i < a.len then (displacementOf? as is).map (i * a.stride + ·) else none
  | _, _ => none

theorem displacementOf?_of_mem {axes : List SignedAxis} {i : List Nat}
    (h : i ∈ indicesOf (lensOf axes)) :
    displacementOf? axes i = some (displacementOf axes i) := by
  induction axes generalizing i with
  | nil =>
      rw [mem_indicesOf_nil.1 h]
      rfl
  | cons a as ih =>
      obtain ⟨j, js, rfl, hj, hjs⟩ := exists_cons_of_mem_indicesOf h
      show (if j < a.len then (displacementOf? as js).map (j * a.stride + ·) else none) = _
      rw [if_pos hj, ih hjs]
      rfl

theorem displacementOf?_of_notMem {axes : List SignedAxis} {i : List Nat}
    (h : i ∉ indicesOf (lensOf axes)) : displacementOf? axes i = none := by
  fun_induction displacementOf? axes i with
  | case1 => exact absurd (mem_indicesOf_nil.2 rfl) h
  | case2 a as j js hj ih =>
      have hjs : js ∉ indicesOf (lensOf as) := fun hjs => h (cons_mem_indicesOf.2 ⟨hj, hjs⟩)
      rw [ih hjs]
      rfl
  | case3 => rfl
  | case4 => rfl

/-- Whether strides are those of row-major order, the strides of axes of length
one not mattering. -/
def hasRowMajorSteps : List SignedAxis → Bool
  | [] => true
  | a :: as => (a.len == 1 || a.stride == volume (lensOf as)) && hasRowMajorSteps as

/-- Whether axes lay the elements side by side in row-major order; an array
without elements always counts as laid so. -/
def standardAxes (axes : List SignedAxis) : Bool :=
  axes.any (·.len == 0) || hasRowMajorSteps axes

/-- With row-major strides an element lies as far out as its place in the
contents. -/
theorem displacementOf_of_hasRowMajorSteps {axes : List SignedAxis}
    (h : hasRowMajorSteps axes = true) {i : List Nat} (hi : i ∈ indicesOf (lensOf axes)) :
    displacementOf axes i = flatIndex (lensOf axes) i := by
  induction axes generalizing i with
  | nil =>
      rw [mem_indicesOf_nil.1 hi]
      rfl
  | cons a as ih =>
      unfold hasRowMajorSteps at h
      obtain ⟨ha, has⟩ := Bool.and_eq_true_iff.1 h
      obtain ⟨j, js, rfl, hj, hjs⟩ := exists_cons_of_mem_indicesOf hi
      have hflat : flatIndex (lensOf (a :: as)) (j :: js)
          = j * volume (lensOf as) + flatIndex (lensOf as) js := rfl
      show j * a.stride + displacementOf as js = _
      rw [ih has hjs, hflat, Nat.cast_add, Nat.cast_mul]
      rw [Bool.or_eq_true, beq_iff_eq, beq_iff_eq] at ha
      rcases ha with hone | hstride
      · -- the only coordinate on an axis of length one is zero
        have hzero : j = 0 := by omega
        rw [hzero, Nat.cast_zero, zero_mul, zero_mul]
      · rw [hstride]

/-- An array without elements has no index. -/
theorem indicesOf_eq_nil {dims : List Nat} (h : volume dims = 0) : indicesOf dims = [] :=
  List.length_eq_zero_iff.1 ((length_indicesOf dims).trans h)

/-- `f` sends every index of the axes `as` to one of `bs` with the same element, and
no two of them to one. -/
structure Reindexes (f : List Nat → List Nat) (as bs : List SignedAxis) : Prop where
  mem : ∀ i ∈ indicesOf (lensOf as), f i ∈ indicesOf (lensOf bs)
  displacement : ∀ i ∈ indicesOf (lensOf as), displacementOf bs (f i) = displacementOf as i
  injOn : ∀ i ∈ indicesOf (lensOf as), ∀ j ∈ indicesOf (lensOf as), f i = f j → i = j

namespace Reindexes

variable {f g : List Nat → List Nat} {as bs cs : List SignedAxis}

theorem refl (as : List SignedAxis) : Reindexes id as as where
  mem _ hi := hi
  displacement _ _ := rfl
  injOn _ _ _ _ h := h

/-- An outer axis and its coordinate stay in front. -/
theorem cons (h : Reindexes f as bs) (a : SignedAxis) :
    Reindexes (fun i => i.headD 0 :: f i.tail) (a :: as) (a :: bs) where
  mem i hi := by
    obtain ⟨x, xs, rfl, hx, hxs⟩ := exists_cons_of_mem_indicesOf hi
    exact cons_mem_indicesOf.2 ⟨hx, h.mem xs hxs⟩
  displacement i hi := by
    obtain ⟨x, xs, rfl, _, hxs⟩ := exists_cons_of_mem_indicesOf hi
    show x * a.stride + displacementOf bs (f xs) = x * a.stride + displacementOf as xs
    rw [h.displacement xs hxs]
  injOn i hi j hj hij := by
    obtain ⟨x, xs, rfl, _, hxs⟩ := exists_cons_of_mem_indicesOf hi
    obtain ⟨y, ys, rfl, _, hys⟩ := exists_cons_of_mem_indicesOf hj
    obtain ⟨hhead, htail⟩ := List.cons.inj hij
    rw [show x = y from hhead, h.injOn xs hxs ys hys htail]

/-- The two outer axes change places, and so do their coordinates. -/
theorem swap (a b : SignedAxis) (as : List SignedAxis) :
    Reindexes (fun i => i.tail.headD 0 :: i.headD 0 :: i.tail.tail) (b :: a :: as)
      (a :: b :: as) where
  mem i hi := by
    obtain ⟨x, i', rfl, hx, hi'⟩ := exists_cons_of_mem_indicesOf hi
    obtain ⟨y, xs, rfl, hy, hxs⟩ := exists_cons_of_mem_indicesOf hi'
    exact cons_mem_indicesOf.2 ⟨hy, cons_mem_indicesOf.2 ⟨hx, hxs⟩⟩
  displacement i hi := by
    obtain ⟨x, i', rfl, _, hi'⟩ := exists_cons_of_mem_indicesOf hi
    obtain ⟨y, xs, rfl, _, _⟩ := exists_cons_of_mem_indicesOf hi'
    show y * a.stride + (x * b.stride + displacementOf as xs)
      = x * b.stride + (y * a.stride + displacementOf as xs)
    exact add_left_comm _ _ _
  injOn i hi j hj hij := by
    obtain ⟨x, i', rfl, _, hi'⟩ := exists_cons_of_mem_indicesOf hi
    obtain ⟨y, xs, rfl, _, _⟩ := exists_cons_of_mem_indicesOf hi'
    obtain ⟨z, j', rfl, _, hj'⟩ := exists_cons_of_mem_indicesOf hj
    obtain ⟨w, zs, rfl, _, _⟩ := exists_cons_of_mem_indicesOf hj'
    obtain ⟨hyw, hrest⟩ := List.cons.inj hij
    obtain ⟨hxz, hxs⟩ := List.cons.inj hrest
    rw [show x = z from hxz, show y = w from hyw, show xs = zs from hxs]

theorem trans (hf : Reindexes f as bs) (hg : Reindexes g bs cs) : Reindexes (g ∘ f) as cs where
  mem i hi := hg.mem _ (hf.mem i hi)
  displacement i hi := (hg.displacement _ (hf.mem i hi)).trans (hf.displacement i hi)
  injOn i hi j hj hij :=
    hf.injOn i hi j hj (hg.injOn _ (hf.mem i hi) _ (hf.mem j hj) hij)

end Reindexes

/-- Reordered axes reach the same elements, each at an index of its own. -/
theorem exists_reindexes {as bs : List SignedAxis} (h : as.Perm bs) : ∃ f, Reindexes f as bs := by
  -- on how the axes are reordered; coordinates go along with their axes
  induction h with
  | nil => exact ⟨id, .refl []⟩
  | cons a _ ih =>
      obtain ⟨f, hf⟩ := ih
      exact ⟨_, hf.cons a⟩
  | swap a b as => exact ⟨_, .swap a b as⟩
  | trans _ _ ih₁ ih₂ =>
      obtain ⟨f, hf⟩ := ih₁
      obtain ⟨g, hg⟩ := ih₂
      exact ⟨g ∘ f, hf.trans hg⟩

/-! ## §2. Arrays. -/

/-- An array in memory: every index has an element inside the buffer, and no two
indices share one. -/
@[ext] structure StridedArray (α : Type) where
  axes : List SignedAxis
  start : Nat
  buffer : Array α
  bound : ∀ i ∈ indicesOf (lensOf axes),
    0 ≤ start + displacementOf axes i ∧ start + displacementOf axes i < buffer.size
  apart : ∀ i ∈ indicesOf (lensOf axes), ∀ j ∈ indicesOf (lensOf axes),
    displacementOf axes i = displacementOf axes j → i = j
  addressable : Addressable (lensOf axes)

namespace StridedArray

/-- Axis lengths, outermost first. -/
def dims (a : StridedArray α) : List Nat :=
  lensOf a.axes

/-- Number of axes. -/
def rank (a : StridedArray α) : Nat :=
  a.axes.length

/-- The position of the element of an index. -/
def positionAt (a : StridedArray α) (i : List Nat) : Nat :=
  (a.start + displacementOf a.axes i).toNat

/-- The positions of the elements in row-major order. -/
def positions (a : StridedArray α) : List Nat :=
  (indicesOf a.dims).map a.positionAt

/-- The elements in row-major order. -/
def toList (a : StridedArray α) : List α :=
  readAll a.buffer a.positions

/-- The element of an index, if it has one in-range coordinate per axis. -/
def get? (a : StridedArray α) (index : List Nat) : Option α :=
  (displacementOf? a.axes index).bind fun d => a.buffer[(a.start + d).toNat]?

/-- Whether the elements lie side by side in row-major order. -/
def isStandard (a : StridedArray α) : Bool :=
  standardAxes a.axes

/-- The stretch of the buffer the elements take up, if they lie side by side. -/
def asSlice? (a : StridedArray α) : Option (Array α) :=
  if a.isStandard then some (a.buffer.extract a.start (a.start + volume a.dims)) else none

section
variable (a : StridedArray α)

theorem length_dims : a.dims.length = a.rank :=
  List.length_map _

theorem positionAt_lt {i : List Nat} (h : i ∈ indicesOf a.dims) :
    a.positionAt i < a.buffer.size := by
  have hb := a.bound i h
  unfold positionAt
  omega

theorem positions_lt : ∀ p ∈ a.positions, p < a.buffer.size := by
  intro p hp
  obtain ⟨i, hi, rfl⟩ := List.mem_map.1 hp
  exact a.positionAt_lt hi

theorem nodup_positions : a.positions.Nodup := by
  refine (nodup_indicesOf a.dims).map_on fun i hi j hj hij => a.apart i hi j hj ?_
  have hbi := a.bound i hi
  have hbj := a.bound j hj
  unfold positionAt at hij
  omega

@[simp] theorem length_positions : a.positions.length = volume a.dims := by
  rw [positions, List.length_map, length_indicesOf]

/-- There are as many elements as the dimensions say. -/
@[simp] theorem length_toList : a.toList.length = volume a.dims := by
  rw [toList, length_readAll a.positions_lt, length_positions]

/-- What the strides put at an index is what the contents hold at its place. -/
theorem getElem?_toList {i : List Nat} (h : i ∈ indicesOf a.dims) :
    a.toList[flatIndex a.dims i]? = a.buffer[a.positionAt i]? :=
  getElem?_readAll_indicesOf (fun _ hj => a.positionAt_lt hj) h

/-- The element of an index is the one at its place in the contents. -/
theorem get?_of_mem {i : List Nat} (h : i ∈ indicesOf a.dims) :
    a.get? i = a.toList[flatIndex a.dims i]? := by
  unfold get?
  rw [displacementOf?_of_mem h, getElem?_toList a h]
  rfl

theorem get?_of_notMem {i : List Nat} (h : i ∉ indicesOf a.dims) : a.get? i = none := by
  unfold get?
  rw [displacementOf?_of_notMem h]
  rfl

/-- An index has an element if it is one of the array's, and only then. -/
theorem isSome_get?_iff {i : List Nat} : (a.get? i).isSome = true ↔ i ∈ indicesOf a.dims := by
  constructor
  · intro h
    by_contra hi
    rw [a.get?_of_notMem hi] at h
    exact absurd h Bool.false_ne_true
  · intro h
    have hlt : flatIndex a.dims i < a.toList.length := by
      rw [length_toList]
      exact flatIndex_lt h
    rw [a.get?_of_mem h, List.getElem?_eq_getElem hlt]
    rfl

/-- Elements that lie side by side start at the first and follow one another. -/
theorem positions_of_isStandard (h : a.isStandard = true) :
    a.positions = List.range' a.start (volume a.dims) := by
  unfold isStandard standardAxes at h
  rw [Bool.or_eq_true] at h
  rcases h with hempty | hrows
  · obtain ⟨axis, haxis, hzero⟩ := List.any_eq_true.1 hempty
    have hmem : 0 ∈ a.dims := beq_iff_eq.1 hzero ▸ List.mem_map_of_mem haxis
    have hvolume : volume a.dims = 0 := volume_eq_zero_of_mem hmem
    rw [hvolume, positions, indicesOf_eq_nil hvolume]
    rfl
  · have hposition : a.positions = (indicesOf a.dims).map ((a.start + ·) ∘ flatIndex a.dims) := by
      apply List.map_congr_left
      intro i hi
      show (a.start + displacementOf a.axes i).toNat = a.start + flatIndex a.dims i
      rw [displacementOf_of_hasRowMajorSteps hrows hi]
      exact Int.toNat_natCast _
    rw [hposition, ← List.map_map, map_flatIndex, List.range_eq_range', List.map_add_range',
      Nat.add_zero]

/-- The stretch of memory holds the contents. -/
theorem asSlice?_eq (h : a.isStandard = true) : a.asSlice? = some a.toList.toArray := by
  have hpositions := a.positions_of_isStandard h
  have hstretch := extract_eq_readAll fun p hp => a.positions_lt p (hpositions ▸ hp)
  unfold asSlice?
  rw [if_pos h, toList, hpositions, hstretch]

end

/-! ## §3. Views and writes. -/

/-- The same elements, the axes in another order. -/
def reorder (a : StridedArray α) (axes : List SignedAxis) (h : axes.Perm a.axes) :
    StridedArray α where
  axes := axes
  start := a.start
  buffer := a.buffer
  bound i hi := by
    obtain ⟨f, hf⟩ := exists_reindexes h
    rw [← hf.displacement i hi]
    exact a.bound _ (hf.mem i hi)
  apart i hi j hj hij := by
    obtain ⟨f, hf⟩ := exists_reindexes h
    refine hf.injOn i hi j hj (a.apart _ (hf.mem i hi) _ (hf.mem j hj) ?_)
    rw [hf.displacement i hi, hf.displacement j hj, hij]
  addressable := by
    have hextent : extent (lensOf axes) = extent (lensOf a.axes) := extent_perm (h.map _)
    unfold Addressable
    rw [hextent]
    exact a.addressable

/-- Axis `i` of the result is axis `order[i]`; `order` must name every axis
once. -/
def permute? (a : StridedArray α) (order : List Nat) : Option (StridedArray α) :=
  if h : order.isPerm (List.range a.rank) = true then
    some <| a.reorder (order.filterMap (a.axes[·]?)) <| by
      have hperm := (List.isPerm_iff.1 h).filterMap (a.axes[·]?)
      rwa [rank, Layout.filterMap_getElem?_range] at hperm
  else none

/-- Replace the elements, in row-major order, where they lie. -/
def overwrite (a : StridedArray α) (values : List α) : StridedArray α where
  axes := a.axes
  start := a.start
  buffer := writeAll a.buffer a.positions values
  bound i hi := by
    rw [size_writeAll]
    exact a.bound i hi
  apart := a.apart
  addressable := a.addressable

/-- What is written is what the array then holds. -/
theorem toList_overwrite {a : StridedArray α} {values : List α}
    (h : values.length = volume a.dims) : (a.overwrite values).toList = values :=
  readAll_writeAll a.nodup_positions a.positions_lt (h.trans a.length_positions.symm)

end StridedArray

/-- The axes of an array read at the dimensions `target`, axis by axis. -/
def stretchSigned? : List SignedAxis → List Nat → Option (List SignedAxis)
  | [], [] => some []
  | a :: as, d :: ds =>
      if a.len = d then (stretchSigned? as ds).map (a :: ·)
      else if a.len = 1 then (stretchSigned? as ds).map (⟨d, 0⟩ :: ·)
      else none
  | _, _ => none

/-- Axes with leading axes of length one added up to `rank` axes. -/
def padSigned (axes : List SignedAxis) (rank : Nat) : List SignedAxis :=
  List.replicate (rank - axes.length) ⟨1, 0⟩ ++ axes

theorem stretchSigned?_self (axes : List SignedAxis) :
    stretchSigned? axes (lensOf axes) = some axes := by
  induction axes with
  | nil => rfl
  | cons a as ih =>
      show (if a.len = a.len then (stretchSigned? as (lensOf as)).map (a :: ·) else _) = _
      rw [if_pos rfl, ih]
      rfl

namespace StridedArray

/-- The elements in row-major order once the array is stretched to the shape
`target`, if it can be. -/
def broadcast? (a : StridedArray α) (target : List Nat) : Option (List α) :=
  (stretchSigned? (padSigned a.axes target.length) target).map fun axes =>
    readAll a.buffer ((indicesOf target).map fun i => (a.start + displacementOf axes i).toNat)

/-- Every array stretches to its own shape, and holds what it holds. -/
theorem broadcast?_self (a : StridedArray α) : a.broadcast? a.dims = some a.toList := by
  have hpad : padSigned a.axes a.dims.length = a.axes := by
    unfold padSigned
    rw [a.length_dims, rank, Nat.sub_self]
    rfl
  unfold broadcast?
  rw [hpad, dims, stretchSigned?_self]
  rfl

/-- Overwrite every element of `a` with the matching one of `src`, stretched to
the shape of `a`. -/
def assign? (a src : StridedArray α) : Option (StridedArray α) :=
  (src.broadcast? a.dims).map a.overwrite

theorem assign?_of_dims_eq {a src : StridedArray α} (h : src.dims = a.dims) :
    a.assign? src = some (a.overwrite src.toList) := by
  unfold assign?
  rw [← h, broadcast?_self]
  rfl

end StridedArray

/-! ## §4. The array of a tensor. -/

/-- The axis with its stride as a signed number. -/
def Axis.signed (a : Axis) : SignedAxis :=
  ⟨a.len, a.stride⟩

theorem lensOf_map_signed (axes : List Axis) : lensOf (axes.map Axis.signed) = dimsOf axes :=
  List.map_map

theorem displacementOf_map_signed (axes : List Axis) (i : List Nat) :
    displacementOf (axes.map Axis.signed) i = positionOf axes i := by
  induction axes generalizing i with
  | nil => rfl
  | cons a as ih =>
      cases i with
      | nil => rfl
      | cons j js =>
          show j * (a.stride : Int) + displacementOf (as.map Axis.signed) js
            = ((j * a.stride + positionOf as js : Nat) : Int)
          rw [ih, Nat.cast_add, Nat.cast_mul]

theorem standardAxes_map_signed (axes : List Axis) :
    standardAxes (axes.map Axis.signed) = Layout.contiguousAxes axes := by
  have hrows : hasRowMajorSteps (axes.map Axis.signed) = Layout.hasRowMajorStrides axes := by
    induction axes with
    | nil => rfl
    | cons a as ih =>
        show ((a.len == 1 || (a.stride : Int) == volume (lensOf (as.map Axis.signed)))
          && hasRowMajorSteps (as.map Axis.signed)) = _
        rw [ih, lensOf_map_signed]
        have hstride : ((a.stride : Int) == (volume (dimsOf as) : Int))
            = (a.stride == volume (dimsOf as)) := by
          rw [Bool.eq_iff_iff, beq_iff_eq, beq_iff_eq, Nat.cast_inj]
        rw [hstride]
        rfl
  unfold standardAxes Layout.contiguousAxes
  rw [hrows, List.any_map]
  rfl

theorem stretchSigned?_map_signed (axes : List Axis) (target : List Nat) :
    stretchSigned? (axes.map Axis.signed) target
      = (stretchAxes? axes target).map (List.map Axis.signed) := by
  fun_induction stretchAxes? axes target with
  | case1 => rfl
  | case2 a as ds ih =>
      show (if a.len = a.len then (stretchSigned? (as.map Axis.signed) ds).map _ else _) = _
      rw [if_pos rfl, ih, Option.map_map, Option.map_map]
      rfl
  | case3 a as d ds hne hone ih =>
      show (if a.len = d then _ else if a.len = 1 then
        (stretchSigned? (as.map Axis.signed) ds).map _ else none) = _
      rw [if_neg hne, if_pos hone, ih, Option.map_map, Option.map_map]
      rfl
  | case4 a as d ds hne hone =>
      show (if a.len = d then _ else if a.len = 1 then _ else none) = _
      rw [if_neg hne, if_neg hone]
      rfl
  | case5 axes target hnil hcons =>
      cases axes with
      | nil =>
          cases target with
          | nil => exact absurd rfl (hnil rfl)
          | cons d ds => rfl
      | cons a as =>
          cases target with
          | nil => rfl
          | cons d ds => exact absurd rfl (hcons a as d ds rfl)

theorem padSigned_map_signed (axes : List Axis) (rank : Nat) :
    padSigned (axes.map Axis.signed) rank = (padAxes axes rank).map Axis.signed := by
  unfold padSigned padAxes
  rw [List.map_append, List.map_replicate, List.length_map]
  rfl

namespace Tensor

/-- The array of a tensor. -/
def strided (t : Tensor α) : StridedArray α where
  axes := t.layout.axes.map Axis.signed
  start := 0
  buffer := t.buffer
  bound i hi := by
    rw [lensOf_map_signed] at hi
    have hlt := t.bound (0 + positionOf t.layout.axes i) (by
      rw [Layout.offsets, offsetsFrom_eq_map]
      exact List.mem_map_of_mem hi)
    rw [displacementOf_map_signed]
    omega
  apart i hi j hj hij := by
    rw [lensOf_map_signed] at hi hj
    rw [displacementOf_map_signed, displacementOf_map_signed, Nat.cast_inj] at hij
    have hnodup := t.layout.nodup
    rw [offsetsFrom_eq_map] at hnodup
    exact List.inj_on_of_nodup_map hnodup hi hj (congrArg (0 + ·) hij)
  addressable := by
    rw [lensOf_map_signed]
    exact t.addressable

section
variable (t : Tensor α)

@[simp] theorem dims_strided : t.strided.dims = t.dims :=
  lensOf_map_signed _

theorem positions_strided : t.strided.positions = t.layout.offsets := by
  have hdims : t.strided.dims = dimsOf t.layout.axes := t.dims_strided
  rw [StridedArray.positions, hdims, Layout.offsets, offsetsFrom_eq_map]
  refine List.map_congr_left fun i _ => ?_
  show (((0 : Nat) : Int) + displacementOf (t.layout.axes.map Axis.signed) i).toNat = _
  rw [displacementOf_map_signed, ← Nat.cast_add, Int.toNat_natCast]

/-- An array holds what its tensor holds. -/
@[simp] theorem toList_strided : t.strided.toList = t.toList :=
  congrArg (readAll t.buffer) t.positions_strided

@[simp] theorem isStandard_strided : t.strided.isStandard = t.isContiguous :=
  standardAxes_map_signed _

/-- An array is stretched as its tensor is. -/
theorem broadcast?_strided (target : List Nat) :
    t.strided.broadcast? target = (t.broadcast? target).map Vector.toList := by
  have hstretch : stretchSigned? (padSigned t.strided.axes target.length) target
      = (stretchAxes? (padAxes t.layout.axes target.length) target).map (List.map Axis.signed) := by
    show stretchSigned? (padSigned (t.layout.axes.map Axis.signed) target.length) target = _
    rw [padSigned_map_signed, stretchSigned?_map_signed]
  have hbroadcast : t.strided.broadcast? target
      = (stretchAxes? (padAxes t.layout.axes target.length) target).map fun axes =>
          readAll t.buffer (offsetsFrom axes 0) := by
    unfold StridedArray.broadcast?
    rw [hstretch, Option.map_map]
    refine Option.map_congr fun axes haxes => congrArg (readAll t.buffer) ?_
    rw [offsetsFrom_eq_map, dimsOf_stretchAxes? haxes]
    refine List.map_congr_left fun i _ => ?_
    show (((0 : Nat) : Int) + displacementOf (axes.map Axis.signed) i).toNat = _
    rw [displacementOf_map_signed, ← Nat.cast_add, Int.toNat_natCast]
  rw [hbroadcast]
  unfold broadcast?
  split
  next hnone => exact congrArg (Option.map _) hnone
  next axes hsome => exact congrArg (Option.map _) hsome

end

end Tensor

/-! ## §5. Arrays built afresh. -/

namespace StridedArray

/-- A row-major array with the given contents. -/
def fresh (dims : List Nat) (h : Addressable dims) (data : List α)
    (len : data.length = volume dims) : StridedArray α :=
  (Tensor.build dims h data len .cpu).strided

section
variable {dims : List Nat} {h : Addressable dims} {data : List α} {len : data.length = volume dims}

@[simp] theorem dims_fresh : (fresh dims h data len).dims = dims := by
  unfold fresh
  rw [Tensor.dims_strided, Tensor.dims_build]

@[simp] theorem toList_fresh : (fresh dims h data len).toList = data := by
  unfold fresh
  rw [Tensor.toList_strided, Tensor.toList_build]

@[simp] theorem isStandard_fresh : (fresh dims h data len).isStandard = true := by
  unfold fresh
  rw [Tensor.isStandard_strided, Tensor.isContiguous_build]

end

/-- The array itself if its elements lie side by side, else a row-major copy. -/
def standard (a : StridedArray α) : StridedArray α :=
  if a.isStandard then a else fresh a.dims a.addressable a.toList a.length_toList

section
variable (a : StridedArray α)

@[simp] theorem dims_standard : a.standard.dims = a.dims := by
  unfold standard
  split
  · rfl
  · exact dims_fresh

@[simp] theorem toList_standard : a.standard.toList = a.toList := by
  unfold standard
  split
  · rfl
  · exact toList_fresh

@[simp] theorem isStandard_standard : a.standard.isStandard = true := by
  unfold standard
  split
  next h => exact h
  next => exact isStandard_fresh

end

/-- The contents under another shape, of as many elements. -/
def withShape (a : StridedArray α) (target : List Nat) :
    Except TensorError (StridedArray α) :=
  if len : volume target = volume a.dims then
    if h : Addressable target then
      .ok (fresh target h a.toList (a.length_toList.trans len.symm))
    else .error .incompatibleShape
  else .error .incompatibleShape

theorem withShape_of_volume_eq {a : StridedArray α} {target : List Nat}
    (len : volume target = volume a.dims) :
    a.withShape target
      = if h : Addressable target then
          .ok (fresh target h a.toList (a.length_toList.trans len.symm))
        else .error .incompatibleShape :=
  dif_pos len

/-- What is built afresh depends on dimensions and contents. -/
theorem fresh_congr {dims dims' : List Nat} (hdims : dims = dims') {h : Addressable dims}
    {h' : Addressable dims'} {data data' : List α} (hdata : data = data')
    {len : data.length = volume dims} {len' : data'.length = volume dims'} :
    fresh dims h data len = fresh dims' h' data' len' := by
  subst hdims hdata
  rfl

end StridedArray

/-! ## §6. Operations on the array of a tensor. -/

namespace Tensor

variable (t : Tensor α)

theorem strided_overwrite (values : List α) :
    (t.overwrite values).strided = t.strided.overwrite values :=
  StridedArray.ext rfl rfl (congrArg (writeAll t.buffer · values) t.positions_strided.symm)

theorem standard_strided : t.strided.standard = t.contiguous.strided := by
  unfold StridedArray.standard contiguous
  rw [isStandard_strided]
  split
  · rfl
  · show _ = StridedArray.fresh t.dims t.addressable t.toList t.length_toList
    exact StridedArray.fresh_congr t.dims_strided t.toList_strided

theorem assign?_strided (src : Tensor α) (h : src.dims = t.dims) :
    t.strided.assign? src.strided = some (t.overwrite src.toList).strided := by
  rw [StridedArray.assign?_of_dims_eq (by rw [dims_strided, dims_strided, h]), toList_strided,
    strided_overwrite]

theorem rank_strided : t.strided.rank = t.layout.rank :=
  List.length_map _

/-- Permuting the array of a tensor is permuting the tensor. -/
theorem permute?_strided (order : List Nat) :
    t.strided.permute? order = (t.permute order).toOption.map strided := by
  unfold StridedArray.permute? permute
  by_cases h : order.isPerm (List.range t.layout.rank) = true
  · rw [dif_pos h, dif_pos (t.rank_strided.symm ▸ h)]
    refine congrArg some (StridedArray.ext ?_ rfl rfl)
    show order.filterMap ((t.layout.axes.map Axis.signed)[·]?)
      = (order.filterMap (t.layout.axes[·]?)).map Axis.signed
    rw [List.map_filterMap]
    refine List.filterMap_congr fun k _ => ?_
    rw [List.getElem?_map]
  · rw [dif_neg h, dif_neg (t.rank_strided.symm ▸ h)]
    rfl

end Tensor

end ChannelNorm

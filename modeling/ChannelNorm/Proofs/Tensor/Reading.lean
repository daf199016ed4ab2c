/-
  ChannelNorm.Proofs.Tensor.Reading
  ─────────────────────────────────
  **EVERY ARRAY IN MEMORY READS AS A TENSOR.**

  A tensor starts at the front of its buffer and takes no step backward; an array
  in memory may start anywhere and run any axis backward.  A call over a batch
  looks at the dimensions of what it is given, at the contents, at whether they
  lie contiguous, and at the order of visit its strides favour.  All of these an
  array has too, and for every array there is a tensor that has the same:

      stride s ≥ 0    kept
      stride s < 0    turned round and spread out, |s| · k

  With `k` beyond every position that forward steps reach no two elements meet;
  with `k` beyond every size a stride that was turned round is none of the strides
  of a contiguous array, just as it was none before.
-/
import ChannelNorm.Proofs.Tensor.Alike
import ChannelNorm.Proofs.Tensor.Strided

namespace ChannelNorm

variable {α β : Type}

/-! ## §1. The order of visit that signed strides favour. -/

namespace VisitHints

/-- Axes that are as long, that are runs alike and contiguous alike, give the same
hints. -/
theorem of_map {γ δ : Type} {len : γ → Nat} {isRun : γ → Bool} {isContiguous : List γ → Bool}
    {len' : δ → Nat} {isRun' : δ → Bool} {isContiguous' : List δ → Bool} {f : γ → δ}
    {axes : List γ} (hlen : ∀ a, len' (f a) = len a) (hrun : ∀ a, isRun' (f a) = isRun a)
    (hrows : isContiguous' (axes.map f) = isContiguous axes)
    (hcolumns : isContiguous' (axes.reverse.map f) = isContiguous axes.reverse) :
    of len' isRun' isContiguous' (axes.map f) = of len isRun isContiguous axes := by
  have hlong : (fun b => decide (1 < len' b)) ∘ f = fun a => decide (1 < len a) :=
    funext fun a => congrArg (fun n => decide (1 < n)) (hlen a)
  have hruns : (fun a => isRun' (f a)) = isRun := funext hrun
  unfold of
  rw [hrows, List.length_map, ← List.map_reverse, hcolumns, List.countP_map, hlong,
    List.head?_map, List.getLast?_map, Option.any_map, Option.any_map, hruns]

end VisitHints

/-- Whether an axis is a run of neighbouring elements. -/
def SignedAxis.isRun (a : SignedAxis) : Bool :=
  decide (1 < a.len) && a.stride == 1

/-- The hints an array with signed strides gives. -/
def VisitHints.ofSigned (axes : List SignedAxis) : VisitHints :=
  of SignedAxis.len SignedAxis.isRun standardAxes axes

/-- The order in which two arrays of one shape are visited together. -/
def signedOrder (p q : List SignedAxis) : VisitOrder :=
  (VisitHints.ofSigned p).jointOrder (VisitHints.ofSigned q) p.length

/-! ## §2. Strides turned round. -/

namespace SignedAxis

/-- The axis as far as it runs forward. -/
def forward (a : SignedAxis) : Axis :=
  ⟨a.len, a.stride.toNat⟩

/-- The axis as far as it runs backward, turned round. -/
def backward (a : SignedAxis) : Axis :=
  ⟨a.len, (-a.stride).toNat⟩

/-- The axis with a backward stride turned round and spread out. -/
def spread (k : Nat) (a : SignedAxis) : Axis :=
  ⟨a.len, a.stride.toNat + (-a.stride).toNat * k⟩

/-- A stride is among the small numbers after it was spread out if it was before. -/
theorem stride_spread_eq_iff {a : SignedAxis} {k n : Nat} (h : n < k) :
    (a.spread k).stride = n ↔ a.stride = n := by
  show a.stride.toNat + (-a.stride).toNat * k = n ↔ a.stride = n
  rcases Int.lt_or_le a.stride 0 with hneg | hpos
  · -- a stride that is turned round is `k` at least
    have hback : 1 ≤ (-a.stride).toNat := by omega
    have hlarge : k ≤ (-a.stride).toNat * k := Nat.le_mul_of_pos_left k hback
    constructor <;> intro <;> omega
  · have hback : (-a.stride).toNat = 0 := by omega
    rw [hback, Nat.zero_mul, Nat.add_zero]
    omega

theorem isRun_spread {k : Nat} (hk : 1 < k) (a : SignedAxis) :
    VisitHints.isRun (a.spread k) = a.isRun := by
  have hone : ((a.spread k).stride == 1) = (a.stride == 1) := by
    rw [Bool.eq_iff_iff, beq_iff_eq, beq_iff_eq]
    exact stride_spread_eq_iff hk
  show (_ && ((a.spread k).stride == 1)) = _
  rw [hone]
  rfl

end SignedAxis

theorem dimsOf_map_spread (k : Nat) (axes : List SignedAxis) :
    dimsOf (axes.map (·.spread k)) = lensOf axes :=
  List.map_map

/-- An element lies as far out as forward steps lead, less the backward ones. -/
theorem displacementOf_eq_sub (axes : List SignedAxis) (i : List Nat) :
    displacementOf axes i
      = positionOf (axes.map (·.forward)) i - positionOf (axes.map (·.backward)) i := by
  induction axes generalizing i with
  | nil => rfl
  | cons a as ih =>
      cases i with
      | nil => rfl
      | cons j js =>
          have hstride : a.stride = a.stride.toNat - (-a.stride).toNat := by omega
          show j * a.stride + displacementOf as js
            = ((j * a.stride.toNat + positionOf (as.map (·.forward)) js : Nat) : Int)
              - ((j * (-a.stride).toNat + positionOf (as.map (·.backward)) js : Nat) : Int)
          rw [ih]
          push_cast
          linear_combination (j : Int) * hstride

/-- Spread out, backward steps lead in strides of `k`. -/
theorem positionOf_map_spread (k : Nat) (axes : List SignedAxis) (i : List Nat) :
    positionOf (axes.map (·.spread k)) i
      = positionOf (axes.map (·.forward)) i + positionOf (axes.map (·.backward)) i * k := by
  induction axes generalizing i with
  | nil => simp [positionOf]
  | cons a as ih =>
      cases i with
      | nil => simp [positionOf]
      | cons j js =>
          show j * (a.stride.toNat + (-a.stride).toNat * k) + positionOf (as.map (·.spread k)) js
            = (j * a.stride.toNat + positionOf (as.map (·.forward)) js)
              + (j * (-a.stride).toNat + positionOf (as.map (·.backward)) js) * k
          rw [ih]
          ring

/-- As far as the steps of all axes lead. -/
def reachOf (axes : List Axis) : Nat :=
  (axes.map fun a => a.len * a.stride).sum

theorem positionOf_le_reachOf {axes : List Axis} {i : List Nat} (h : i ∈ indicesOf (dimsOf axes)) :
    positionOf axes i ≤ reachOf axes := by
  induction axes generalizing i with
  | nil =>
      rw [mem_indicesOf_nil.1 h]
      exact Nat.le_refl 0
  | cons a as ih =>
      obtain ⟨j, js, rfl, hj, hjs⟩ := exists_cons_of_mem_indicesOf h
      show j * a.stride + positionOf as js ≤ a.len * a.stride + reachOf as
      exact Nat.add_le_add (Nat.mul_le_mul_right _ (Nat.le_of_lt hj)) (ih hjs)

/-! ### What is contiguous stays so, and nothing else becomes so. -/

theorem hasRowMajorStrides_map_spread {k : Nat} {axes : List SignedAxis}
    (h : extent (lensOf axes) < k) :
    Layout.hasRowMajorStrides (axes.map (·.spread k)) = hasRowMajorSteps axes := by
  induction axes with
  | nil => rfl
  | cons a as ih =>
      -- the sizes a stride is compared with are below `k`
      have hextent : extent (lensOf as) ≤ extent (lensOf (a :: as)) := by
        have hcons : extent (lensOf (a :: as)) = (if a.len = 0 then 1 else a.len)
            * extent (lensOf as) := extent_cons _ _
        rw [hcons]
        refine Nat.le_mul_of_pos_left _ ?_
        split <;> omega
      have hvolume : volume (lensOf as) < k :=
        Nat.lt_of_le_of_lt ((volume_le_extent _).trans hextent) h
      have hstride : ((a.spread k).stride == volume (lensOf as))
          = (a.stride == (volume (lensOf as) : Int)) := by
        rw [Bool.eq_iff_iff, beq_iff_eq, beq_iff_eq]
        exact SignedAxis.stride_spread_eq_iff hvolume
      show ((a.len == 1 || (a.spread k).stride == volume (dimsOf (as.map (·.spread k))))
        && Layout.hasRowMajorStrides (as.map (·.spread k))) = _
      rw [dimsOf_map_spread, hstride, ih (Nat.lt_of_le_of_lt hextent h)]
      rfl

theorem contiguousAxes_map_spread {k : Nat} {axes : List SignedAxis}
    (h : extent (lensOf axes) < k) :
    Layout.contiguousAxes (axes.map (·.spread k)) = standardAxes axes := by
  unfold Layout.contiguousAxes standardAxes
  rw [hasRowMajorStrides_map_spread h, List.any_map]
  rfl

/-- Strides that are spread out favour the order they favoured before. -/
theorem ofAxes_map_spread {k : Nat} {axes : List SignedAxis} (h : extent (lensOf axes) < k) :
    VisitHints.ofAxes (axes.map (·.spread k)) = VisitHints.ofSigned axes := by
  have hk : 1 < k := Nat.lt_of_le_of_lt (extent_pos _) h
  have hreverse : extent (lensOf axes.reverse) < k := by
    have hperm : (lensOf axes.reverse).Perm (lensOf axes) := (List.reverse_perm axes).map _
    rwa [extent_perm hperm]
  exact VisitHints.of_map (fun _ => rfl) (SignedAxis.isRun_spread hk)
    (contiguousAxes_map_spread h) (contiguousAxes_map_spread hreverse)

/-! ## §3. A buffer with given values at given positions. -/

/-- A buffer of `size` entries that holds the values at their positions; what
stands elsewhere does not matter. -/
def padded (size : Nat) (positions : List Nat) : List α → Array α
  | [] => #[]
  | x :: xs => writeAll (.replicate size x) positions (x :: xs)

section
variable {size : Nat} {positions : List Nat} {values : List α}
  (hlen : values.length = positions.length) (hlt : ∀ p ∈ positions, p < size)
include hlen hlt

theorem lt_size_padded : ∀ p ∈ positions, p < (padded size positions values).size := by
  cases values with
  | nil =>
      rw [List.length_eq_zero_iff.1 hlen.symm]
      exact nofun
  | cons x xs =>
      intro p hp
      unfold padded
      rw [size_writeAll, Array.size_replicate]
      exact hlt p hp

theorem readAll_padded (hnodup : positions.Nodup) :
    readAll (padded size positions values) positions = values := by
  cases values with
  | nil =>
      rw [List.length_eq_zero_iff.1 hlen.symm]
      rfl
  | cons x xs =>
      refine readAll_writeAll hnodup (fun p hp => ?_) hlen
      rw [Array.size_replicate]
      exact hlt p hp

end

/-! ## §4. The tensor an array reads as. -/

namespace StridedArray

variable (a : StridedArray α)

/-- A number beyond every size of the array and every position that forward steps
reach. -/
def spreading : Nat :=
  extent a.dims + reachOf (a.axes.map (·.forward)) + 1

theorem extent_lt_spreading : extent a.dims < a.spreading := by
  unfold spreading
  omega

/-- The axes with every stride forward. -/
def forwardAxes : List Axis :=
  a.axes.map (·.spread a.spreading)

theorem dimsOf_forwardAxes : dimsOf a.forwardAxes = a.dims :=
  dimsOf_map_spread _ _

/-- Forward steps are the remainder of a position, backward ones the quotient. -/
theorem positionOf_forwardAxes {i : List Nat} (h : i ∈ indicesOf a.dims) :
    positionOf a.forwardAxes i % a.spreading = positionOf (a.axes.map (·.forward)) i
      ∧ positionOf a.forwardAxes i / a.spreading = positionOf (a.axes.map (·.backward)) i := by
  have hdims : dimsOf (a.axes.map (·.forward)) = a.dims := List.map_map
  have hreach : positionOf (a.axes.map (·.forward)) i ≤ reachOf (a.axes.map (·.forward)) :=
    positionOf_le_reachOf (hdims ▸ h)
  have hforward : positionOf (a.axes.map (·.forward)) i < a.spreading := by
    unfold spreading
    omega
  unfold forwardAxes
  rw [positionOf_map_spread]
  constructor
  · rw [Nat.add_mul_mod_self_right, Nat.mod_eq_of_lt hforward]
  · rw [Nat.add_mul_div_right _ _ (Nat.zero_lt_of_lt hforward), Nat.div_eq_of_lt hforward,
      Nat.zero_add]

/-- With every stride forward, still no two indices share a position. -/
theorem positionOf_forwardAxes_inj {i j : List Nat} (hi : i ∈ indicesOf a.dims)
    (hj : j ∈ indicesOf a.dims)
    (h : positionOf a.forwardAxes i = positionOf a.forwardAxes j) : i = j := by
  obtain ⟨hforward, hbackward⟩ := a.positionOf_forwardAxes hi
  obtain ⟨hforward', hbackward'⟩ := a.positionOf_forwardAxes hj
  refine a.apart i hi j hj ?_
  rw [displacementOf_eq_sub, displacementOf_eq_sub, ← hforward, ← hforward', ← hbackward,
    ← hbackward', h]

theorem nodup_offsetsFrom_forwardAxes : (offsetsFrom a.forwardAxes 0).Nodup := by
  rw [offsetsFrom_eq_map, dimsOf_forwardAxes]
  refine (nodup_indicesOf a.dims).map_on fun i hi j hj hij => ?_
  exact a.positionOf_forwardAxes_inj hi hj (Nat.add_left_cancel hij)

theorem offsetsFrom_forwardAxes_lt :
    ∀ p ∈ offsetsFrom a.forwardAxes 0, p < reachOf a.forwardAxes + 1 := by
  intro p hp
  rw [offsetsFrom_eq_map] at hp
  obtain ⟨i, hi, rfl⟩ := List.mem_map.1 hp
  have hreach := positionOf_le_reachOf hi
  omega

theorem length_toList_eq_offsetsFrom :
    a.toList.length = (offsetsFrom a.forwardAxes 0).length := by
  rw [length_toList, length_offsetsFrom, dimsOf_forwardAxes]

/-- A tensor of the contents of the array, its strides forward. -/
def reading (device : Device) : Tensor α where
  layout :=
    { axes := a.forwardAxes
      nodup := a.nodup_offsetsFrom_forwardAxes
      addressable := a.dimsOf_forwardAxes ▸ a.addressable }
  buffer := padded (reachOf a.forwardAxes + 1) (offsetsFrom a.forwardAxes 0) a.toList
  device := device
  bound := lt_size_padded a.length_toList_eq_offsetsFrom a.offsetsFrom_forwardAxes_lt

/-- The axes of one channel. -/
def planeAxes : List SignedAxis :=
  a.axes.eraseIdx 1

theorem lensOf_planeAxes : lensOf a.planeAxes = a.dims.eraseIdx 1 :=
  (List.eraseIdx_map _ _ _).symm

/-- The elements of a channel in the given order of visit. -/
def planeIn (order : VisitOrder) (c : Nat) : List α :=
  readAll a.buffer ((channelIndices order a.dims c).map a.positionAt)

end StridedArray

/-- What a call over a batch looks at is the same for the tensor and for the
array. -/
structure Tensor.Reads (t : Tensor α) (a : StridedArray α) : Prop where
  dims : t.dims = a.dims
  contents : t.toList = a.toList
  isContiguous : t.isContiguous = a.isStandard
  /-- The strides of a channel favour one order of visit. -/
  hints : VisitHints.ofAxes t.planeAxes = VisitHints.ofSigned a.planeAxes

/-- **Every array reads as a tensor**, whatever the signs of its strides and
wherever it starts. -/
theorem StridedArray.reads_reading (a : StridedArray α) (device : Device) :
    (a.reading device).Reads a where
  dims := a.dimsOf_forwardAxes
  contents := readAll_padded a.length_toList_eq_offsetsFrom a.offsetsFrom_forwardAxes_lt
    a.nodup_offsetsFrom_forwardAxes
  isContiguous := contiguousAxes_map_spread a.extent_lt_spreading
  hints := by
    have hplane : (a.reading device).planeAxes = a.planeAxes.map (·.spread a.spreading) :=
      List.eraseIdx_map _ _ _
    have hextent : extent (lensOf a.planeAxes) < a.spreading := by
      rw [a.lensOf_planeAxes]
      exact Nat.lt_of_le_of_lt (extent_eraseIdx_le a.dims 1) a.extent_lt_spreading
    rw [hplane, ofAxes_map_spread hextent]

/-- A tensor reads its own array. -/
theorem Tensor.reads_strided (t : Tensor α) : t.Reads t.strided where
  dims := t.dims_strided.symm
  contents := t.toList_strided.symm
  isContiguous := t.isStandard_strided.symm
  hints := by
    have hrun : ∀ a : Axis, a.signed.isRun = VisitHints.isRun a := by
      intro a
      have hone : ((a.stride : Int) == 1) = (a.stride == 1) := by
        rw [Bool.eq_iff_iff, beq_iff_eq, beq_iff_eq, Nat.cast_eq_one]
      show (_ && (a.stride : Int) == 1) = _
      rw [hone]
      rfl
    have hlen : ∀ a : Axis, a.signed.len = a.len := fun _ => rfl
    have hplane : t.strided.planeAxes = t.planeAxes.map Axis.signed := List.eraseIdx_map _ _ _
    rw [hplane]
    exact (VisitHints.of_map hlen hrun (standardAxes_map_signed _)
      (standardAxes_map_signed _)).symm

namespace Tensor.Reads

variable {t : Tensor α} {a : StridedArray α}

/-- Slices are read alike, in either order of visit. -/
theorem planeIn (h : t.Reads a) (hrank : 2 ≤ t.rank) (order : VisitOrder) {c : Nat}
    (hc : c < t.channels) : t.planeIn order c = a.planeIn order c := by
  unfold Tensor.planeIn StridedArray.planeIn
  rw [t.planeOffsets_eq_map hrank, ← h.dims]
  unfold readAll
  rw [List.filterMap_map, List.filterMap_map]
  refine List.filterMap_congr fun i hi => ?_
  -- both buffers hold what the contents hold at the place of the index
  have hi : i ∈ indicesOf t.dims := mem_indicesOf_of_mem_channelIndices hrank hc hi
  show t.buffer[positionOf t.layout.axes i]? = a.buffer[a.positionAt i]?
  rw [← t.getElem?_toList hi, ← a.getElem?_toList (h.dims ▸ hi), h.contents, h.dims]

theorem get?_eq (h : t.Reads a) (index : List Nat) : t.get? index = a.get? index := by
  by_cases hindex : index ∈ indicesOf t.dims
  · rw [t.get?_of_mem hindex, a.get?_of_mem (h.dims ▸ hindex), h.contents, h.dims]
  · rw [t.get?_of_notMem hindex, a.get?_of_notMem (h.dims ▸ hindex)]

theorem asSlice?_eq (h : t.Reads a) : t.asSlice? = a.asSlice? := by
  cases hrows : t.isContiguous with
  | true => rw [t.asSlice?_eq hrows, a.asSlice?_eq (h.isContiguous ▸ hrows), h.contents]
  | false =>
      have hrows' : a.isStandard = false := h.isContiguous ▸ hrows
      unfold Tensor.asSlice? StridedArray.asSlice?
      rw [hrows, hrows']
      rfl

/-- Two tensors are visited together in the order of their arrays. -/
theorem jointOrder {u : Tensor β} {b : StridedArray β} (h : t.Reads a) (h' : u.Reads b) :
    jointOrder t.planeAxes u.planeAxes = signedOrder a.planeAxes b.planeAxes := by
  have hrank : t.planeAxes.length = a.planeAxes.length := by
    have hdims : dimsOf t.planeAxes = t.dims.eraseIdx 1 := (List.eraseIdx_map _ _ _).symm
    have hlens := congrArg List.length ((hdims.trans (h.dims ▸ rfl)).trans a.lensOf_planeAxes.symm)
    rwa [dimsOf, lensOf, List.length_map, List.length_map] at hlens
  unfold ChannelNorm.jointOrder signedOrder
  rw [h.hints, h'.hints, hrank]

/-- Values written in place are read alike. -/
theorem overwrite (h : t.Reads a) {values : List α} (hlen : values.length = t.numel) :
    (t.overwrite values).Reads (a.overwrite values) where
  dims := h.dims
  contents := by
    rw [toList_overwrite hlen, StridedArray.toList_overwrite (hlen.trans (congrArg volume h.dims))]
  isContiguous := h.isContiguous
  hints := h.hints

end Tensor.Reads

end ChannelNorm

/-
  ChannelNorm.Proofs.Tensor.Reduce
  ────────────────────────────────
  **WHAT A SUM ALONG AN AXIS HOLDS.**

  In exact arithmetic it does not matter in which order lanes are visited, how a
  lane is summed, or in which order the result is laid out: at index `i` of the
  remaining axes stands the sum of the elements whose index is `i` with a
  coordinate on the summed axis put back.  Summing every axis but the second
  leaves the sum over each channel.
-/
import Mathlib
import ChannelNorm.Proofs.Gradient.Affine
import ChannelNorm.Proofs.Tensor.Reshape

namespace ChannelNorm

variable {α : Type}

namespace Tensor

/-! ## §1. Sums along one axis. -/

/-- A buffer filled in an order of visit holds, in order, what was put at each
index. -/
theorem toList_buildIn {order : VisitOrder} {dims : List Nat} {h : Addressable dims}
    {data : List α} {len : data.length = volume dims} {device : Device} {f : List Nat → α}
    (hdata : data = (order.indices dims).map f) :
    (buildIn order dims h data len device).toList = (indicesOf dims).map f := by
  cases order with
  | rows =>
      show (build dims h data len device).toList = _
      rw [toList_build, hdata]
      rfl
  | columns =>
      generalize ht : buildIn .columns dims h data len device = t
      have hlayout : t.layout = .columnMajor dims h := by rw [← ht]; rfl
      have hbuffer : t.buffer = data.toArray := by rw [← ht]; rfl
      have hdims : t.dims = dims := by
        show t.layout.dims = dims
        rw [hlayout]
        show dimsOf (rowMajorAxes dims.reverse).reverse = dims
        rw [dimsOf, List.map_reverse, ← dimsOf, dimsOf_rowMajorAxes, List.reverse_reverse]
      apply eq_map_indicesOf (by rw [length_toList, numel, hdims])
      intro i hi
      have hread := t.getElem?_toList (hdims.symm ▸ hi)
      -- column-major strides are row-major ones for the reversed dimensions
      have hpos : positionOf t.layout.axes i = flatIndex dims.reverse i.reverse := by
        rw [hlayout]
        show positionOf (rowMajorAxes dims.reverse).reverse i = _
        refine positionOf_reverse _ ?_
        have hlen := congrArg List.length (dimsOf_rowMajorAxes dims.reverse)
        rw [dimsOf, List.length_map, List.length_reverse] at hlen
        rw [hlen, length_of_mem_indicesOf hi]
      have hmem : i.reverse ∈ indicesOf dims.reverse := by
        refine reverse_mem_indicesOf ?_
        rwa [List.reverse_reverse]
      rw [hdims] at hread
      rw [hread, hpos, hbuffer, List.getElem?_toArray, hdata]
      show (((indicesOf dims.reverse).map List.reverse).map f)[_]? = _
      rw [List.map_map, List.getElem?_map, getElem?_indicesOf hmem]
      show some (f i.reverse.reverse) = some (f i)
      rw [List.reverse_reverse]

@[simp] theorem dims_buildIn {order : VisitOrder} {dims : List Nat} {h : Addressable dims}
    {data : List α} {len : data.length = volume dims} {device : Device} :
    (buildIn order dims h data len device).dims = dims := by
  cases order with
  | rows =>
      show (build dims h data len device).dims = dims
      exact dims_build
  | columns =>
      show dimsOf (rowMajorAxes dims.reverse).reverse = dims
      rw [dimsOf, List.map_reverse, ← dimsOf, dimsOf_rowMajorAxes, List.reverse_reverse]

theorem dims_sumAxis [Add α] [Zero α] (t : Tensor α) (a : Nat) :
    (t.sumAxis a).dims = t.dims.eraseIdx a :=
  dims_buildIn

/-- How a lane along an axis is summed: interleaved where the axis is the
tightest one and its elements are neighbours, else in order. -/
def laneSum [Add α] [Zero α] (t : Tensor α) (axis : Nat) : List α → α :=
  let summed := t.layout.axes.getD axis ⟨1, 0⟩
  if axis == tightestAxis t.layout.axes && (summed.stride == 1 || decide (summed.len ≤ 1)) then
    sumInterleaved
  else sumInOrder

/-- **A sum along an axis holds at every index the sum of its lane**, whatever
arithmetic is. -/
theorem toList_sumAxis_lanes [Add α] [Zero α] (t : Tensor α) {a : Nat} (ha : a < t.rank) :
    (t.sumAxis a).toList = (indicesOf (t.dims.eraseIdx a)).map fun i =>
      t.laneSum a ((List.range (t.dims.getD a 0)).map fun x =>
        t.elem (flatIndex t.dims (i.insertIdx a x))) := by
  have haxes : a < t.layout.axes.length := by
    have hlen : t.layout.dims.length = t.layout.axes.length := t.layout.length_dims
    rw [← hlen]
    exact ha
  have hrest : dimsOf (t.layout.axes.eraseIdx a) = t.dims.eraseIdx a := dimsOf_eraseIdx _ _
  have hlen : (t.layout.axes.getD a ⟨1, 0⟩).len = t.dims.getD a 0 := by
    show _ = (t.layout.axes.map Axis.len).getD a 0
    rw [List.getD_eq_getElem?_getD, List.getD_eq_getElem?_getD, List.getElem?_map,
      List.getElem?_eq_getElem haxes]
    rfl
  unfold sumAxis
  refine toList_buildIn ?_
  rw [VisitOrder.offsets_eq_map, hrest, List.map_map]
  apply List.map_congr_left
  intro i hi
  have hi := VisitOrder.mem_indices hi
  -- a lane is read at the indices that differ on the summed axis only
  have hlane : readAll t.buffer ((List.range (t.layout.axes.getD a ⟨1, 0⟩).len).map
        (0 + positionOf (t.layout.axes.eraseIdx a) i
          + · * (t.layout.axes.getD a ⟨1, 0⟩).stride))
      = (List.range (t.dims.getD a 0)).map fun x =>
          t.elem (flatIndex t.dims (i.insertIdx a x)) := by
    have hpos : (List.range (t.dims.getD a 0)).map
          (0 + positionOf (t.layout.axes.eraseIdx a) i
            + · * (t.layout.axes.getD a ⟨1, 0⟩).stride)
        = ((List.range (t.dims.getD a 0)).map fun x => i.insertIdx a x).map
            (positionOf t.layout.axes) := by
      rw [List.map_map]
      apply List.map_congr_left
      intro x _
      have hilen : i.length + 1 = t.layout.axes.length := by
        rw [length_of_mem_indicesOf hi, ← hrest, dimsOf, List.length_map,
          List.length_eraseIdx_of_lt haxes]
        omega
      show _ = positionOf t.layout.axes (i.insertIdx a x)
      rw [positionOf_insertIdx x haxes hilen, Nat.zero_add]
    rw [hlen, hpos, readAll_map_positionOf, List.map_map]
    · rfl
    · intro j hj
      obtain ⟨x, hx, rfl⟩ := List.mem_map.1 hj
      exact insertIdx_mem_indicesOf ha (List.mem_range.1 hx) hi
  simp only [Function.comp_apply]
  rw [hlane]
  rfl

/-- Where sums do not depend on their order, every lane is summed in order. -/
theorem laneSum_eq [Arith α] [LawfulArith α] (t : Tensor α) (a : Nat) (xs : List α) :
    t.laneSum a xs = sumInOrder xs := by
  unfold laneSum
  split
  · exact sumInterleaved_eq xs
  · rfl

theorem toList_sumAxis [Arith α] [LawfulArith α] (t : Tensor α) {a : Nat} (ha : a < t.rank) :
    (t.sumAxis a).toList = (indicesOf (t.dims.eraseIdx a)).map fun i =>
      sumInOrder ((List.range (t.dims.getD a 0)).map fun x =>
        t.elem (flatIndex t.dims (i.insertIdx a x))) := by
  rw [t.toList_sumAxis_lanes ha]
  exact List.map_congr_left fun i _ => t.laneSum_eq a _

/-- Over two axes of a row-major tensor the second is the tighter one, so that
the lanes of the first are summed in order. -/
theorem laneSum_rows [Add α] [Zero α] {t : Tensor α} {R L : Nat} (hL : 0 < L)
    (haxes : t.layout.axes = rowMajorAxes [R, L]) : t.laneSum 0 = sumInOrder := by
  have htight : tightestAxis (rowMajorAxes [R, L]) = 1 := by
    show (if 1 ≤ (if L * 1 ≤ L * 1 then (L * 1, 0) else (L * 1, 0)).1 then (1, 1)
      else if L * 1 ≤ L * 1 then (L * 1, 0) else (L * 1, 0)).2 = 1
    rw [Nat.mul_one, if_pos (Nat.le_refl L)]
    exact congrArg Prod.snd (if_pos hL)
  unfold laneSum
  rw [haxes, htight]
  rfl

/-- Summing the rows of a row-major tensor adds them up in order. -/
theorem toList_sumAxis_rows [Add α] [Zero α] {t : Tensor α} {R L : Nat}
    (haxes : t.layout.axes = rowMajorAxes [R, L]) :
    (t.sumAxis 0).toList = (List.range L).map fun c =>
      sumInOrder ((List.range R).map fun n => t.elem (n * L + c)) := by
  have hdims : t.dims = [R, L] := by
    show dimsOf t.layout.axes = _
    rw [haxes, dimsOf_rowMajorAxes]
  have hrank : 0 < t.rank := Nat.lt_of_lt_of_le Nat.zero_lt_two (two_le_rank hdims)
  have hflat : ∀ n c, flatIndex [R, L] [n, c] = n * L + c := fun n c => by
    show n * (L * 1) + (c * 1 + 0) = _
    rw [Nat.mul_one, Nat.mul_one, Nat.add_zero]
  rcases Nat.eq_zero_or_pos L with rfl | hL
  · -- there are no lanes
    apply List.eq_nil_of_length_eq_zero
    rw [length_toList, numel, dims_sumAxis, hdims]
    rfl
  · rw [t.toList_sumAxis_lanes hrank, hdims, laneSum_rows hL haxes]
    show ((indicesOf [L]).map _) = _
    rw [indicesOf_singleton, List.map_map]
    apply List.map_congr_left
    intro c _
    refine congrArg sumInOrder (List.map_congr_left fun n _ => ?_)
    exact congrArg t.elem (hflat n c)

theorem elem_sumAxis [Arith α] [LawfulArith α] (t : Tensor α) {a : Nat} (ha : a < t.rank)
    {i : List Nat} (hi : i ∈ indicesOf (t.dims.eraseIdx a)) :
    (t.sumAxis a).elem (flatIndex (t.dims.eraseIdx a) i)
      = sumInOrder ((List.range (t.dims.getD a 0)).map fun x =>
          t.elem (flatIndex t.dims (i.insertIdx a x))) := by
  unfold elem
  rw [toList_sumAxis t ha, List.getD_eq_getElem?_getD, List.getElem?_map, getElem?_indicesOf hi]
  rfl

/-! ## §2. Sums over all axes but the second. -/

section
variable [Arith α] [LawfulArith α]

/-- Summing the first of two axes sums every channel. -/
theorem toList_sumAxis_pair (t : Tensor α) {R L : Nat} (hdims : t.dims = [R, L]) :
    (t.sumAxis 0).toList = (List.range L).map fun j =>
      sumInOrder ((channelPlaces .rows [R, L] j).map t.elem) := by
  have hrank : 0 < t.rank := Nat.lt_of_lt_of_le Nat.zero_lt_two (two_le_rank hdims)
  rw [t.toList_sumAxis hrank, hdims]
  show (indicesOf [L]).map _ = _
  rw [indicesOf_singleton, List.map_map]
  refine List.map_congr_left fun j _ => ?_
  rw [channelPlaces_pair, List.map_map]
  rfl

/-- So does summing within each plane and then over the samples. -/
theorem toList_sumAxis_planes (t : Tensor α) {N C P : Nat} (hdims : t.dims = [N, C, P]) :
    ((t.sumAxis 2).sumAxis 0).toList = (List.range C).map fun c =>
      sumInOrder ((channelPlaces .rows [N, C, P] c).map t.elem) := by
  have hdims' : (t.sumAxis 2).dims = [N, C] := by
    rw [dims_sumAxis, hdims]
    rfl
  have hrank : 2 < t.rank := by
    unfold rank
    rw [hdims]
    exact Nat.lt_succ_self 2
  rw [(t.sumAxis 2).toList_sumAxis_pair hdims']
  refine List.map_congr_left fun c hc => ?_
  have hplanes : channelPlaces .rows [N, C, P] c
      = (List.range N).flatMap fun n => (List.range P).map fun s =>
          flatIndex [N, C, P] [n, c, s] := by
    show ((indicesOf [N, P]).map _).map _ = _
    rw [indicesOf_pair, List.map_flatMap, List.map_flatMap]
    simp only [List.map_map]
    rfl
  -- both are sums over samples of sums over a plane
  rw [channelPlaces_pair, hplanes, List.map_map, List.map_flatMap, sumInOrder_flatMap]
  refine congrArg sumInOrder (List.map_congr_left fun n hn => ?_)
  have hmem : [n, c] ∈ indicesOf (t.dims.eraseIdx 2) := by
    rw [hdims]
    exact cons_mem_indicesOf.2 ⟨List.mem_range.1 hn,
      cons_mem_indicesOf.2 ⟨List.mem_range.1 hc, mem_indicesOf_nil.2 rfl⟩⟩
  have hsum := t.elem_sumAxis hrank hmem
  rw [hdims] at hsum
  show (t.sumAxis 2).elem (flatIndex [N, C] [n, c])
    = sumInOrder (((List.range P).map fun s => flatIndex [N, C, P] [n, c, s]).map t.elem)
  rw [List.map_map]
  exact hsum

end

/-- Over the reals these are sums over sets of places. -/
theorem elem_sumAxis_rows (t : Tensor ℝ) {R L j : Nat} (hdims : t.dims = [R, L]) (hj : j < L) :
    (t.sumAxis 0).elem j = ∑ k ∈ channelSet [R, L] j, t.elem k := by
  rw [elem_of_toList_eq_map (t.toList_sumAxis_pair hdims) hj, sumInOrder_real]
  exact sum_channelPlaces .rows (show 2 ≤ [R, L].length from Nat.le_refl 2) hj t.elem

theorem elem_sumAxis_planes (t : Tensor ℝ) {N C P c : Nat} (hdims : t.dims = [N, C, P])
    (hc : c < C) :
    ((t.sumAxis 2).sumAxis 0).elem c = ∑ k ∈ channelSet [N, C, P] c, t.elem k := by
  rw [elem_of_toList_eq_map (t.toList_sumAxis_planes hdims) hc, sumInOrder_real]
  exact sum_channelPlaces .rows (show 2 ≤ [N, C, P].length from Nat.le_succ 2) hc t.elem

end Tensor

end ChannelNorm

/-
  ChannelNorm.Proofs.Tensor.Representation
  ────────────────────────────────────────
  **A TENSOR IS A LIST OF ELEMENTS UNDER A SHAPE.**

  Whatever calls lead to a tensor, its sizes, its elements, its slices and its
  copies are those of one list of elements under one shape.  There are two steps:

      Obtained average s            →   s.shape.dims = s.array.dims
      s.shape.dims = s.array.dims   →   s.Represents

  The first is an induction over the calls, one case for each operation.  The
  second holds for all strides and does not ask how `s` came about.
-/
import ChannelNorm.Proofs.Tensor.Stored

namespace ChannelNorm

variable {α : Type}

namespace StoredTensor

/-! ## §1. Tensors that calls lead to. -/

/-- The tensors some finite sequence of calls leads to. -/
inductive Obtained [Zero α] [One α] [Mul α] [Add α] (average : AxisAverage α) :
    StoredTensor α → Prop
  | fromVec {data dims r} (h : fromVec data dims = .ok r) : Obtained average r
  | zeros {dims r} (h : zeros dims = .ok r) : Obtained average r
  | ones {dims r} (h : ones dims = .ok r) : Obtained average r
  | full {dims value r} (h : full dims value = .ok r) : Obtained average r
  | fromArray (a : StridedArray α) : Obtained average (fromArray a)
  | toDevice {s} (hs : Obtained average s) (device : Device) : Obtained average (s.toDevice device)
  | emptyLike {s r} (hs : Obtained average s) (h : s.emptyLike = .ok r) : Obtained average r
  | permute {s order r} (hs : Obtained average s) (h : s.permute order = .ok r) :
      Obtained average r
  | reshape {s target r} (hs : Obtained average s) (h : s.reshape target = .ok r) :
      Obtained average r
  | reshapeInfer {s target r} (hs : Obtained average s) (h : s.reshapeInfer target = .ok r) :
      Obtained average r
  | contiguous {s} (hs : Obtained average s) : Obtained average s.contiguous
  | tile {s times r} (hs : Obtained average s) (h : s.tile times = .ok r) : Obtained average r
  | affine {s scale shift r} (hs : Obtained average s)
      (hscale : ∀ p, scale = some p → Obtained average p)
      (hshift : ∀ p, shift = some p → Obtained average p)
      (h : s.affine scale shift = .ok r) : Obtained average r
  | meanAxis0 {s r} (hs : Obtained average s) (h : s.meanAxis0 average = .ok r) :
      Obtained average r
  | copyFrom {s src r} (hs : Obtained average s) (hsrc : Obtained average src)
      (h : s.copyFrom src = .ok r) : Obtained average r

/-! ## §2. What every call keeps. -/

/-- The shape written down is that of the array. -/
def Coherent (s : StoredTensor α) : Prop :=
  s.shape.dims = s.array.dims

section
variable {s r : StoredTensor α}

theorem coherent_fromArray (a : StridedArray α) : (fromArray a).Coherent :=
  rfl

theorem coherent_withArray (s : StoredTensor α) (a : StridedArray α) : (s.withArray a).Coherent :=
  rfl

theorem Coherent.toDevice (hs : s.Coherent) (device : Device) : (s.toDevice device).Coherent :=
  hs

theorem coherent_full {dims : List Nat} {value : α} (h : full dims value = .ok r) :
    r.Coherent := by
  unfold full at h
  split at h
  · cases h
    exact coherent_fromArray _
  · cases h

theorem coherent_fromVec {data : List α} {dims : List Nat} (h : fromVec data dims = .ok r) :
    r.Coherent := by
  unfold fromVec at h
  split at h
  · split at h
    · cases h
      exact coherent_fromArray _
    · cases h
  · cases h

theorem coherent_emptyLike [Zero α] (h : s.emptyLike = .ok r) : r.Coherent := by
  obtain ⟨empty, hempty, hr⟩ := bind_eq_ok.1 h
  have hcoherent : empty.Coherent := coherent_full hempty
  cases hr
  exact hcoherent.toDevice s.device

theorem Coherent.contiguous (hs : s.Coherent) : s.contiguous.Coherent := by
  unfold StoredTensor.contiguous
  split
  · exact hs
  · exact coherent_withArray s _

theorem coherent_permute {order : List Nat} (h : s.permute order = .ok r) : r.Coherent := by
  unfold permute at h
  split at h
  · cases h
  · split at h
    · cases h
      exact coherent_withArray s _
    · cases h

theorem coherent_reshape {target : List Nat} (h : s.reshape target = .ok r) : r.Coherent := by
  unfold reshape at h
  split at h
  · cases h
  · obtain ⟨reshaped, _, hr⟩ := bind_eq_ok.1 h
    cases hr
    exact coherent_withArray s _

theorem coherent_reshapeInfer {target : List Int} (h : s.reshapeInfer target = .ok r) :
    r.Coherent := by
  obtain ⟨axis?, _, hr⟩ := bind_eq_ok.1 h
  cases axis? with
  | none => exact coherent_reshape hr
  | some axis =>
      dsimp only at hr
      split at hr
      · cases hr
      · exact coherent_reshape hr

theorem coherent_tile {times : Nat} (h : s.tile times = .ok r) : r.Coherent := by
  unfold tile withVector at h
  split at h
  · cases h
  · split at h
    · cases h
      exact coherent_withArray s _
    · cases h

theorem coherent_affine [Mul α] [Add α] {scale shift : Option (StoredTensor α)}
    (h : s.affine scale shift = .ok r) : r.Coherent := by
  obtain ⟨scaled, _, h⟩ := bind_eq_ok.1 h
  obtain ⟨shifted, _, hr⟩ := bind_eq_ok.1 h
  cases hr
  exact coherent_withArray s _

theorem coherent_meanAxis0 {average : AxisAverage α} (h : s.meanAxis0 average = .ok r) :
    r.Coherent := by
  obtain ⟨n, _, hr⟩ := bind_eq_ok.1 h
  split at hr
  · cases hr
  · cases hr
    exact coherent_withArray s _

/-- Writing in place keeps the array's own dimensions, whatever is written. -/
theorem Coherent.copyFrom {src : StoredTensor α} (hs : s.Coherent) (h : s.copyFrom src = .ok r) :
    r.Coherent := by
  unfold StoredTensor.copyFrom at h
  split at h
  · split at h
    next a ha =>
      obtain ⟨values, _, rfl⟩ := Option.map_eq_some_iff.1 ha
      cases h
      exact hs
    next => cases h
  · cases h

end

/-- **The shape written down stays that of the array**, through any sequence of
calls. -/
theorem Obtained.coherent [Zero α] [One α] [Mul α] [Add α] {average : AxisAverage α}
    {s : StoredTensor α} (h : Obtained average s) : s.Coherent := by
  induction h with
  | fromVec h => exact coherent_fromVec h
  | zeros h => exact coherent_full h
  | ones h => exact coherent_full h
  | full h => exact coherent_full h
  | fromArray a => exact coherent_fromArray a
  | toDevice _ device ih => exact ih.toDevice device
  | emptyLike _ h _ => exact coherent_emptyLike h
  | permute _ h _ => exact coherent_permute h
  | reshape _ h _ => exact coherent_reshape h
  | reshapeInfer _ h _ => exact coherent_reshapeInfer h
  | contiguous _ ih => exact ih.contiguous
  | tile _ h _ => exact coherent_tile h
  | affine _ _ _ h _ _ _ => exact coherent_affine h
  | meanAxis0 _ h _ => exact coherent_meanAxis0 h
  | copyFrom _ _ h ih _ => exact ih.copyFrom h

/-! ## §3. What a tensor represents. -/

end StoredTensor

/-- One in-range coordinate for each axis. -/
theorem mem_indicesOf_iff_forall₂ {dims i : List Nat} :
    i ∈ indicesOf dims ↔ List.Forall₂ (· < ·) i dims := by
  rw [mem_indicesOf_iff, List.forall₂_iff_zip]
  exact and_congr_right fun _ => ⟨fun h _ _ hp => h _ hp, fun h p hp => h hp⟩

theorem volume_eq_prod (dims : List Nat) : volume dims = dims.prod := by
  induction dims with
  | nil => rfl
  | cons d ds ih => rw [volume_cons, ih, List.prod_cons]

namespace StoredTensor

/-- A tensor whose sizes, elements, slices and copies are those of one list of
elements under one shape. -/
structure Represents (s : StoredTensor α) : Prop where
  numel_eq_prod : s.numel = s.dims.prod
  numel_eq_length : s.numel = s.toVec.length
  /-- No product of dimensions leaves the machine's words. -/
  numel_le : s.numel ≤ maxExtent
  isSome_get_iff : ∀ index,
    (s.get? index).isSome = true ↔ List.Forall₂ (· < ·) index s.dims
  get_eq : ∀ index, List.Forall₂ (· < ·) index s.dims →
    s.get? index = s.toVec[flatIndex s.dims index]?
  isSome_asSlice_iff : s.asSlice?.isSome = true ↔ s.isContiguous = true
  asSlice_eq : ∀ slice, s.asSlice? = some slice → slice.toList = s.toVec
  isContiguous_contiguous : s.contiguous.isContiguous = true
  shape_contiguous : s.contiguous.shape = s.shape
  device_contiguous : s.contiguous.device = s.device
  toVec_contiguous : s.contiguous.toVec = s.toVec
  contiguous_contiguous : s.contiguous.contiguous = s.contiguous

section
variable (s : StoredTensor α)

theorem isContiguous_contiguous : s.contiguous.isContiguous = true := by
  unfold contiguous
  split
  next h => exact h
  next => exact s.array.isStandard_standard

theorem device_contiguous : s.contiguous.device = s.device := by
  unfold contiguous
  split <;> rfl

theorem toVec_contiguous : s.contiguous.toVec = s.toVec := by
  unfold contiguous
  split
  · rfl
  · exact s.array.toList_standard

theorem contiguous_contiguous : s.contiguous.contiguous = s.contiguous :=
  if_pos s.isContiguous_contiguous

theorem isSome_asSlice?_iff : s.asSlice?.isSome = true ↔ s.isContiguous = true := by
  unfold asSlice? StridedArray.asSlice? isContiguous
  split
  next h => exact iff_of_true rfl h
  next h => exact iff_of_false Bool.false_ne_true h

theorem toList_of_asSlice?_eq {slice : Array α} (h : s.asSlice? = some slice) :
    slice.toList = s.toVec := by
  have hcontiguous : s.isContiguous = true := s.isSome_asSlice?_iff.1 (by rw [h]; rfl)
  have hslice : s.asSlice? = some s.toVec.toArray := s.array.asSlice?_eq hcontiguous
  rw [← Option.some.inj (hslice.symm.trans h)]

end

namespace Coherent

variable {s : StoredTensor α} (hs : s.Coherent)
include hs

theorem dims_eq : s.dims = s.array.dims :=
  hs

theorem numel_eq : s.numel = volume s.array.dims :=
  congrArg volume hs

theorem shape_contiguous : s.contiguous.shape = s.shape := by
  unfold StoredTensor.contiguous
  split
  · rfl
  · show Shape.mk s.array.standard.dims = s.shape
    rw [s.array.dims_standard, ← hs]

/-- **A tensor whose shape is that of its array represents its elements**,
whatever the strides. -/
theorem represents : s.Represents where
  numel_eq_prod := volume_eq_prod s.dims
  numel_eq_length := hs.numel_eq.trans s.array.length_toList.symm
  numel_le := by
    rw [hs.numel_eq]
    exact (volume_le_extent s.array.dims).trans s.array.addressable
  isSome_get_iff index := by
    rw [s.get?_eq, hs.dims_eq, s.array.isSome_get?_iff, mem_indicesOf_iff_forall₂]
  get_eq index h := by
    rw [hs.dims_eq] at h ⊢
    rw [s.get?_eq]
    exact s.array.get?_of_mem (mem_indicesOf_iff_forall₂.2 h)
  isSome_asSlice_iff := s.isSome_asSlice?_iff
  asSlice_eq _ h := s.toList_of_asSlice?_eq h
  isContiguous_contiguous := s.isContiguous_contiguous
  shape_contiguous := hs.shape_contiguous
  device_contiguous := s.device_contiguous
  toVec_contiguous := s.toVec_contiguous
  contiguous_contiguous := s.contiguous_contiguous

/-- A copy between tensors of one shape goes through. -/
theorem copyFrom_eq {src : StoredTensor α} (hsrc : src.Coherent) (hshape : s.shape = src.shape) :
    s.copyFrom src = .ok { s with array := s.array.overwrite src.toVec } := by
  have hdims : src.array.dims = s.array.dims := by
    rw [← hs.dims_eq, ← hsrc.dims_eq]
    exact congrArg Shape.dims hshape.symm
  unfold StoredTensor.copyFrom
  rw [if_pos hshape, StridedArray.assign?_of_dims_eq hdims]
  rfl

/-- No other copy does. -/
theorem exists_copyFrom_iff {src : StoredTensor α} (hsrc : src.Coherent) :
    (∃ r, s.copyFrom src = .ok r) ↔ s.shape = src.shape := by
  constructor
  · rintro ⟨r, hr⟩
    by_contra hshape
    unfold StoredTensor.copyFrom at hr
    rw [if_neg hshape] at hr
    cases hr
  · intro hshape
    exact ⟨_, hs.copyFrom_eq hsrc hshape⟩

/-- A successful copy brings over all elements, and keeps shape and device. -/
theorem of_copyFrom {src r : StoredTensor α} (hsrc : src.Coherent) (h : s.copyFrom src = .ok r) :
    r.toVec = src.toVec ∧ r.shape = s.shape ∧ r.device = s.device := by
  have hshape : s.shape = src.shape := (hs.exists_copyFrom_iff hsrc).1 ⟨r, h⟩
  rw [hs.copyFrom_eq hsrc hshape] at h
  cases h
  refine ⟨StridedArray.toList_overwrite ?_, rfl, rfl⟩
  rw [toVec, StridedArray.length_toList, ← hs.dims_eq, ← hsrc.dims_eq]
  exact congrArg (fun shape : Shape => volume shape.dims) hshape.symm

end Coherent

end StoredTensor

/-! ## §4. The invariant. -/

/-- Lanes along the leading axis, added up in order and divided. -/
def AxisAverage.inOrder [Zero α] [Add α] (divide : α → Nat → α) : AxisAverage α where
  along a :=
    .fresh a.dims.tail
      (by
        rw [← List.eraseIdx_zero]
        exact (extent_eraseIdx_le a.dims 0).trans a.addressable)
      ((indicesOf a.dims.tail).map fun i =>
        divide (((List.range (a.dims.headD 0)).filterMap fun k => a.get? (k :: i)).foldl (· + ·) 0)
          (a.dims.headD 0))
      (by rw [List.length_map, length_indicesOf])
  dims_along a n rest h _ := by
    rw [StridedArray.dims_fresh, h]
    rfl

namespace StoredTensor

/-- **Every tensor that calls lead to represents its elements.**  A copy between two
of them succeeds when they have one shape, brings over all elements and keeps
shape and device.  The tensors of `ChannelNorm.Tensor.Basic`, whatever their
layout, are among them, with the operations they have there. -/
theorem obtained_represents [Zero α] [One α] [Mul α] [Add α] (average : AxisAverage α) :
    (∀ s : StoredTensor α, Obtained average s → s.Represents)
      ∧ (∀ dst src : StoredTensor α, Obtained average dst → Obtained average src →
          ((∃ r, dst.copyFrom src = .ok r) ↔ dst.shape = src.shape)
            ∧ ∀ r, dst.copyFrom src = .ok r →
              r.toVec = src.toVec ∧ r.shape = dst.shape ∧ r.device = dst.device)
      ∧ ∀ t : Tensor α, Obtained average t.stored ∧ ActsAs t := by
  refine ⟨?_, ?_, ?_⟩
  · intro s hs
    exact hs.coherent.represents
  · intro dst src hdst hsrc
    refine ⟨hdst.coherent.exists_copyFrom_iff hsrc.coherent, fun r hcopy => ?_⟩
    exact hdst.coherent.of_copyFrom hsrc.coherent hcopy
  · intro t
    have htaken : (fromArray t.strided).toDevice t.device = t.stored :=
      withArray_strided (s := t.stored) rfl
    refine ⟨?_, actsAs_stored t⟩
    rw [← htaken]
    exact (Obtained.fromArray t.strided).toDevice t.device

/-- Two rows of three, both axes running backwards through the buffer. -/
def mirrored : StridedArray Int where
  axes := [⟨2, -1⟩, ⟨3, -2⟩]
  start := 5
  buffer := #[0, 1, 2, 3, 4, 5]
  bound := by decide
  apart := by decide
  addressable := by decide

theorem obtained_represents_mirrored :
    ∃ dst r : StoredTensor Int, full [2, 3] 7 = .ok dst
      ∧ dst.copyFrom (fromArray mirrored) = .ok r
      ∧ (fromArray mirrored).Represents ∧ (fromArray mirrored).isContiguous = false
      ∧ r.toVec = [5, 3, 1, 4, 2, 0] ∧ r.shape = ⟨[2, 3]⟩ := by
  obtain ⟨hrepresents, hcopies, _⟩ :=
    obtained_represents (AxisAverage.inOrder fun (x : Int) n => x / n)
  have hfull := full_eq [2, 3] (by decide) (7 : Int)
  obtain ⟨hsucceeds, hcopied⟩ := hcopies _ _ (.full hfull) (.fromArray mirrored)
  obtain ⟨r, hcopy⟩ := hsucceeds.2 rfl
  obtain ⟨hcontents, hshape, _⟩ := hcopied r hcopy
  exact ⟨_, r, hfull, hcopy, hrepresents _ (.fromArray mirrored), rfl, hcontents.trans rfl, hshape⟩

end StoredTensor

end ChannelNorm

/-
  ChannelNorm.Proofs.Tensor.Stored
  ────────────────────────────────
  **TENSORS THAT KEEP THEIR SHAPE BESIDE THEIR ARRAY.**

  The operations on tensors once more, on a record that keeps an array in memory
  and, apart from it, the shape written down when the array was taken over.
  Sizes are answered from the shape, elements from the array, and every operation
  checks against the one or the other; where an array operation stops on operands
  that do not fit, the call panics.  Any strided array may be taken over, and how
  an axis is averaged is left open.

  A tensor is stored with its own array and its own shape.  On stored tensors all
  readings, and all operations with their refusals, are those of the tensors:

      t.stored.get? i  =  t.get? i
      t.stored.reshape dims  =  storing (t.reshape dims)        and so on
-/
import ChannelNorm.Proofs.BatchNorm.Guarded
import ChannelNorm.Proofs.Tensor.Fitting
import ChannelNorm.Proofs.Tensor.Reading
import ChannelNorm.Tensor.Reduce

namespace ChannelNorm

variable {α : Type}

/-! ## §1. The record and what is read of it. -/

/-- An array, the shape written down for it and a placement tag. -/
structure StoredTensor (α : Type) where
  array : StridedArray α
  shape : Shape
  device : Device

namespace StoredTensor

section
variable (s : StoredTensor α)

def dims : List Nat :=
  s.shape.dims

def rank : Nat :=
  s.shape.rank

def numel : Nat :=
  s.shape.size

def isContiguous : Bool :=
  s.array.isStandard

def asSlice? : Option (Array α) :=
  s.array.asSlice?

/-- The element of an index, which must have as many coordinates as the array has
axes. -/
def get? (index : List Nat) : Option α :=
  if index.length ≠ s.array.rank then none else s.array.get? index

/-- The elements in row-major order. -/
def toVec : List α :=
  s.array.toList

end

/-! ## §2. The operations. -/

/-- An array taken over with its strides; the shape is written down here. -/
def fromArray (a : StridedArray α) : StoredTensor α :=
  ⟨a, ⟨a.dims⟩, .cpu⟩

def toDevice (s : StoredTensor α) (device : Device) : StoredTensor α :=
  { s with device }

/-- An array taken over on the device of `s`. -/
def withArray (s : StoredTensor α) (a : StridedArray α) : StoredTensor α :=
  (fromArray a).toDevice s.device

/-- Every element is `value`; no memory holds more than can be addressed. -/
def full (dims : List Nat) (value : α) : Guarded (StoredTensor α) :=
  if h : Addressable dims then pure (fromArray (Tensor.full dims h value).strided)
  else throw .panicked

def zeros [Zero α] (dims : List Nat) : Guarded (StoredTensor α) :=
  full dims 0

def ones [One α] (dims : List Nat) : Guarded (StoredTensor α) :=
  full dims 1

/-- A row-major tensor from its elements. -/
def fromVec (data : List α) (dims : List Nat) : Guarded (StoredTensor α) :=
  if len : data.length = volume dims then
    if h : Addressable dims then pure (fromArray (.fresh dims h data len))
    else throw (.refused .addressOverflow)
  else throw (.refused (.lengthMismatch data.length dims))

/-- A row-major tensor of zeros of the shape and device of `s`. -/
def emptyLike [Zero α] (s : StoredTensor α) : Guarded (StoredTensor α) := do
  let empty ← zeros s.dims
  return empty.toDevice s.device

/-- The tensor itself if it is contiguous, else a row-major copy. -/
def contiguous (s : StoredTensor α) : StoredTensor α :=
  if s.isContiguous then s else s.withArray s.array.standard

/-- The same contents under another shape; the count is checked on the shape that
is written down, and again by the array. -/
def reshape (s : StoredTensor α) (target : List Nat) : Guarded (StoredTensor α) :=
  if volume target ≠ s.numel then throw (.refused (.reshapeCount s.numel target s.dims))
  else do
    let reshaped ← Guarded.ofExcept (s.array.standard.withShape target)
    return s.withArray reshaped

/-- Reshape where at most one dimension is `-1` and follows from the others. -/
def reshapeInfer (s : StoredTensor α) (target : List Int) : Guarded (StoredTensor α) := do
  match ← Guarded.ofExcept (Tensor.openDimension? target 0 none) with
  | none => s.reshape (target.map Int.toNat)
  | some axis =>
      let known := Tensor.knownSize target
      if known = 0 ∨ s.numel % known ≠ 0 then
        throw (.refused (.cannotInfer axis target s.dims))
      else s.reshape ((target.map Int.toNat).set axis (s.numel / known))

/-- Whether a scan of an axis order, up to the first entry that ends it, meets
one that is no axis or that it has seen. -/
def meetsBadAxis : List Bool → List Nat → Bool
  | _, [] => false
  | seen, a :: as =>
      decide (seen.length ≤ a) || seen.getD a false || meetsBadAxis (seen.set a true) as

/-- Axis `i` of the result is axis `order[i]`; the array is copied as it lies. -/
def permute (s : StoredTensor α) (order : List Nat) : Guarded (StoredTensor α) :=
  if order.length ≠ s.rank ∨ meetsBadAxis (List.replicate s.rank false) order = true then
    throw (.refused (.notPermutation order s.rank))
  else
    match s.array.permute? order with
    | some a => pure (s.withArray a)
    | none => throw .panicked

/-- One axis holding the given elements, on the device of `s`. -/
def withVector (s : StoredTensor α) (data : List α) : Guarded (StoredTensor α) :=
  if h : Addressable [data.length] then
    pure (s.withArray (.fresh [data.length] h data (volume_singleton _).symm))
  else throw (.refused .addressOverflow)

/-- A vector laid `times` times end to end. -/
def tile (s : StoredTensor α) (times : Nat) : Guarded (StoredTensor α) :=
  if s.rank ≠ 1 then throw (.refused (.tileRank s.dims))
  else s.withVector (Tensor.tiled times s.toVec)

/-- Combine every element with the matching one of an operand stretched to
`dims`; the loop over both takes operands of one shape only. -/
def combine (dims : List Nat) (f : α → α → α) (out : StridedArray α) :
    Option (StoredTensor α) → Guarded (StridedArray α)
  | none => pure out
  | some operand => do
      let values ← Guarded.orRefuse (.notBroadcastable dims operand.dims)
        (operand.array.broadcast? dims)
      Guarded.require (out.dims = dims)
      return out.overwrite (List.zipWith f out.toList values)

/-- `s * scale + shift`, both operands stretched to the shape of `s`. -/
def affine [Mul α] [Add α] (s : StoredTensor α) (scale shift : Option (StoredTensor α)) :
    Guarded (StoredTensor α) := do
  let scaled ← combine s.dims (· * ·) s.array.standard scale
  let shifted ← combine s.dims (· + ·) scaled shift
  return s.withArray shifted

end StoredTensor

/-- A way to average an array over its leading axis, which the result no longer
has. -/
structure AxisAverage (α : Type) where
  along : StridedArray α → StridedArray α
  dims_along : ∀ a n rest, a.dims = n :: rest → n ≠ 0 → (along a).dims = rest

namespace StoredTensor

/-- Average over the leading axis, which must be there and must not be empty. -/
def meanAxis0 (average : AxisAverage α) (s : StoredTensor α) : Guarded (StoredTensor α) := do
  let n ← Guarded.entry s.array.dims 0
  if n = 0 then throw (.refused (.emptyAverage s.dims))
  else return s.withArray (average.along s.array)

/-- Overwrite every element with the matching element of `src`. -/
def copyFrom (s src : StoredTensor α) : Guarded (StoredTensor α) :=
  if s.shape = src.shape then
    match s.array.assign? src.array with
    | some a => pure { s with array := a }
    | none => throw .panicked
  else throw (.refused (.copyShape s.shape src.shape))

end StoredTensor

/-! ## §3. Tensors, stored. -/

theorem Tensor.device_buildIn {order : VisitOrder} {dims : List Nat} {h : Addressable dims}
    {data : List α} {len : data.length = volume dims} {device : Device} :
    (Tensor.buildIn order dims h data len device).device = device := by
  cases order <;> rfl

/-- A tensor with its shape written down. -/
def Tensor.stored (t : Tensor α) : StoredTensor α :=
  ⟨t.strided, t.shape, t.device⟩

/-- An outcome that is a tensor, stored. -/
def Guarded.storing (r : Except TensorError (Tensor α)) : Guarded (StoredTensor α) :=
  (Guarded.ofExcept r).map Tensor.stored

namespace StoredTensor

/-- All that is read of `s` is what is read of `t`. -/
structure ReadsAs (s : StoredTensor α) (t : Tensor α) : Prop where
  shape : s.shape = t.shape
  device : s.device = t.device
  rank : s.rank = t.rank
  numel : s.numel = t.numel
  toVec : s.toVec = t.toList
  get : ∀ index, s.get? index = t.get? index
  isContiguous : s.isContiguous = t.isContiguous
  asSlice : s.asSlice? = t.asSlice?

/-- An index of another length is no index of the array. -/
theorem get?_eq (s : StoredTensor α) (index : List Nat) : s.get? index = s.array.get? index := by
  unfold get?
  split
  next hlen =>
    refine (s.array.get?_of_notMem fun hmem => hlen ?_).symm
    rw [length_of_mem_indicesOf hmem, s.array.length_dims]
  next => rfl

/-- A tensor that reads the array, of the shape written down, reads the whole. -/
theorem readsAs_of_reads {s : StoredTensor α} {t : Tensor α} (h : t.Reads s.array)
    (hshape : s.shape = t.shape) (hdevice : s.device = t.device) : s.ReadsAs t where
  shape := hshape
  device := hdevice
  rank := congrArg Shape.rank hshape
  numel := congrArg Shape.size hshape
  toVec := h.contents.symm
  get index := (s.get?_eq index).trans (h.get?_eq index).symm
  isContiguous := h.isContiguous.symm
  asSlice := h.asSlice?_eq.symm

theorem readsAs_stored (t : Tensor α) : t.stored.ReadsAs t :=
  readsAs_of_reads t.reads_strided rfl rfl

theorem withArray_strided {s : StoredTensor α} {t : Tensor α} (h : s.device = t.device) :
    s.withArray t.strided = t.stored := by
  unfold withArray fromArray toDevice Tensor.stored
  rw [t.dims_strided, h]
  rfl

theorem fromArray_fresh {dims : List Nat} (h : Addressable dims) {data : List α}
    (len : data.length = volume dims) :
    fromArray (.fresh dims h data len) = (Tensor.build dims h data len .cpu).stored :=
  withArray_strided (s := (Tensor.build dims h data len .cpu).stored) rfl

theorem fromVec_eq (data : List α) (dims : List Nat) :
    fromVec data dims = Guarded.storing (Tensor.ofList data dims) := by
  unfold fromVec Tensor.ofList
  split
  · split
    · exact congrArg Except.ok (fromArray_fresh _ _)
    · rfl
  · rfl

theorem full_eq (dims : List Nat) (h : Addressable dims) (value : α) :
    full dims value = .ok (Tensor.full dims h value).stored := by
  unfold full
  rw [dif_pos h]
  exact congrArg Except.ok (withArray_strided (s := (Tensor.full dims h value).stored) rfl)

theorem emptyLike_stored [Zero α] (t : Tensor α) :
    t.stored.emptyLike = .ok (t.zerosLike : Tensor α).stored := by
  have hzeros : zeros t.stored.dims = .ok (Tensor.full t.dims t.addressable (0 : α)).stored :=
    full_eq t.dims t.addressable 0
  unfold emptyLike
  rw [hzeros]
  rfl

/-! ## §4. Operations on stored tensors. -/

theorem contiguous_stored (t : Tensor α) : t.stored.contiguous = t.contiguous.stored := by
  have hcontiguous : t.stored.isContiguous = t.isContiguous := t.isStandard_strided
  unfold contiguous
  rw [hcontiguous]
  by_cases h : t.isContiguous = true
  · rw [if_pos h, Tensor.contiguous, if_pos h]
  · rw [if_neg h]
    show t.stored.withArray t.strided.standard = _
    rw [t.standard_strided, withArray_strided t.device_contiguous.symm]

theorem reshape_stored (t : Tensor α) (target : List Nat) :
    t.stored.reshape target = Guarded.storing (t.reshape target) := by
  unfold reshape Tensor.reshape
  by_cases len : volume target = t.numel
  · rw [if_neg (show ¬ volume target ≠ t.stored.numel from not_not_intro len), dif_pos len]
    have hlen : volume target = volume t.stored.array.standard.dims := by
      rw [StridedArray.dims_standard]
      exact len.trans (congrArg volume t.dims_strided).symm
    have hcontents : t.stored.array.standard.toList = t.toList :=
      (StridedArray.toList_standard _).trans t.toList_strided
    rw [StridedArray.withShape_of_volume_eq hlen]
    split
    next h =>
      have hfresh : StridedArray.fresh target h t.stored.array.standard.toList
            (t.stored.array.standard.length_toList.trans hlen.symm)
          = StridedArray.fresh target h t.toList (t.length_toList.trans len.symm) :=
        StridedArray.fresh_congr rfl hcontents
      rw [hfresh]
      exact congrArg Except.ok (withArray_strided (t := Tensor.build _ _ _ _ t.device) rfl)
    next => rfl
  · rw [if_pos (show volume target ≠ t.stored.numel from len), dif_neg len]
    rfl

theorem reshapeInfer_stored (t : Tensor α) (target : List Int) :
    t.stored.reshapeInfer target = Guarded.storing (t.reshapeInfer target) := by
  unfold reshapeInfer Tensor.reshapeInfer
  cases Tensor.openDimension? target 0 none with
  | error e => rfl
  | ok axis? =>
      cases axis? with
      | none => exact reshape_stored t _
      | some axis =>
          show (if Tensor.knownSize target = 0 ∨ t.numel % Tensor.knownSize target ≠ 0 then _
            else _) = _
          dsimp only
          by_cases hopen : Tensor.knownSize target = 0 ∨ t.numel % Tensor.knownSize target ≠ 0
          · rw [if_pos hopen, if_pos hopen]
            rfl
          · rw [if_neg hopen, if_neg hopen]
            exact reshape_stored t _

/-- What is unseen once `a` was seen: what was unseen before, `a` apart. -/
theorem getD_set_eq_false_iff {seen : List Bool} {a : Nat} (ha : a < seen.length) (b : Nat) :
    (seen.set a true).getD b false = false ↔ b ≠ a ∧ seen.getD b false = false := by
  rw [List.getD_eq_getElem?_getD, List.getD_eq_getElem?_getD]
  by_cases hab : a = b
  · subst hab
    rw [List.getElem?_set_self ha]
    exact iff_of_false nofun fun h => h.1 rfl
  · rw [List.getElem?_set_ne hab]
    exact (and_iff_right (Ne.symm hab)).symm

/-- The scan passes lists without repetition whose entries are axes it has not
seen. -/
theorem meetsBadAxis_eq_false_iff {seen : List Bool} {order : List Nat} :
    meetsBadAxis seen order = false
      ↔ order.Nodup ∧ ∀ a ∈ order, a < seen.length ∧ seen.getD a false = false := by
  -- on the list; what was seen grows by one entry at every step
  induction order generalizing seen with
  | nil => exact iff_of_true rfl ⟨List.nodup_nil, nofun⟩
  | cons a as ih =>
      show (decide (seen.length ≤ a) || seen.getD a false || meetsBadAxis (seen.set a true) as)
        = false ↔ _
      rw [Bool.or_eq_false_iff, Bool.or_eq_false_iff, ih, decide_eq_false_iff_not, Nat.not_le,
        List.nodup_cons, List.length_set]
      constructor
      · rintro ⟨⟨hlt, hnew⟩, hnodup, hrest⟩
        have hunseen : ∀ b ∈ as, b ≠ a ∧ seen.getD b false = false := fun b hb =>
          (getD_set_eq_false_iff hlt b).1 (hrest b hb).2
        refine ⟨⟨fun ha => (hunseen a ha).1 rfl, hnodup⟩, fun b hb => ?_⟩
        rcases List.mem_cons.1 hb with rfl | hb
        · exact ⟨hlt, hnew⟩
        · exact ⟨(hrest b hb).1, (hunseen b hb).2⟩
      · rintro ⟨⟨hnotMem, hnodup⟩, hall⟩
        obtain ⟨hlt, hnew⟩ := hall a List.mem_cons_self
        refine ⟨⟨hlt, hnew⟩, hnodup, fun b hb => ?_⟩
        obtain ⟨hb', hbnew⟩ := hall b (List.mem_cons_of_mem a hb)
        exact ⟨hb', (getD_set_eq_false_iff hlt b).2 ⟨ne_of_mem_of_not_mem hb hnotMem, hbnew⟩⟩

/-- **The scan passes permutations, and nothing else** of the right length. -/
theorem isPerm_range_iff {n : Nat} {order : List Nat} :
    order.isPerm (List.range n) = true
      ↔ order.length = n ∧ meetsBadAxis (List.replicate n false) order = false := by
  rw [List.isPerm_iff, meetsBadAxis_eq_false_iff, List.length_replicate]
  constructor
  · intro h
    refine ⟨h.length_eq.trans List.length_range, h.nodup_iff.2 List.nodup_range, fun a ha => ?_⟩
    have hlt : a < n := List.mem_range.1 (h.mem_iff.1 ha)
    exact ⟨hlt, by simp [hlt]⟩
  · rintro ⟨hlen, hnodup, hall⟩
    have hsubset : order ⊆ List.range n := fun a ha => List.mem_range.2 (hall a ha).1
    exact (hnodup.subperm hsubset).perm_of_length_le (by rw [hlen, List.length_range])

theorem permute_stored (t : Tensor α) (order : List Nat) :
    t.stored.permute order = Guarded.storing (t.permute order) := by
  have hrank : t.stored.rank = t.layout.rank := t.layout.length_dims
  have hscan : (order.length ≠ t.stored.rank
        ∨ meetsBadAxis (List.replicate t.stored.rank false) order = true)
      ↔ ¬ order.isPerm (List.range t.layout.rank) = true := by
    rw [hrank, isPerm_range_iff, not_and_or, Bool.not_eq_false]
  have hpermuted : t.stored.array.permute? order
      = (t.permute order).toOption.map Tensor.strided := t.permute?_strided order
  unfold permute
  rw [if_congr hscan rfl rfl, hpermuted]
  unfold Tensor.permute
  by_cases h : order.isPerm (List.range t.layout.rank) = true
  · rw [if_neg (not_not_intro h), dif_pos h]
    exact congrArg Except.ok (withArray_strided rfl)
  · rw [if_pos h, dif_neg h]
    rfl

theorem tile_stored (t : Tensor α) (times : Nat) :
    t.stored.tile times = Guarded.storing (t.tile times) := by
  have hcontents : t.stored.toVec = t.toList := t.toList_strided
  unfold tile Tensor.tile
  by_cases hrank : t.rank = 1
  · rw [if_neg (not_not_intro (show t.stored.rank = 1 from hrank)), if_pos hrank, hcontents]
    unfold withVector
    dsimp only
    split
    · exact congrArg Except.ok (withArray_strided (t := Tensor.build _ _ _ _ t.device) rfl)
    · rfl
  · rw [if_pos (show t.stored.rank ≠ 1 from hrank), if_neg hrank]
    rfl

/-- The array a combination leaves is that of the tensor it leaves. -/
theorem combine_strided (f : α → α → α) (t : Tensor α) {dims : List Nat} (hdims : t.dims = dims)
    (operand : Option (Tensor α)) :
    combine dims f t.strided (operand.map Tensor.stored)
      = (Guarded.ofExcept (t.combine f operand)).map Tensor.strided := by
  subst hdims
  cases operand with
  | none => rfl
  | some operand =>
      have hvalues : operand.stored.array.broadcast? t.dims
          = (operand.broadcast? t.dims).map Vector.toList := operand.broadcast?_strided t.dims
      unfold Tensor.combine
      dsimp only
      show (Guarded.orRefuse (.notBroadcastable t.dims operand.stored.dims)
        (operand.stored.array.broadcast? t.dims) >>= _) = _
      rw [hvalues]
      cases operand.broadcast? t.dims with
      | none => rfl
      | some values =>
          show (Guarded.require (t.strided.dims = t.dims) >>= fun _ =>
            pure (t.strided.overwrite (List.zipWith f t.strided.toList values.toList))) = _
          rw [Guarded.require_ok t.dims_strided, pure_bind, t.toList_strided,
            ← t.strided_overwrite]
          rfl

theorem affine_stored [Mul α] [Add α] (t : Tensor α) (scale shift : Option (Tensor α)) :
    t.stored.affine (scale.map Tensor.stored) (shift.map Tensor.stored)
      = Guarded.storing (t.affine scale shift) := by
  unfold affine Tensor.affine
  show (combine t.dims _ t.strided.standard _ >>= _) = _
  rw [t.standard_strided, combine_strided _ _ t.dims_contiguous]
  cases hscaled : t.contiguous.combine (· * ·) scale with
  | error e => rfl
  | ok scaled =>
      show (combine t.dims _ scaled.strided _ >>= _) = _
      have hdims : scaled.dims = t.dims :=
        (Tensor.dims_combine hscaled).trans t.dims_contiguous
      rw [combine_strided _ _ hdims]
      show _ = Guarded.storing (scaled.combine (· + ·) shift)
      cases hshifted : scaled.combine (· + ·) shift with
      | error e => rfl
      | ok shifted =>
          have hdevice : shifted.device = t.device := by
            rw [Tensor.device_combine hshifted, Tensor.device_combine hscaled,
              t.device_contiguous]
          exact congrArg Except.ok (withArray_strided hdevice.symm)

theorem copyFrom_stored (t src : Tensor α) :
    t.stored.copyFrom src.stored = Guarded.storing (t.copyFrom src) := by
  unfold copyFrom Tensor.copyFrom Tensor.sameShape
  by_cases h : t.dims = src.dims
  · have hshape : t.stored.shape = src.stored.shape := congrArg Shape.mk h
    have hassign : t.stored.array.assign? src.stored.array
        = some (t.overwrite src.toList).strided := t.assign?_strided src h.symm
    rw [if_pos hshape, hassign, if_pos (beq_iff_eq.2 h)]
    rfl
  · have hshape : t.stored.shape ≠ src.stored.shape := fun hs => h (congrArg Shape.dims hs)
    rw [if_neg hshape, if_neg (mt beq_iff_eq.1 h)]
    rfl

/-- All that is done with a tensor is done alike once it is stored. -/
structure ActsAs [Zero α] [Mul α] [Add α] (t : Tensor α) : Prop where
  reads : t.stored.ReadsAs t
  toDevice : ∀ device, t.stored.toDevice device = (t.toDevice device).stored
  emptyLike : t.stored.emptyLike = .ok (t.zerosLike : Tensor α).stored
  permute : ∀ order, t.stored.permute order = Guarded.storing (t.permute order)
  reshape : ∀ target, t.stored.reshape target = Guarded.storing (t.reshape target)
  reshapeInfer : ∀ target, t.stored.reshapeInfer target = Guarded.storing (t.reshapeInfer target)
  contiguous : t.stored.contiguous = t.contiguous.stored
  tile : ∀ times, t.stored.tile times = Guarded.storing (t.tile times)
  affine : ∀ scale shift,
    t.stored.affine (scale.map Tensor.stored) (shift.map Tensor.stored)
      = Guarded.storing (t.affine scale shift)
  copyFrom : ∀ src : Tensor α, t.stored.copyFrom src.stored = Guarded.storing (t.copyFrom src)

/-- **Storing a tensor changes nothing of what it does.** -/
theorem actsAs_stored [Zero α] [Mul α] [Add α] (t : Tensor α) : ActsAs t where
  reads := readsAs_stored t
  toDevice _ := rfl
  emptyLike := emptyLike_stored t
  permute := permute_stored t
  reshape := reshape_stored t
  reshapeInfer := reshapeInfer_stored t
  contiguous := contiguous_stored t
  tile := tile_stored t
  affine := affine_stored t
  copyFrom := copyFrom_stored t

/-- The average over the leading axis too, if arrays are averaged as tensors are. -/
theorem meanAxis0_stored [Arith α] (average : AxisAverage α) (t : Tensor α)
    (h : average.along t.strided = t.averageAxis0.strided) :
    t.stored.meanAxis0 average
      = t.meanAxis0?.elim (throw .panicked) Guarded.storing := by
  have hdevice : t.averageAxis0.device = t.device :=
    Tensor.device_buildIn
  have hdims : t.stored.array.dims = t.dims := t.dims_strided
  unfold meanAxis0 Guarded.entry Tensor.meanAxis0? Tensor.dim?
  rw [hdims]
  cases t.dims[0]? with
  | none => rfl
  | some n =>
      show (if n = 0 then _ else pure (t.stored.withArray (average.along t.strided))) = _
      rw [h, withArray_strided hdevice.symm]
      show _ = Guarded.storing (if n = 0 then _ else _)
      split <;> rfl

end StoredTensor

end ChannelNorm

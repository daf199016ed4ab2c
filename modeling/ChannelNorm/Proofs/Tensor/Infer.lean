/-
  ChannelNorm.Proofs.Tensor.Infer
  ───────────────────────────────
  **A DIMENSION LEFT OPEN.**

  A list of signed dimensions that a reshape accepts has one of two forms,

      signed dims                             every dimension is given
      signed before ++ -1 :: signed after     one of them is open

  and the scan of the list tells which.  In the first the reshape is the plain one.
  In the second the dimensions given account for `volume (before ++ after)` elements;
  the open one is the quotient, which has to be exact and unambiguous.
-/
import ChannelNorm.Proofs.Tensor.Representation

namespace ChannelNorm

variable {α : Type}

/-! ## §1. Forms of a list of signed dimensions. -/

/-- Given dimensions, as signed numbers. -/
def signed (dims : List Nat) : List Int :=
  dims.map fun d : Nat => (d : Int)

theorem signed_append (ds es : List Nat) : signed (ds ++ es) = signed ds ++ signed es :=
  List.map_append

theorem nonneg_of_mem_signed {dims : List Nat} {d : Int} (h : d ∈ signed dims) : 0 ≤ d := by
  obtain ⟨n, _, rfl⟩ := List.mem_map.1 h
  exact Int.natCast_nonneg n

theorem notMem_signed (dims : List Nat) : (-1 : Int) ∉ signed dims := by
  intro h
  have hneg := nonneg_of_mem_signed h
  omega

theorem map_toNat_signed (dims : List Nat) : (signed dims).map Int.toNat = dims := by
  unfold signed
  rw [List.map_map]
  exact List.map_id' dims

theorem prod_signed (dims : List Nat) : (signed dims).prod = volume dims := by
  unfold signed
  rw [volume_eq_prod, Nat.cast_list_prod]

namespace Tensor

/-- Given dimensions are passed over. -/
theorem openDimension?_signed_append (dims : List Nat) (rest : List Int) (axis : Nat)
    (found : Option Nat) :
    openDimension? (signed dims ++ rest) axis found
      = openDimension? rest (axis + dims.length) found := by
  induction dims generalizing axis with
  | nil => rfl
  | cons d ds ih =>
      have hopen : ¬ (d : Int) = -1 := by omega
      have hneg : ¬ (d : Int) < 0 := by omega
      show (if (d : Int) = -1 then _ else if (d : Int) < 0 then _
        else openDimension? (signed ds ++ rest) (axis + 1) found) = _
      rw [if_neg hopen, if_neg hneg, ih, List.length_cons, Nat.add_right_comm,
        Nat.add_assoc]

theorem openDimension?_signed (dims : List Nat) (axis : Nat) (found : Option Nat) :
    openDimension? (signed dims) axis found = .ok found := by
  have hscan := openDimension?_signed_append dims [] axis found
  rwa [List.append_nil] at hscan

theorem openDimension?_open (before after : List Nat) :
    openDimension? (signed before ++ -1 :: signed after) 0 none = .ok (some before.length) := by
  rw [openDimension?_signed_append, Nat.zero_add]
  show openDimension? (signed after) (before.length + 1) (some before.length) = _
  exact openDimension?_signed after _ _

/-- **A list that passes the scan has one of the two forms.** -/
theorem forms_of_openDimension? {target : List Int} {axis : Nat} {found o : Option Nat}
    (h : openDimension? target axis found = .ok o) :
    (∃ dims, target = signed dims ∧ o = found)
      ∨ found = none ∧ ∃ before after, target = signed before ++ -1 :: signed after
          ∧ o = some (axis + before.length) := by
  fun_induction openDimension? target axis found with
  | case1 axis found =>
      cases h
      exact .inl ⟨[], rfl, rfl⟩
  | case2 ds axis ih =>
      -- the first open dimension; all that follow are given
      rcases ih h with ⟨dims, rfl, rfl⟩ | ⟨hfound, _⟩
      · exact .inr ⟨rfl, [], dims, rfl, rfl⟩
      · cases hfound
  | case3 => cases h
  | case4 => cases h
  | case5 d ds axis found hopen hneg ih =>
      obtain ⟨n, rfl⟩ := Int.eq_ofNat_of_zero_le (Int.not_lt.1 hneg)
      rcases ih h with ⟨dims, rfl, rfl⟩ | ⟨hfound, before, after, rfl, rfl⟩
      · exact .inl ⟨n :: dims, rfl, rfl⟩
      · refine .inr ⟨hfound, n :: before, after, rfl, ?_⟩
        rw [List.length_cons, Nat.add_assoc, Nat.add_comm 1]

theorem knownSize_signed (dims : List Nat) : knownSize (signed dims) = volume dims := by
  have hfilter : (signed dims).filter (0 ≤ ·) = signed dims :=
    List.filter_eq_self.2 fun d hd => decide_eq_true (nonneg_of_mem_signed hd)
  unfold knownSize
  rw [hfilter, map_toNat_signed]

/-- The open dimension does not count among the known ones. -/
theorem knownSize_open (before after : List Nat) :
    knownSize (signed before ++ -1 :: signed after) = volume (before ++ after) := by
  rw [← knownSize_signed, signed_append]
  unfold knownSize
  rw [List.filter_append, List.filter_cons_of_neg (by decide), ← List.filter_append]

end Tensor

/-! ## §2. What the forms ask of a number of elements. -/

/-- Signed dimensions that `n` elements can be given: all are counts, or all but
one, which is open and of which the others leave no choice. -/
def Fits (target : List Int) (n : Nat) : Prop :=
  (∀ d ∈ target, -1 ≤ d)
    ∧ (target.count (-1) = 0 ∧ target.prod = n
      ∨ target.count (-1) = 1 ∧ (target.erase (-1)).prod ≠ 0
        ∧ (target.erase (-1)).prod ∣ (n : Int))

theorem eq_signed {target : List Int} (h : ∀ d ∈ target, -1 ≤ d) (hnone : (-1 : Int) ∉ target) :
    ∃ dims, target = signed dims := by
  have hkept : ∀ d ∈ target, ((fun n : Nat => (n : Int)) ∘ Int.toNat) d = id d := by
    intro d hd
    have hlow := h d hd
    have hne : d ≠ -1 := ne_of_mem_of_not_mem hd hnone
    show ((d.toNat : Nat) : Int) = d
    omega
  refine ⟨target.map Int.toNat, ?_⟩
  unfold signed
  rw [List.map_map, List.map_congr_left hkept, List.map_id]

theorem fits_signed_iff {dims : List Nat} {n : Nat} : Fits (signed dims) n ↔ volume dims = n := by
  have hcount : (signed dims).count (-1) = 0 := List.count_eq_zero.2 (notMem_signed dims)
  unfold Fits
  rw [hcount, prod_signed, Nat.cast_inj]
  constructor
  · rintro ⟨_, ⟨_, h⟩ | ⟨h, _⟩⟩
    · exact h
    · exact absurd h Nat.zero_ne_one
  · intro h
    refine ⟨fun d hd => ?_, .inl ⟨rfl, h⟩⟩
    have hd := nonneg_of_mem_signed hd
    omega

theorem fits_open_iff (before after : List Nat) {n : Nat} :
    Fits (signed before ++ -1 :: signed after) n
      ↔ volume (before ++ after) ≠ 0 ∧ volume (before ++ after) ∣ n := by
  have hcount : (signed before ++ -1 :: signed after).count (-1) = 1 := by
    rw [List.count_append, List.count_cons_self, List.count_eq_zero.2 (notMem_signed before),
      List.count_eq_zero.2 (notMem_signed after)]
  have herase : (signed before ++ -1 :: signed after).erase (-1) = signed (before ++ after) := by
    rw [List.erase_append_right _ (notMem_signed before), List.erase_cons_head, signed_append]
  unfold Fits
  rw [hcount, herase, prod_signed, Int.natCast_dvd_natCast, Ne, Nat.cast_eq_zero]
  constructor
  · rintro ⟨_, ⟨h, _⟩ | ⟨_, h⟩⟩
    · exact absurd h Nat.one_ne_zero
    · exact h
  · intro h
    refine ⟨fun d hd => ?_, .inr ⟨rfl, h⟩⟩
    rcases List.mem_append.1 hd with hd | hd
    · have hd := nonneg_of_mem_signed hd
      omega
    · rcases List.mem_cons.1 hd with rfl | hd
      · exact Int.le_refl _
      · have hd := nonneg_of_mem_signed hd
        omega

/-- Whatever fits has one of the two forms. -/
theorem Fits.forms {target : List Int} {n : Nat} (h : Fits target n) :
    (∃ dims, target = signed dims)
      ∨ ∃ before after, target = signed before ++ -1 :: signed after := by
  obtain ⟨hlow, ⟨hcount, _⟩ | ⟨hcount, _⟩⟩ := h
  · exact .inl (eq_signed hlow (List.count_eq_zero.1 hcount))
  · have hmem : (-1 : Int) ∈ target := List.count_pos_iff.1 (hcount ▸ Nat.one_pos)
    obtain ⟨front, back, rfl⟩ := List.append_of_mem hmem
    rw [List.count_append, List.count_cons_self] at hcount
    have hfront : (-1 : Int) ∉ front := List.count_eq_zero.1 (by omega)
    have hback : (-1 : Int) ∉ back := List.count_eq_zero.1 (by omega)
    obtain ⟨before, rfl⟩ := eq_signed (fun d hd => hlow d (by simp [hd])) hfront
    obtain ⟨after, rfl⟩ := eq_signed (fun d hd => hlow d (by simp [hd])) hback
    exact .inr ⟨before, after, rfl⟩

/-- Only one dimension is open. -/
theorem eq_length_of_getElem?_open {before after : List Nat} {k : Nat}
    (h : (signed before ++ -1 :: signed after)[k]? = some (-1)) : k = before.length := by
  have hlength : (signed before).length = before.length := List.length_map _
  rcases Nat.lt_trichotomy k before.length with hk | hk | hk
  · rw [List.getElem?_append_left (hlength ▸ hk)] at h
    exact absurd (List.mem_of_getElem? h) (notMem_signed before)
  · exact hk
  · obtain ⟨j, rfl⟩ := Nat.exists_eq_add_of_lt hk
    rw [List.getElem?_append_right (by omega), hlength,
      show before.length + j + 1 - before.length = j + 1 by omega, List.getElem?_cons_succ] at h
    exact absurd (List.mem_of_getElem? h) (notMem_signed after)

/-- The dimensions with `m` in the open one's place. -/
theorem set_open (before after : List Nat) (m : Nat) :
    ((signed before ++ -1 :: signed after).map Int.toNat).set before.length m
      = before ++ m :: after := by
  rw [List.map_append, List.map_cons, map_toNat_signed, map_toNat_signed,
    List.set_append_right _ _ (Nat.le_refl _), Nat.sub_self, List.set_cons_zero]

/-! ## §3. Sizes with one dimension exchanged. -/

/-- The open dimension stands beside what the given ones account for. -/
theorem volume_insert (before after : List Nat) (m : Nat) :
    volume (before ++ m :: after) = m * volume (before ++ after) := by
  rw [volume_append, volume_append, volume_cons, Nat.mul_left_comm]

/-- Where no dimension is zero, the extent is the number of elements. -/
theorem extent_eq_volume {dims : List Nat} (h : volume dims ≠ 0) : extent dims = volume dims := by
  induction dims with
  | nil => rfl
  | cons d ds ih =>
      rw [volume_cons, Nat.mul_ne_zero_iff] at h
      rw [extent_cons, volume_cons, if_neg h.1, ih h.2]

/-- The inferred dimension does not take the others past what can be addressed. -/
theorem Addressable.insert {before after : List Nat} {m : Nat}
    (h : Addressable (before ++ 0 :: after)) (hknown : volume (before ++ after) ≠ 0)
    (hvolume : volume (before ++ m :: after) ≤ maxExtent) :
    Addressable (before ++ m :: after) := by
  by_cases hm : m = 0
  · rw [hm]
    exact h
  · have hpos : volume (before ++ m :: after) ≠ 0 := by
      rw [volume_insert]
      exact Nat.mul_ne_zero hm hknown
    unfold Addressable
    rwa [extent_eq_volume hpos]

/-! ## §4. Reshapes of stored tensors. -/

namespace StoredTensor

/-- `r` holds the contents of `s` under the shape `target`, in row-major order. -/
structure ReshapedTo (target : List Nat) (s r : StoredTensor α) : Prop where
  dims : r.dims = target
  toVec : r.toVec = s.toVec
  device : r.device = s.device
  isContiguous : r.isContiguous = true

section
variable {s r : StoredTensor α} {target : List Nat} (hs : s.Coherent)
include hs

/-- A shape of as many elements that can be addressed is taken, whatever the
strides. -/
theorem Coherent.reshape_ok (hvolume : volume target = s.numel) (h : Addressable target) :
    ∃ r, s.reshape target = .ok r ∧ ReshapedTo target s r := by
  have hlen : volume target = volume s.array.standard.dims := by
    rw [s.array.dims_standard, hvolume, hs.numel_eq]
  have hshape := StridedArray.withShape_of_volume_eq hlen
  rw [dif_pos h] at hshape
  unfold reshape
  rw [if_neg (not_not_intro hvolume), hshape]
  refine ⟨_, rfl, StridedArray.dims_fresh, ?_, rfl, StridedArray.isStandard_fresh⟩
  exact StridedArray.toList_fresh.trans s.array.toList_standard

theorem Coherent.exists_reshape_iff :
    (∃ r, s.reshape target = .ok r) ↔ volume target = s.numel ∧ Addressable target := by
  constructor
  · rintro ⟨r, hr⟩
    unfold reshape at hr
    split at hr
    next => cases hr
    next hvolume =>
      rw [not_not] at hvolume
      have hlen : volume target = volume s.array.standard.dims := by
        rw [s.array.dims_standard, hvolume, hs.numel_eq]
      rw [StridedArray.withShape_of_volume_eq hlen] at hr
      split at hr
      next h => exact ⟨hvolume, h⟩
      next => cases hr
  · rintro ⟨hvolume, h⟩
    obtain ⟨r, hr, _⟩ := hs.reshape_ok hvolume h
    exact ⟨r, hr⟩

theorem Coherent.reshapedTo (hr : s.reshape target = .ok r) : ReshapedTo target s r := by
  obtain ⟨hvolume, h⟩ := hs.exists_reshape_iff.1 ⟨r, hr⟩
  obtain ⟨r', hr', hreshaped⟩ := hs.reshape_ok hvolume h
  rw [hr] at hr'
  cases hr'
  exact hreshaped

theorem Coherent.addressable : Addressable s.dims := by
  rw [hs.dims_eq]
  exact s.array.addressable

/-- The shape a tensor had takes its contents back. -/
theorem Coherent.reshape_back (hr : s.reshape target = .ok r) :
    ∃ back, r.reshape s.dims = .ok back ∧ ReshapedTo s.dims s back := by
  have hreshaped := hs.reshapedTo hr
  have hr' : r.Coherent := coherent_reshape hr
  have hvolume : volume s.dims = r.numel := by
    rw [hr'.represents.numel_eq_length, hreshaped.toVec, ← hs.represents.numel_eq_length]
    rfl
  obtain ⟨back, hback, hto⟩ := hr'.reshape_ok hvolume hs.addressable
  exact ⟨back, hback, hto.dims, hto.toVec.trans hreshaped.toVec,
    hto.device.trans hreshaped.device, hto.isContiguous⟩

end

/-! ## §5. Reshapes with an open dimension. -/

section
variable {s r : StoredTensor α}

/-- Where every dimension is given, nothing is inferred. -/
theorem reshapeInfer_signed (dims : List Nat) : s.reshapeInfer (signed dims) = s.reshape dims := by
  unfold reshapeInfer
  rw [Tensor.openDimension?_signed]
  show s.reshape ((signed dims).map Int.toNat) = _
  rw [map_toNat_signed]

/-- An open dimension is what is left of the count, if the given ones divide it. -/
theorem reshapeInfer_open (before after : List Nat) :
    s.reshapeInfer (signed before ++ -1 :: signed after)
      = if volume (before ++ after) = 0 ∨ s.numel % volume (before ++ after) ≠ 0 then
          throw (.refused
            (.cannotInfer before.length (signed before ++ -1 :: signed after) s.dims))
        else s.reshape (before ++ s.numel / volume (before ++ after) :: after) := by
  unfold reshapeInfer
  rw [Tensor.openDimension?_open, ← set_open, ← Tensor.knownSize_open]
  rfl

/-- **What a reshape that succeeds was asked for.** -/
theorem forms_of_reshapeInfer {target : List Int} (h : s.reshapeInfer target = .ok r) :
    (∃ dims, target = signed dims ∧ s.reshape dims = .ok r)
      ∨ ∃ before after, target = signed before ++ -1 :: signed after
          ∧ volume (before ++ after) ≠ 0 ∧ volume (before ++ after) ∣ s.numel
          ∧ s.reshape (before ++ s.numel / volume (before ++ after) :: after) = .ok r := by
  have hscan : ∃ o, Tensor.openDimension? target 0 none = .ok o := by
    obtain ⟨o, ho, _⟩ := bind_eq_ok.1 h
    cases hopen : Tensor.openDimension? target 0 none with
    | error e =>
        rw [hopen] at ho
        cases ho
    | ok o => exact ⟨o, rfl⟩
  obtain ⟨o, ho⟩ := hscan
  rcases Tensor.forms_of_openDimension? ho with ⟨dims, rfl, _⟩ | ⟨_, before, after, rfl, _⟩
  · rw [reshapeInfer_signed] at h
    exact .inl ⟨dims, rfl, h⟩
  · rw [reshapeInfer_open] at h
    split at h
    next => cases h
    next hfits =>
      rw [not_or, not_not] at hfits
      exact .inr ⟨before, after, rfl, hfits.1, Nat.dvd_of_mod_eq_zero hfits.2, h⟩

/-- `r` is `s` under the shape that the signed dimensions leave it. -/
structure InferredFrom (target : List Int) (s r : StoredTensor α) : Prop where
  rank : r.dims.length = target.length
  given : ∀ (k : Nat) (d : Int), target[k]? = some d → 0 ≤ d → r.dims[k]? = some d.toNat
  /-- The open dimension is the one value that makes up the number of elements. -/
  inferred : ∀ k : Nat, target[k]? = some (-1) →
    ∀ m, r.dims[k]? = some m ↔ volume (r.dims.set k m) = s.numel
  toVec : r.toVec = s.toVec
  device : r.device = s.device
  isContiguous : r.isContiguous = true
  back : ∃ back, r.reshape s.dims = .ok back ∧ back.dims = s.dims ∧ back.toVec = s.toVec

section
variable (hs : s.Coherent)
include hs

theorem Coherent.inferredFrom {target : List Int} (h : s.reshapeInfer target = .ok r) :
    InferredFrom target s r := by
  have hlength : ∀ dims : List Nat, dims.length = (signed dims).length := fun dims =>
    (List.length_map _).symm
  rcases forms_of_reshapeInfer h with ⟨dims, rfl, hr⟩ | ⟨before, after, rfl, hknown, hdvd, hr⟩
  · have hto := hs.reshapedTo hr
    obtain ⟨back, hback, hrestored⟩ := hs.reshape_back hr
    refine ⟨?_, fun k d hd _ => ?_, fun k hk => ?_, hto.toVec, hto.device, hto.isContiguous,
      back, hback, hrestored.dims, hrestored.toVec⟩
    · rw [hto.dims, hlength]
    · rw [hto.dims, ← map_toNat_signed dims, List.getElem?_map, hd]
      rfl
    · exact absurd (List.mem_of_getElem? hk) (notMem_signed dims)
  · have hto := hs.reshapedTo hr
    obtain ⟨back, hback, hrestored⟩ := hs.reshape_back hr
    refine ⟨?_, fun k d hd hnonneg => ?_, fun k hk m => ?_, hto.toVec, hto.device,
      hto.isContiguous, back, hback, hrestored.dims, hrestored.toVec⟩
    · rw [hto.dims, ← set_open, List.length_set, List.length_map]
    · have hne : before.length ≠ k := by
        rintro rfl
        rw [hlength before, List.getElem?_append_right (Nat.le_refl _), Nat.sub_self] at hd
        cases hd
        omega
      rw [hto.dims, ← set_open, List.getElem?_set_ne hne, List.getElem?_map, hd]
      rfl
    · have hplace := eq_length_of_getElem?_open hk
      subst hplace
      rw [hto.dims, List.getElem?_append_right (Nat.le_refl _), Nat.sub_self,
        List.set_append_right _ _ (Nat.le_refl _), Nat.sub_self, List.set_cons_zero,
        volume_insert]
      show some _ = some m ↔ _
      rw [Option.some_inj, Nat.div_eq_iff_eq_mul_left (Nat.pos_of_ne_zero hknown) hdvd, eq_comm]

/-- As long as the products of dimensions can be addressed, what fits is accepted,
and nothing else. -/
theorem Coherent.exists_reshapeInfer_iff {target : List Int}
    (haddr : Addressable (target.map Int.toNat)) :
    (∃ r, s.reshapeInfer target = .ok r) ↔ Fits target s.numel := by
  constructor
  · rintro ⟨r, h⟩
    rcases forms_of_reshapeInfer h with ⟨dims, rfl, hr⟩ | ⟨before, after, rfl, hknown, hdvd, _⟩
    · exact fits_signed_iff.2 (hs.exists_reshape_iff.1 ⟨r, hr⟩).1
    · exact (fits_open_iff _ _).2 ⟨hknown, hdvd⟩
  · intro hfits
    rcases hfits.forms with ⟨dims, rfl⟩ | ⟨before, after, rfl⟩
    · rw [map_toNat_signed] at haddr
      rw [reshapeInfer_signed, hs.exists_reshape_iff]
      exact ⟨fits_signed_iff.1 hfits, haddr⟩
    · obtain ⟨hknown, hdvd⟩ := (fits_open_iff _ _).1 hfits
      have hvolume : volume (before ++ s.numel / volume (before ++ after) :: after) = s.numel := by
        rw [volume_insert, Nat.div_mul_cancel hdvd]
      rw [List.map_append, List.map_cons, map_toNat_signed, map_toNat_signed] at haddr
      rw [reshapeInfer_open, if_neg, hs.exists_reshape_iff]
      · exact ⟨hvolume, haddr.insert hknown (hvolume.trans_le hs.represents.numel_le)⟩
      · rw [not_or, not_not]
        exact ⟨hknown, Nat.mod_eq_zero_of_dvd hdvd⟩

end

end

/-- **A reshape with an open dimension.**  As long as the products of dimensions can
be addressed, it succeeds exactly if no dimension is below `-1`, at most one is
`-1`, and the others account for the elements: all of them, or, where one is open,
a number of them other than zero that divides the whole.  It changes the shape
alone, to the only one that fits, and can be undone.

The hypothesis is the array library's own overflow check, made of every shape: the
product of the dimensions other than zero fits a signed 64-bit number.  It is asked
of the dimensions that are named, the open one left out. -/
theorem open_dimension_inferred :
    (∀ s : StoredTensor α, s.Coherent →
      (∀ target : List Int, Addressable (target.map Int.toNat) →
          ((∃ r, s.reshapeInfer target = .ok r) ↔ Fits target s.numel))
        ∧ ∀ target r, s.reshapeInfer target = .ok r → InferredFrom target s r)
      ∧ ∀ t : Tensor α, t.stored.Coherent ∧ t.stored.ReadsAs t
          ∧ (∀ target, t.stored.reshapeInfer target = Guarded.storing (t.reshapeInfer target))
          ∧ ∀ target, t.stored.reshape target = Guarded.storing (t.reshape target) := by
  refine ⟨fun s hs => ⟨fun target haddr => ?_, fun target r hr => ?_⟩, fun t => ?_⟩
  · exact hs.exists_reshapeInfer_iff haddr
  · exact hs.inferredFrom hr
  · exact ⟨t.dims_strided.symm, readsAs_stored t, reshapeInfer_stored t, reshape_stored t⟩

theorem open_dimension_inferred_mirrored :
    (∃ r, (fromArray mirrored).reshapeInfer [1, -1, 3] = .ok r ∧ r.dims[0]? = some 1
        ∧ r.dims[2]? = some 3 ∧ (r.dims[1]? = some 2 ↔ volume (r.dims.set 1 2) = 6)
        ∧ r.isContiguous = true ∧ r.toVec = [5, 3, 1, 4, 2, 0])
      ∧ ¬ ∃ r, (fromArray mirrored).reshapeInfer [4, -1] = .ok r := by
  obtain ⟨haccepted, hinferred⟩ :=
    open_dimension_inferred.1 (fromArray mirrored) (coherent_fromArray mirrored)
  have hfits : Fits [1, -1, 3] (fromArray mirrored).numel :=
    (fits_open_iff [1] [3]).2 (by decide)
  have hmisfit : ¬ Fits [4, -1] (fromArray mirrored).numel := fun h =>
    absurd ((fits_open_iff [4] []).1 h) (by decide)
  obtain ⟨r, hr⟩ := (haccepted [1, -1, 3] (by decide)).2 hfits
  have hby := hinferred _ _ hr
  refine ⟨⟨r, hr, hby.given 0 1 rfl (by decide), hby.given 2 3 rfl (by decide),
    hby.inferred 1 rfl 2, hby.isContiguous, hby.toVec.trans rfl⟩, fun h => ?_⟩
  exact hmisfit ((haccepted [4, -1] (by decide)).1 h)

end StoredTensor

end ChannelNorm

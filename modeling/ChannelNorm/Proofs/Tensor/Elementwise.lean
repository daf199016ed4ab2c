/-
  ChannelNorm.Proofs.Tensor.Elementwise
  ─────────────────────────────────────
  **SCALING AND SHIFTING, INDEX BY INDEX.**

  Dimensions fit a target when, aligned on the right, each is the target's or one.
  An array whose dimensions fit is read at an index of the target with the leading
  coordinates it has no axes for left out, and zero on its axes of length one:

      (a.broadcast? target)[flatIndex target i]?  =  a.get? (operandIndex a.dims i)

  whatever its strides.  Any other array is refused.  Scaling and shifting combine
  the elements of a tensor with those of its operands, index by index.
-/
import ChannelNorm.Proofs.Tensor.Representation

namespace ChannelNorm

variable {α : Type}

/-! ## §1. Dimensions that fit. -/

/-- No more dimensions than the target has and, aligned on the right, each the
target's or one. -/
def FitsRight (dims target : List Nat) : Prop :=
  ∃ leading rest, target = leading ++ rest ∧ List.Forall₂ (fun d e => d = e ∨ d = 1) dims rest

/-- The index at which an operand is read: leading coordinates it has no axes for are
dropped, and axes of length one are read at zero. -/
def operandIndex (dims i : List Nat) : List Nat :=
  pinned dims (i.drop (i.length - dims.length))

theorem operandIndex_append {dims js : List Nat} (is : List Nat) (h : js.length = dims.length) :
    operandIndex dims (is ++ js) = pinned dims js := by
  unfold operandIndex
  rw [List.length_append, h, Nat.add_sub_cancel, List.drop_left]

/-- Coordinates in range of a target are in range of what fits it. -/
theorem pinned_mem_of_forall₂ {dims rest js : List Nat}
    (h : List.Forall₂ (fun d e => d = e ∨ d = 1) dims rest) (hjs : js ∈ indicesOf rest) :
    pinned dims js ∈ indicesOf dims := by
  induction h generalizing js with
  | nil =>
      rw [mem_indicesOf_nil.1 hjs]
      exact mem_indicesOf_nil.2 rfl
  | cons hd _ ih =>
      obtain ⟨j, js, rfl, hj, hjs⟩ := exists_cons_of_mem_indicesOf hjs
      refine cons_mem_indicesOf.2 ⟨?_, ih hjs⟩
      dsimp only
      split <;> omega

/-- An index of a target splits where the target does. -/
theorem exists_append_of_mem_indicesOf {leading rest i : List Nat}
    (h : i ∈ indicesOf (leading ++ rest)) :
    ∃ is js, i = is ++ js ∧ is.length = leading.length ∧ js ∈ indicesOf rest := by
  induction leading generalizing i with
  | nil => exact ⟨[], i, rfl, rfl, h⟩
  | cons d leading ih =>
      obtain ⟨j, i, rfl, _, hi⟩ := exists_cons_of_mem_indicesOf h
      obtain ⟨is, js, rfl, hlength, hjs⟩ := ih hi
      exact ⟨j :: is, js, rfl, congrArg (· + 1) hlength, hjs⟩

theorem operandIndex_mem_indicesOf {dims target i : List Nat} (h : FitsRight dims target)
    (hi : i ∈ indicesOf target) : operandIndex dims i ∈ indicesOf dims := by
  obtain ⟨leading, rest, rfl, hdims⟩ := h
  obtain ⟨is, js, rfl, _, hjs⟩ := exists_append_of_mem_indicesOf hi
  rw [operandIndex_append is ((length_of_mem_indicesOf hjs).trans hdims.length_eq.symm)]
  exact pinned_mem_of_forall₂ hdims hjs

/-! ## §2. Stretched axes. -/

/-- Axes stretch to the dimensions they fit, and are then read at pinned indices. -/
theorem stretchSigned?_of_forall₂ {axes : List SignedAxis} {rest : List Nat}
    (h : List.Forall₂ (fun d e => d = e ∨ d = 1) (lensOf axes) rest) :
    ∃ out, stretchSigned? axes rest = some out
      ∧ ∀ js ∈ indicesOf rest, displacementOf out js = displacementOf axes (pinned (lensOf axes) js)
      := by
  induction axes generalizing rest with
  | nil =>
      cases h
      refine ⟨[], rfl, fun js hjs => ?_⟩
      rw [mem_indicesOf_nil.1 hjs]
      rfl
  | cons a as ih =>
      obtain ⟨e, es, ha, has, rfl⟩ := List.forall₂_cons_left_iff.1 h
      obtain ⟨out, hout, hread⟩ := ih has
      -- an axis is kept, or stretched from length one by a stride of zero
      by_cases hkeep : a.len = e
      · refine ⟨a :: out, ?_, fun js hjs => ?_⟩
        · unfold stretchSigned?
          rw [if_pos hkeep, hout]
          rfl
        · obtain ⟨j, js, rfl, hj, hjs⟩ := exists_cons_of_mem_indicesOf hjs
          show (j : Int) * a.stride + displacementOf out js
            = ((if a.len = 1 then 0 else j : Nat) : Int) * a.stride
              + displacementOf as (pinned (lensOf as) js)
          rw [hread js hjs]
          split
          · rw [show j = 0 by omega]
          · rfl
      · have hone : a.len = 1 := ha.resolve_left hkeep
        refine ⟨⟨e, 0⟩ :: out, ?_, fun js hjs => ?_⟩
        · unfold stretchSigned?
          rw [if_neg hkeep, if_pos hone, hout]
          rfl
        · obtain ⟨j, js, rfl, hj, hjs⟩ := exists_cons_of_mem_indicesOf hjs
          show (j : Int) * 0 + displacementOf out js
            = ((if a.len = 1 then 0 else j : Nat) : Int) * a.stride
              + displacementOf as (pinned (lensOf as) js)
          rw [hread js hjs, if_pos hone, mul_zero, Nat.cast_zero, zero_mul]

theorem forall₂_of_stretchSigned? {axes out : List SignedAxis} {rest : List Nat}
    (h : stretchSigned? axes rest = some out) :
    List.Forall₂ (fun d e => d = e ∨ d = 1) (lensOf axes) rest := by
  fun_induction stretchSigned? axes rest generalizing out with
  | case1 => exact .nil
  | case2 a as es ih =>
      obtain ⟨bs, hbs, _⟩ := Option.map_eq_some_iff.1 h
      exact .cons (.inl rfl) (ih hbs)
  | case3 a as e es _ hone ih =>
      obtain ⟨bs, hbs, _⟩ := Option.map_eq_some_iff.1 h
      exact .cons (.inr hone) (ih hbs)
  | case4 => cases h
  | case5 => cases h

/-- Added leading axes are stretched to whatever stands there. -/
theorem stretchSigned?_append (axes : List SignedAxis) (leading rest : List Nat) :
    stretchSigned? (List.replicate leading.length ⟨1, 0⟩ ++ axes) (leading ++ rest)
      = (stretchSigned? axes rest).map ((leading.map fun d => ⟨d, 0⟩) ++ ·) := by
  induction leading with
  | nil => exact Option.map_id'.symm
  | cons d leading ih =>
      show (if 1 = d then (stretchSigned? (List.replicate leading.length ⟨1, 0⟩ ++ axes)
            (leading ++ rest)).map (⟨1, 0⟩ :: ·)
        else (stretchSigned? (List.replicate leading.length ⟨1, 0⟩ ++ axes)
            (leading ++ rest)).map (⟨d, 0⟩ :: ·)) = _
      rw [ih, Option.map_map, Option.map_map]
      split
      next hone =>
        subst hone
        rfl
      next => rfl

/-- They are not read. -/
theorem displacementOf_stretched_append (leading : List Nat) (out : List SignedAxis)
    {is : List Nat} (js : List Nat) (h : is.length = leading.length) :
    displacementOf ((leading.map fun d => ⟨d, 0⟩) ++ out) (is ++ js) = displacementOf out js := by
  induction leading generalizing is with
  | nil =>
      rw [List.length_eq_zero_iff.1 h]
      rfl
  | cons d leading ih =>
      cases is with
      | nil => cases h
      | cons i is =>
          show (i : Int) * 0 + displacementOf (_ ++ out) (is ++ js) = _
          rw [ih (Nat.succ.inj h), mul_zero, zero_add]

namespace StridedArray

/-- **An array whose dimensions fit is read at operand indices.** -/
theorem broadcast?_of_fitsRight {a : StridedArray α} {target : List Nat}
    (h : FitsRight a.dims target) :
    a.broadcast? target
      = some (readAll a.buffer
          ((indicesOf target).map fun i => a.positionAt (operandIndex a.dims i))) := by
  obtain ⟨leading, rest, rfl, hdims⟩ := h
  obtain ⟨out, hout, hread⟩ := stretchSigned?_of_forall₂ hdims
  have hpad : padSigned a.axes (leading ++ rest).length
      = List.replicate leading.length ⟨1, 0⟩ ++ a.axes := by
    have hrank : a.axes.length = rest.length := a.length_dims.symm.trans hdims.length_eq
    unfold padSigned
    rw [List.length_append, hrank, Nat.add_sub_cancel]
  unfold broadcast?
  rw [hpad, stretchSigned?_append, hout, Option.map_some, Option.map_some]
  refine congrArg (fun ps => some (readAll a.buffer ps)) (List.map_congr_left fun i hi => ?_)
  obtain ⟨is, js, rfl, hlength, hjs⟩ := exists_append_of_mem_indicesOf hi
  rw [displacementOf_stretched_append leading out js hlength, hread js hjs,
    operandIndex_append is ((length_of_mem_indicesOf hjs).trans hdims.length_eq.symm)]
  rfl

theorem broadcast?_of_not_fitsRight {a : StridedArray α} {target : List Nat}
    (h : ¬ FitsRight a.dims target) : a.broadcast? target = none := by
  unfold broadcast?
  rw [Option.map_eq_none_iff]
  by_contra hsome
  obtain ⟨out, hout⟩ := Option.ne_none_iff_exists'.1 hsome
  -- what leads the target is met by added axes; with too many axes there are none
  have hfits := forall₂_of_stretchSigned? hout
  have hdrop : (lensOf (padSigned a.axes target.length)).drop (target.length - a.axes.length)
      = a.dims := by
    unfold padSigned lensOf
    rw [List.map_append, List.map_replicate, List.drop_left' List.length_replicate]
    rfl
  refine h ⟨_, _, (List.take_append_drop (target.length - a.axes.length) target).symm, ?_⟩
  rw [← hdrop]
  exact List.forall₂_drop _ hfits

theorem get?_eq_at_position {a : StridedArray α} {i : List Nat} (h : i ∈ indicesOf a.dims) :
    a.get? i = a.buffer[a.positionAt i]? := by
  unfold get?
  rw [displacementOf?_of_mem h]
  rfl

/-- At an index, what an array is stretched to holds what the array holds at the
operand index. -/
theorem getElem?_broadcast? {a : StridedArray α} {target : List Nat} {values : List α}
    (h : FitsRight a.dims target) (hvalues : a.broadcast? target = some values) {i : List Nat}
    (hi : i ∈ indicesOf target) :
    values[flatIndex target i]? = a.get? (operandIndex a.dims i) := by
  rw [broadcast?_of_fitsRight h] at hvalues
  cases hvalues
  rw [getElem?_readAll_indicesOf
    (fun j hj => a.positionAt_lt (operandIndex_mem_indicesOf h hj)) hi]
  exact (get?_eq_at_position (operandIndex_mem_indicesOf h hi)).symm

theorem length_broadcast? {a : StridedArray α} {target : List Nat} {values : List α}
    (h : FitsRight a.dims target) (hvalues : a.broadcast? target = some values) :
    values.length = volume target := by
  rw [broadcast?_of_fitsRight h] at hvalues
  cases hvalues
  rw [length_readAll, List.length_map, length_indicesOf]
  intro p hp
  obtain ⟨i, hi, rfl⟩ := List.mem_map.1 hp
  exact a.positionAt_lt (operandIndex_mem_indicesOf h hi)

@[simp] theorem dims_overwrite (a : StridedArray α) (values : List α) :
    (a.overwrite values).dims = a.dims :=
  rfl

/-- Arrays of one shape with one list of contents hold the same at every index. -/
theorem get?_congr {a b : StridedArray α} (hdims : a.dims = b.dims) (hlist : a.toList = b.toList)
    (i : List Nat) : a.get? i = b.get? i := by
  by_cases hi : i ∈ indicesOf a.dims
  · rw [a.get?_of_mem hi, b.get?_of_mem (hdims ▸ hi), hlist, hdims]
  · rw [a.get?_of_notMem hi, b.get?_of_notMem (hdims ▸ hi)]

end StridedArray

/-! ## §3. Combining with an operand. -/

namespace StoredTensor

/-- The element at an index combined with the one an operand contributes there; an
absent operand changes nothing. -/
def combinedWith (f : α → α → α) (operand : Option (StoredTensor α)) (i : List Nat)
    (x : Option α) : Option α :=
  match operand with
  | none => x
  | some p => Option.map₂ f x (p.get? (operandIndex p.dims i))

section
variable {dims : List Nat} {f : α → α → α} {out : StridedArray α}
  {operand : Option (StoredTensor α)}

/-- An operand that fits is taken, and combined in place index by index. -/
theorem combine_ok (hout : out.dims = dims) (hoperand : ∀ p, operand = some p → p.Coherent)
    (hfits : ∀ p, operand = some p → FitsRight p.dims dims) :
    ∃ r, combine dims f out operand = .ok r ∧ r.dims = dims ∧ r.isStandard = out.isStandard
      ∧ ∀ i ∈ indicesOf dims, r.get? i = combinedWith f operand i (out.get? i) := by
  cases operand with
  | none => exact ⟨out, rfl, hout, rfl, fun _ _ => rfl⟩
  | some p =>
      have hp := hoperand p rfl
      have hfit : FitsRight p.array.dims dims := hp.dims_eq ▸ hfits p rfl
      have hvalues := StridedArray.broadcast?_of_fitsRight hfit
      generalize readAll _ _ = values at hvalues
      have hlength : values.length = out.toList.length := by
        rw [StridedArray.length_broadcast? hfit hvalues, out.length_toList, hout]
      have hwritten : (out.overwrite (List.zipWith f out.toList values)).toList
          = List.zipWith f out.toList values := by
        refine StridedArray.toList_overwrite ?_
        rw [List.length_zipWith, hlength, Nat.min_self, out.length_toList]
      refine ⟨out.overwrite (List.zipWith f out.toList values), ?_, hout, rfl, fun i hi => ?_⟩
      · show (Guarded.orRefuse _ (p.array.broadcast? dims) >>= _) = _
        rw [hvalues]
        show (Guarded.require (out.dims = dims) >>= _) = _
        rw [Guarded.require_ok hout]
        rfl
      · subst hout
        have hi' : i ∈ indicesOf (out.overwrite (List.zipWith f out.toList values)).dims := hi
        rw [StridedArray.get?_of_mem _ hi', hwritten, out.dims_overwrite, List.getElem?_zipWith',
          StridedArray.getElem?_broadcast? hfit hvalues hi, ← out.get?_of_mem hi]
        show _ = Option.map₂ f (out.get? i) (p.get? (operandIndex p.dims i))
        rw [p.get?_eq, hp.dims_eq]
        cases out.get? i <;> rfl

/-- An operand that does not fit is refused. -/
theorem combine_error {p : StoredTensor α} (hp : p.Coherent) (hfits : ¬ FitsRight p.dims dims) :
    combine dims f out (some p) = .error (.refused (.notBroadcastable dims p.dims)) := by
  have hnone : p.array.broadcast? dims = none :=
    StridedArray.broadcast?_of_not_fitsRight (hp.dims_eq ▸ hfits)
  show (Guarded.orRefuse _ (p.array.broadcast? dims) >>= _) = _
  rw [hnone]
  rfl

end

/-! ## §4. Scaling and shifting. -/

/-- `r` is `s` scaled and shifted: at each index, the element times that of the scale
plus that of the shift. -/
structure AffineOf [Mul α] [Add α] (s : StoredTensor α) (scale shift : Option (StoredTensor α))
    (r : StoredTensor α) : Prop where
  represents : r.Represents
  dims : r.dims = s.dims
  device : r.device = s.device
  isContiguous : r.isContiguous = true
  get : ∀ i, List.Forall₂ (· < ·) i s.dims →
    r.get? i = combinedWith (· + ·) shift i (combinedWith (· * ·) scale i (s.get? i))
  /-- The operands are read at indices of theirs. -/
  operands : ∀ p, scale = some p ∨ shift = some p →
    ∀ i, List.Forall₂ (· < ·) i s.dims → List.Forall₂ (· < ·) (operandIndex p.dims i) p.dims

section
variable [Mul α] [Add α] {s : StoredTensor α} {scale shift : Option (StoredTensor α)}
  (hs : s.Coherent) (hscale : ∀ p, scale = some p → p.Coherent)
  (hshift : ∀ p, shift = some p → p.Coherent)
include hs hscale hshift

theorem Coherent.affine_ok
    (hfits : ∀ p, scale = some p ∨ shift = some p → FitsRight p.dims s.dims) :
    ∃ r, s.affine scale shift = .ok r ∧ AffineOf s scale shift r := by
  have hcopy : s.array.standard.dims = s.dims := s.array.dims_standard.trans hs.dims_eq.symm
  obtain ⟨scaled, hscaled, hsdims, hsstandard, hsget⟩ :=
    combine_ok (f := (· * ·)) hcopy hscale fun p hp => hfits p (.inl hp)
  obtain ⟨shifted, hshifted, hdims, hstandard, hget⟩ :=
    combine_ok (f := (· + ·)) hsdims hshift fun p hp => hfits p (.inr hp)
  have haffine : s.affine scale shift = .ok (s.withArray shifted) := by
    unfold affine
    rw [hscaled]
    show (combine s.dims _ scaled shift >>= _) = _
    rw [hshifted]
    rfl
  refine ⟨_, haffine, (coherent_affine haffine).represents, hdims, rfl, ?_, fun i hi => ?_,
    fun p hp i hi => ?_⟩
  · show shifted.isStandard = true
    rw [hstandard, hsstandard, s.array.isStandard_standard]
  · rw [← mem_indicesOf_iff_forall₂] at hi
    rw [get?_eq, s.get?_eq]
    show shifted.get? i = _
    rw [hget i hi, hsget i hi,
      StridedArray.get?_congr s.array.dims_standard s.array.toList_standard]
  · rw [← mem_indicesOf_iff_forall₂] at hi ⊢
    exact operandIndex_mem_indicesOf (hfits p hp) hi

/-- An operand that does not fit is named, the scale before the shift. -/
theorem Coherent.affine_error
    (hmisfit : ¬ ∀ p, scale = some p ∨ shift = some p → FitsRight p.dims s.dims) :
    ∃ p, (scale = some p ∨ shift = some p) ∧ ¬ FitsRight p.dims s.dims
      ∧ s.affine scale shift = .error (.refused (.notBroadcastable s.dims p.dims)) := by
  have hcopy : s.array.standard.dims = s.dims := s.array.dims_standard.trans hs.dims_eq.symm
  by_cases hfirst : ∀ p, scale = some p → FitsRight p.dims s.dims
  · obtain ⟨scaled, hscaled, _⟩ := combine_ok (f := (· * ·)) hcopy hscale hfirst
    have hsecond : ∃ p, shift = some p ∧ ¬ FitsRight p.dims s.dims := by
      by_contra hnone
      rw [not_exists] at hnone
      refine hmisfit fun p hp => hp.elim (hfirst p) fun hp => ?_
      by_contra hfits
      exact hnone p ⟨hp, hfits⟩
    obtain ⟨p, rfl, hfits⟩ := hsecond
    refine ⟨p, .inr rfl, hfits, ?_⟩
    unfold affine
    rw [hscaled]
    show (combine s.dims _ scaled (some p) >>= _) = _
    rw [combine_error (hshift p rfl) hfits]
    rfl
  · rw [not_forall] at hfirst
    obtain ⟨p, hp⟩ := hfirst
    obtain ⟨rfl, hfits⟩ := Classical.not_imp.1 hp
    refine ⟨p, .inl rfl, hfits, ?_⟩
    unfold affine
    rw [combine_error (hscale p rfl) hfits]
    rfl

end

/-- **Scaling and shifting broadcasts its operands.**  It succeeds exactly if every
operand there is fits the shape on the right, and then combines the elements index
by index, in a fresh contiguous tensor; otherwise an operand that does not fit is
refused as a mismatch of shapes.  No law of arithmetic is used, and the operands,
which may be one tensor, are values that stay as they are. -/
theorem affine_broadcasts [Mul α] [Add α] :
    (∀ (s : StoredTensor α) (scale shift : Option (StoredTensor α)), s.Coherent →
      (∀ p, scale = some p ∨ shift = some p → p.Coherent) →
        ((∃ r, s.affine scale shift = .ok r)
            ↔ ∀ p, scale = some p ∨ shift = some p → FitsRight p.dims s.dims)
          ∧ (∀ r, s.affine scale shift = .ok r → AffineOf s scale shift r)
          ∧ ∀ e, s.affine scale shift = .error e →
              ∃ p, (scale = some p ∨ shift = some p) ∧ ¬ FitsRight p.dims s.dims
                ∧ e = .refused (.shapeMismatch "affine" (Shape.mk s.dims).text
                    (Shape.mk p.dims).text))
      ∧ ∀ t : Tensor α, t.stored.Coherent ∧ t.stored.ReadsAs t
          ∧ ∀ scale shift : Option (Tensor α),
              t.stored.affine (scale.map Tensor.stored) (shift.map Tensor.stored)
                = Guarded.storing (t.affine scale shift) := by
  refine ⟨fun s scale shift hs hoperands => ?_, fun t => ?_⟩
  · have hscale : ∀ p, scale = some p → p.Coherent := fun p hp => hoperands p (.inl hp)
    have hshift : ∀ p, shift = some p → p.Coherent := fun p hp => hoperands p (.inr hp)
    by_cases hfits : ∀ p, scale = some p ∨ shift = some p → FitsRight p.dims s.dims
    · obtain ⟨r, hr, hby⟩ := hs.affine_ok hscale hshift hfits
      rw [hr]
      refine ⟨iff_of_true ⟨r, rfl⟩ hfits, fun r' hr' => ?_, fun e he => ?_⟩
      · cases hr'
        exact hby
      · cases he
    · obtain ⟨p, hp, hmisfit, he⟩ := hs.affine_error hscale hshift hfits
      rw [he]
      refine ⟨iff_of_false (fun ⟨r, hr⟩ => ?_) hfits, fun r hr => ?_, fun e he' => ?_⟩
      · cases hr
      · cases hr
      · cases he'
        exact ⟨p, hp, hmisfit, rfl⟩
  · exact ⟨t.dims_strided.symm, readsAs_stored t, affine_stored t⟩

/-- A vector of three, read backwards. -/
def backwards : StridedArray Int where
  axes := [⟨3, -1⟩]
  start := 2
  buffer := #[10, 20, 30]
  bound := by decide
  apart := by decide
  addressable := by decide

/-- A column of two. -/
def column : StridedArray Int where
  axes := [⟨2, 1⟩, ⟨1, 0⟩]
  start := 0
  buffer := #[1, 2]
  bound := by decide
  apart := by decide
  addressable := by decide

theorem affine_broadcasts_mirrored :
    (∃ r, (fromArray mirrored).affine (some (fromArray backwards)) (some (fromArray column)) = .ok r
        ∧ r.dims = [2, 3] ∧ r.isContiguous = true
        ∧ r.get? [0, 0] = some 151 ∧ r.get? [1, 1] = some 42)
      ∧ ¬ ∃ r, (fromArray backwards).affine (some (fromArray mirrored)) none = .ok r := by
  constructor
  · have hoperands : ∀ p, some (fromArray backwards) = some p ∨ some (fromArray column) = some p →
        p.Coherent := by
      rintro p (⟨⟨⟩⟩ | ⟨⟨⟩⟩)
      · exact coherent_fromArray backwards
      · exact coherent_fromArray column
    have hfits : ∀ p, some (fromArray backwards) = some p ∨ some (fromArray column) = some p →
        FitsRight p.dims (fromArray mirrored).dims := by
      rintro p (⟨⟨⟩⟩ | ⟨⟨⟩⟩)
      · exact ⟨[2], [3], rfl, .cons (.inl rfl) .nil⟩
      · exact ⟨[], [2, 3], rfl, .cons (.inl rfl) (.cons (.inr rfl) .nil)⟩
    obtain ⟨haccepted, hby, _⟩ := affine_broadcasts.1 (fromArray mirrored)
      (some (fromArray backwards)) (some (fromArray column)) (coherent_fromArray mirrored) hoperands
    obtain ⟨r, hr⟩ := haccepted.2 hfits
    have hr' := hby r hr
    refine ⟨r, hr, hr'.dims, hr'.isContiguous, ?_, ?_⟩
    · exact (hr'.get [0, 0] (.cons (by decide) (.cons (by decide) .nil))).trans rfl
    · exact (hr'.get [1, 1] (.cons (by decide) (.cons (by decide) .nil))).trans rfl
  · have hoperands : ∀ p, some (fromArray mirrored) = some p ∨ none = some p → p.Coherent := by
      rintro p (⟨⟨⟩⟩ | ⟨⟨⟩⟩)
      exact coherent_fromArray mirrored
    obtain ⟨haccepted, _⟩ := affine_broadcasts.1 (fromArray backwards) (some (fromArray mirrored))
      none (coherent_fromArray backwards) hoperands
    rw [haccepted]
    intro hfits
    -- two dimensions do not fit one
    obtain ⟨leading, rest, hsplit, hdims⟩ := hfits _ (.inl rfl)
    have hrest : 2 = rest.length := hdims.length_eq
    have htarget : 1 = leading.length + rest.length := by
      rw [← List.length_append, ← hsplit]
      rfl
    omega

end StoredTensor

end ChannelNorm

/-
  ChannelNorm.Proofs.Tensor.Broadcast
  ───────────────────────────────────
  **WHAT A STRETCHED OPERAND CONTRIBUTES TO EACH PLACE.**

  An operand whose axes, aligned on the right, have the target's length or
  length one is read at the target's index with the coordinates of its short
  axes pinned to zero.  In terms of places, with `dims` the target,

      operand of the same shape        place k
      operand of the trailing axes     place k % (size of the operand)
      operand of shape [1, C, 1, …]    the channel of place k

  and scaling and shifting by such operands is pointwise (`affine_pointwise`),
  an absent operand left out.
-/
import Mathlib
import ChannelNorm.Proofs.Scalar.Real
import ChannelNorm.Proofs.Tensor.Plane
import ChannelNorm.Proofs.Tensor.Reshape

namespace ChannelNorm

variable {α : Type}

/-! ## §1. Pinned indices. -/

/-- Dimensions that stretch to others of the same number. -/
def StretchesTo : List Nat → List Nat → Prop
  | [], [] => True
  | d :: ds, e :: es => (d = e ∨ d = 1) ∧ StretchesTo ds es
  | _, _ => False

/-- An index with the coordinates of axes of length one pinned to zero. -/
def pinned (dims i : List Nat) : List Nat :=
  List.zipWith (fun d j => if d = 1 then 0 else j) dims i

theorem stretchesTo_refl (ds : List Nat) : StretchesTo ds ds := by
  induction ds with
  | nil => trivial
  | cons d ds ih => exact ⟨.inl rfl, ih⟩

theorem stretchesTo_replicate_append {ds es : List Nat} (h : StretchesTo ds es)
    (leading : List Nat) :
    StretchesTo (List.replicate leading.length 1 ++ ds) (leading ++ es) := by
  induction leading with
  | nil => exact h
  | cons d leading ih => exact ⟨.inr rfl, ih⟩

/-- Pinning an index of the target gives an index of the operand. -/
theorem pinned_mem_indicesOf {ds es i : List Nat} (h : StretchesTo ds es)
    (hi : i ∈ indicesOf es) : pinned ds i ∈ indicesOf ds := by
  induction ds generalizing es i with
  | nil => simp [pinned]
  | cons d ds ih =>
      cases es with
      | nil => exact h.elim
      | cons e es =>
          obtain ⟨hd, h⟩ := h
          obtain ⟨j, js, rfl, hj, hjs⟩ := exists_cons_of_mem_indicesOf hi
          show (if d = 1 then 0 else j) :: pinned ds js ∈ indicesOf (d :: ds)
          refine cons_mem_indicesOf.2 ⟨?_, ih h hjs⟩
          split <;> omega

/-- An index of the operand is pinned already. -/
theorem pinned_eq_self {ds i : List Nat} (hi : i ∈ indicesOf ds) : pinned ds i = i := by
  induction ds generalizing i with
  | nil =>
      rw [mem_indicesOf_nil] at hi
      subst hi
      rfl
  | cons d ds ih =>
      obtain ⟨j, js, rfl, hj, hjs⟩ := exists_cons_of_mem_indicesOf hi
      show (if d = 1 then 0 else j) :: pinned ds js = j :: js
      rw [ih hjs]
      split
      · have hzero : j = 0 := by omega
        rw [hzero]
      · rfl

/-! ## §2. The values of a stretched operand. -/

/-- Axes that stretch are read at pinned indices. -/
theorem exists_stretchAxes?_eq {axes : List Axis} {target : List Nat}
    (h : StretchesTo (dimsOf axes) target) :
    ∃ out, stretchAxes? axes target = some out
      ∧ ∀ i ∈ indicesOf target, positionOf out i = positionOf axes (pinned (dimsOf axes) i) := by
  induction axes generalizing target with
  | nil =>
      cases target with
      | nil =>
          refine ⟨[], rfl, fun i hi => ?_⟩
          rw [mem_indicesOf_nil] at hi
          subst hi
          rfl
      | cons e es => exact h.elim
  | cons a as ih =>
      cases target with
      | nil => exact h.elim
      | cons e es =>
          obtain ⟨ha, h⟩ := h
          obtain ⟨out, hout, hpos⟩ := ih h
          unfold stretchAxes?
          rw [hout]
          -- an axis is kept, or stretched from length one by a stride of zero
          by_cases hkeep : a.len = e
          · rw [if_pos hkeep]
            refine ⟨a :: out, rfl, fun i hi => ?_⟩
            obtain ⟨j, js, rfl, hj, hjs⟩ := exists_cons_of_mem_indicesOf hi
            show j * a.stride + positionOf out js
              = (if a.len = 1 then 0 else j) * a.stride + positionOf as (pinned (dimsOf as) js)
            rw [hpos js hjs]
            split
            · have hzero : j = 0 := by omega
              rw [hzero]
            · rfl
          · have hone : a.len = 1 := ha.resolve_left hkeep
            rw [if_neg hkeep, if_pos hone]
            refine ⟨⟨e, 0⟩ :: out, rfl, fun i hi => ?_⟩
            obtain ⟨j, js, rfl, _, hjs⟩ := exists_cons_of_mem_indicesOf hi
            show j * 0 + positionOf out js
              = (if a.len = 1 then 0 else j) * a.stride + positionOf as (pinned (dimsOf as) js)
            rw [hpos js hjs, if_pos hone, Nat.mul_zero, Nat.zero_mul]

theorem positionOf_replicate (n : Nat) (i : List Nat) :
    positionOf (List.replicate n ⟨1, 0⟩) i = 0 := by
  induction n generalizing i with
  | zero => rfl
  | succ n ih =>
      cases i with
      | nil => rfl
      | cons j js =>
          show j * 0 + positionOf (List.replicate n ⟨1, 0⟩) js = 0
          rw [ih, Nat.mul_zero]

/-- Added leading axes are not read. -/
theorem positionOf_pinned_padAxes (axes : List Axis) {rank : Nat} {i : List Nat}
    (hrank : axes.length ≤ rank) (hi : i.length = rank) :
    positionOf (padAxes axes rank) (pinned (dimsOf (padAxes axes rank)) i)
      = positionOf axes (pinned (dimsOf axes) (i.drop (rank - axes.length))) := by
  have hdims : dimsOf (padAxes axes rank)
      = List.replicate (rank - axes.length) 1 ++ dimsOf axes := by
    unfold padAxes dimsOf
    rw [List.map_append, List.map_replicate]
  -- pinning the padding and pinning the rest are done apart
  have hsplit : pinned (List.replicate (rank - axes.length) 1 ++ dimsOf axes) i
      = pinned (List.replicate (rank - axes.length) 1) (i.take (rank - axes.length))
        ++ pinned (dimsOf axes) (i.drop (rank - axes.length)) := by
    have htake : (i.take (rank - axes.length)).length = rank - axes.length := by
      rw [List.length_take]
      omega
    have happ : pinned (List.replicate (rank - axes.length) 1 ++ dimsOf axes)
          (i.take (rank - axes.length) ++ i.drop (rank - axes.length)) = _ :=
      List.zipWith_append (by rw [List.length_replicate, htake])
    rw [List.take_append_drop] at happ
    exact happ
  rw [hdims, hsplit]
  unfold padAxes
  rw [positionOf_append, positionOf_replicate, Nat.zero_add]
  unfold pinned
  rw [List.length_zipWith, List.length_replicate, List.length_replicate, List.length_take]
  omega

namespace Tensor

variable [Zero α]

/-- An operand stretched to dimensions `dims` contributes its entry `p k` to
place `k`. -/
def StretchedBy (operand : Tensor α) (dims : List Nat) (p : Nat → Nat) : Prop :=
  ∃ values, operand.broadcast? dims = some values
    ∧ values.toList = (List.range (volume dims)).map fun k => operand.elem (p k)

/-- **A stretched operand is read at pinned indices.** -/
theorem stretchedBy_of (operand : Tensor α) {dims : List Nat} {p : Nat → Nat}
    (hrank : operand.rank ≤ dims.length)
    (h : StretchesTo (List.replicate (dims.length - operand.rank) 1 ++ operand.dims) dims)
    (hp : ∀ i ∈ indicesOf dims,
      pinned operand.dims (i.drop (dims.length - operand.rank)) ∈ indicesOf operand.dims
        ∧ flatIndex operand.dims (pinned operand.dims (i.drop (dims.length - operand.rank)))
          = p (flatIndex dims i)) :
    operand.StretchedBy dims p := by
  have haxes : operand.layout.axes.length = operand.rank := operand.layout.length_dims.symm
  have hpad : dimsOf (padAxes operand.layout.axes dims.length)
      = List.replicate (dims.length - operand.rank) 1 ++ operand.dims := by
    unfold padAxes dimsOf
    rw [List.map_append, List.map_replicate, haxes]
    rfl
  obtain ⟨out, hout, hpos⟩ := exists_stretchAxes?_eq (hpad ▸ h)
  have hdims : dimsOf out = dims := dimsOf_stretchAxes? hout
  -- the walk over the stretched axes is a walk over pinned indices of the operand
  have hread : readAll operand.buffer (offsetsFrom out 0)
      = (List.range (volume dims)).map fun k => operand.elem (p k) := by
    have hoffsets : offsetsFrom out 0
        = ((indicesOf dims).map fun i =>
            pinned operand.dims (i.drop (dims.length - operand.rank))).map
              (positionOf operand.layout.axes) := by
      rw [offsetsFrom_eq_map, hdims, List.map_map]
      apply List.map_congr_left
      intro i hi
      rw [Nat.zero_add, hpos i hi, positionOf_pinned_padAxes _ (haxes ▸ hrank)
        (length_of_mem_indicesOf hi), haxes]
      rfl
    rw [hoffsets, readAll_map_positionOf, List.map_map, ← map_flatIndex, List.map_map]
    · apply List.map_congr_left
      intro i hi
      show operand.elem (flatIndex operand.dims _) = operand.elem (p (flatIndex dims i))
      rw [(hp i hi).2]
    · intro j hj
      obtain ⟨i, hi, rfl⟩ := List.mem_map.1 hj
      exact (hp i hi).1
  unfold StretchedBy broadcast?
  split
  next hnone =>
    rw [hout] at hnone
    exact absurd hnone (by rintro ⟨⟩)
  next axes hsome =>
    have heq : out = axes := Option.some.inj (hout.symm.trans hsome)
    subst heq
    exact ⟨_, rfl, hread⟩

/-! ## §3. Shapes of operands. -/

/-- An operand of the same shape contributes its own place. -/
theorem stretchedBy_same (operand : Tensor α) : operand.StretchedBy operand.dims fun k => k := by
  have hzero : operand.dims.length - operand.rank = 0 := Nat.sub_self _
  refine operand.stretchedBy_of (Nat.le_refl _) ?_ ?_
  · rw [hzero]
    exact stretchesTo_refl _
  · intro i hi
    rw [hzero, List.drop_zero, pinned_eq_self hi]
    exact ⟨hi, rfl⟩

end Tensor

/-- Trailing coordinates form an index of the trailing axes, at the remainder
of the place. -/
theorem flatIndex_drop (leading : List Nat) {ds i : List Nat} (hi : i ∈ indicesOf (leading ++ ds)) :
    i.drop leading.length ∈ indicesOf ds
      ∧ flatIndex ds (i.drop leading.length) = flatIndex (leading ++ ds) i % volume ds := by
  -- a leading coordinate adds a multiple of the volume that trails
  induction leading generalizing i with
  | nil =>
      refine ⟨hi, ?_⟩
      exact (Nat.mod_eq_of_lt (flatIndex_lt hi)).symm
  | cons d leading ih =>
      obtain ⟨j, js, rfl, _, hjs⟩ := exists_cons_of_mem_indicesOf hi
      obtain ⟨hmem, hflat⟩ := ih hjs
      refine ⟨hmem, ?_⟩
      rw [List.cons_append, flatIndex_cons, volume_append, ← Nat.mul_assoc]
      show flatIndex ds (js.drop leading.length) = _
      rw [hflat, Nat.mul_comm (j * volume leading), Nat.mul_add_mod]

/-- An array whose axes all have length one has one place. -/
theorem volume_map_one (ds : List Nat) : volume (ds.map fun _ => 1) = 1 := by
  induction ds with
  | nil => rfl
  | cons d ds ih =>
      show 1 * volume (ds.map fun _ => 1) = 1
      rw [ih]

theorem stretchesTo_map_one (ds : List Nat) : StretchesTo (ds.map fun _ => 1) ds := by
  induction ds with
  | nil => trivial
  | cons d ds ih => exact ⟨.inr rfl, ih⟩

namespace Tensor

variable [Zero α]

/-- An operand of the trailing axes contributes its places over and over. -/
theorem stretchedBy_suffix (operand : Tensor α) (leading : List Nat) :
    operand.StretchedBy (leading ++ operand.dims) fun k => k % operand.numel := by
  have hlead : (leading ++ operand.dims).length - operand.rank = leading.length := by
    rw [List.length_append]
    exact Nat.add_sub_cancel _ _
  refine operand.stretchedBy_of ?_ ?_ ?_
  · rw [List.length_append]
    exact Nat.le_add_left _ _
  · rw [hlead]
    exact stretchesTo_replicate_append (stretchesTo_refl _) leading
  · intro i hi
    obtain ⟨hmem, hflat⟩ := flatIndex_drop leading hi
    rw [hlead, pinned_eq_self hmem]
    exact ⟨hmem, hflat⟩

/-- An operand of shape `[1, C, 1, …]` contributes one entry to each channel. -/
theorem stretchedBy_channel (operand : Tensor α) {n C : Nat} {rest : List Nat}
    (hdims : operand.dims = 1 :: C :: rest.map fun _ => 1) :
    operand.StretchedBy (n :: C :: rest) (channelOf (n :: C :: rest)) := by
  have hlen : operand.dims.length = (n :: C :: rest).length := by
    rw [hdims]
    simp
  have hzero : (n :: C :: rest).length - operand.rank = 0 := by
    rw [← hlen]
    exact Nat.sub_self _
  have hstretch : StretchesTo operand.dims (n :: C :: rest) := by
    rw [hdims]
    exact ⟨.inr rfl, .inl rfl, stretchesTo_map_one rest⟩
  refine operand.stretchedBy_of (Nat.le_of_eq hlen) ?_ ?_
  · rw [hzero]
    exact hstretch
  · intro i hi
    rw [hzero, List.drop_zero]
    have hmem := pinned_mem_indicesOf hstretch hi
    refine ⟨hmem, ?_⟩
    obtain ⟨j, is, rfl, _, his⟩ := exists_cons_of_mem_indicesOf hi
    obtain ⟨c, js, rfl, hc, hjs⟩ := exists_cons_of_mem_indicesOf his
    rw [channelOf_flatIndex hi, hdims]
    -- the trailing axes have one place, so only the channel coordinate is left
    have hrest : flatIndex (rest.map fun _ => 1) (pinned (rest.map fun _ => 1) js) = 0 := by
      have hlt := flatIndex_lt (pinned_mem_indicesOf (stretchesTo_map_one rest) hjs)
      rw [volume_map_one] at hlt
      omega
    show (if (1 : Nat) = 1 then 0 else j) * volume (C :: rest.map fun _ => 1)
      + ((if C = 1 then 0 else c) * volume (rest.map fun _ => 1)
        + flatIndex (rest.map fun _ => 1) (pinned (rest.map fun _ => 1) js)) = c
    rw [if_pos rfl, hrest, volume_map_one]
    split <;> omega

/-! ## §4. Scaling and shifting. -/

end Tensor

/-- A value combined with an entry of an operand; an absent operand changes
nothing. -/
def combinedAt [Zero α] (f : α → α → α) (operand : Option (Tensor α)) (j : Nat) (x : α) : α :=
  match operand with
  | none => x
  | some t => f x (t.elem j)

/-- A value times an entry of the scale plus one of the shift, an absent factor
or summand left out. -/
def affineAt [Zero α] [Mul α] [Add α] (scale shift : Option (Tensor α)) (j : Nat) (x : α) : α :=
  combinedAt (· + ·) shift j (combinedAt (· * ·) scale j x)

/-- Only the entry that is read counts. -/
theorem combinedAt_congr [Zero α] {p q : Option (Tensor α)} (hsome : q.isSome = p.isSome)
    {j : Nat} (hentry : ∀ d, paramAt q d j = paramAt p d j) (f : α → α → α) (x : α) :
    combinedAt f q j x = combinedAt f p j x := by
  cases p with
  | none =>
      rw [Option.isSome_none, Option.isSome_eq_false_iff, Option.isNone_iff_eq_none] at hsome
      rw [hsome]
  | some t =>
      obtain ⟨u, rfl⟩ := Option.isSome_iff_exists.1 hsome
      exact congrArg (f x) (hentry 0)

namespace Tensor

variable [Zero α]

/-- Combining with a stretched operand is pointwise. -/
theorem combine_ok (t : Tensor α) (f : α → α → α) {operand : Option (Tensor α)} {p : Nat → Nat}
    (h : ∀ s, operand = some s → s.StretchedBy t.dims p) :
    ∃ r, t.combine f operand = .ok r ∧ r.dims = t.dims
      ∧ ∀ k < t.numel, r.elem k = combinedAt f operand (p k) (t.elem k) := by
  cases operand with
  | none => exact ⟨t, rfl, rfl, fun _ _ => rfl⟩
  | some operand =>
      obtain ⟨values, hvalues, hlist⟩ := h operand rfl
      have hcontents : List.zipWith f t.toList values.toList
          = (List.range t.numel).map fun k => f (t.elem k) (operand.elem (p k)) := by
        rw [hlist, t.toList_eq_map_elem]
        show List.zipWith f _ ((List.range t.numel).map _) = _
        rw [List.zipWith_map, List.zipWith_self]
      have hlen : (List.zipWith f t.toList values.toList).length = t.numel := by
        rw [hcontents]
        simp
      refine ⟨t.overwrite (List.zipWith f t.toList values.toList), ?_, rfl, ?_⟩
      · unfold combine
        dsimp only
        rw [hvalues]
      · intro k hk
        exact elem_of_toList_eq_map ((toList_overwrite hlen).trans hcontents) hk

/-- **An affine map with stretched operands is pointwise**, whatever arithmetic
is. -/
theorem affine_pointwise [Mul α] [Add α] (t : Tensor α) {scale shift : Option (Tensor α)}
    {p : Nat → Nat} (hscale : ∀ s, scale = some s → s.StretchedBy t.dims p)
    (hshift : ∀ s, shift = some s → s.StretchedBy t.dims p) :
    ∃ r, t.affine scale shift = .ok r ∧ r.dims = t.dims
      ∧ ∀ k < t.numel, r.elem k = affineAt scale shift (p k) (t.elem k) := by
  have hdims : t.contiguous.dims = t.dims := t.dims_contiguous
  have hnumel : t.contiguous.numel = t.numel := congrArg volume hdims
  have helem : t.contiguous.elem = t.elem := elem_of_toList_eq t.toList_contiguous
  -- the scale first, then the shift on what it gives
  obtain ⟨scaled, hscaled, hsdims, hselem⟩ := t.contiguous.combine_ok (· * ·) (hdims ▸ hscale)
  obtain ⟨r, hr, hrdims, hrelem⟩ :=
    scaled.combine_ok (· + ·) (hsdims.trans hdims ▸ hshift)
  have hsnumel : scaled.numel = t.numel := (congrArg volume hsdims).trans hnumel
  refine ⟨r, ?_, hrdims.trans (hsdims.trans hdims), fun k hk => ?_⟩
  · unfold affine
    rw [hscaled]
    exact hr
  · rw [hrelem k (hsnumel ▸ hk), hselem k (hnumel ▸ hk), helem]
    rfl

end Tensor

/-- Over the reals an absent scale counts as one and an absent shift as zero. -/
theorem affineAt_real (scale shift : Option (Tensor ℝ)) (j : Nat) (x : ℝ) :
    affineAt scale shift j x = x * paramAt scale 1 j + paramAt shift 0 j := by
  have hscale : combinedAt (· * ·) scale j x = x * paramAt scale 1 j := by
    cases scale with
    | none => exact (mul_one x).symm
    | some s => rfl
  unfold affineAt
  rw [hscale]
  cases shift with
  | none => exact (add_zero _).symm
  | some s => rfl

/-- Over the reals an affine map with stretched operands is pointwise. -/
theorem Tensor.affine_ok (t : Tensor ℝ) {scale shift : Option (Tensor ℝ)} {p : Nat → Nat}
    (hscale : ∀ s, scale = some s → s.StretchedBy t.dims p)
    (hshift : ∀ s, shift = some s → s.StretchedBy t.dims p) :
    ∃ r, t.affine scale shift = .ok r ∧ r.dims = t.dims
      ∧ ∀ k < t.numel, r.elem k = t.elem k * paramAt scale 1 (p k) + paramAt shift 0 (p k) := by
  obtain ⟨r, hr, hdims, helem⟩ := t.affine_pointwise hscale hshift
  exact ⟨r, hr, hdims, fun k hk => (helem k hk).trans (affineAt_real scale shift (p k) _)⟩

end ChannelNorm

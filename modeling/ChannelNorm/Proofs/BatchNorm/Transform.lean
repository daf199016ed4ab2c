/-
  ChannelNorm.Proofs.BatchNorm.Transform
  ──────────────────────────────────────
  **BOTH FORWARD KERNELS, ELEMENT BY ELEMENT.**

  The kernel that goes channel by channel and the one that runs over the flat
  buffer fill a row-major tensor of the input's shape and device.  At place `k`,
  in channel `c = channelOf dims k`, they put

      (x - mean c) * invstd c * weight c + bias c
      x * alpha c + beta c

  The flat kernel finds `c` by counting planes.  No law of arithmetic is used
  until the two values are compared; then those of a commutative ring are
  enough, and the kernels return the same tensor.
-/
import ChannelNorm.Proofs.BatchNorm.Check
import ChannelNorm.Proofs.Scalar.Lawful
import ChannelNorm.Proofs.Tensor.Plane

namespace ChannelNorm

variable {α A : Type} [OrderedArith A] [Element α A]

/-! ## §1. The general kernel. -/

/-- What the general kernel puts at a place. -/
def generalAt (input : Tensor α) (weight bias : Option (Vector α input.channels))
    (mean invstd : Vector α input.channels) (k : Nat) : α :=
  let c := channelOf input.dims k
  normalizeElement (channelValue mean c) (channelValue invstd c)
    (channelValue (channelValues weight 1) c) (channelValue (channelValues bias 0) c)
    (input.elem k)

/-- **The general kernel, element by element, under any schedule.** -/
theorem Schedule.transformGeneral_eq {input : Tensor α} (s : Schedule input.channels)
    (hrank : 2 ≤ input.rank) (weight bias : Option (Vector α input.channels))
    (mean invstd : Vector α input.channels) :
    s.transformGeneral (A := A) input weight bias mean invstd
      = input.withContents
          ((List.range input.numel).map (generalAt (A := A) input weight bias mean invstd))
          (by simp) := by
  unfold transformGeneral
  apply input.forEachChannel_zerosLike s hrank _ _
  intro c _
  rw [Tensor.plane_eq_map input hrank c.isLt, List.map_map]
  apply List.map_congr_left
  intro k hk
  have hchan : channelOf input.dims k = c := ((mem_channelPlaces hrank c.isLt).1 hk).2
  simp only [Function.comp_apply, generalAt, hchan, get_eq_channelValue]

/-! ## §2. The flat kernel. -/

/-- What the flat kernel puts at a place. -/
def contiguousAt (input : Tensor α) (weight bias : Option (Vector α input.channels))
    (mean var : Vector α input.channels) (eps : A) (k : Nat) : α :=
  let c := channelOf input.dims k
  let alpha := inferenceAlpha eps (channelValue var c) (channelValue (channelValues weight 1) c)
  input.elem k * alpha
    + inferenceBeta alpha (channelValue mean c) (channelValue (channelValues bias 0) c)

/-- Counting planes finds the channel. -/
theorem imageSize_eq (input : Tensor α) (hrank : 2 ≤ input.rank) (hne : 0 < input.numel) :
    input.numel / input.dims.headD 0 / input.channels = volume (input.dims.drop 2) := by
  obtain ⟨n, C, rest, hdims⟩ := exists_eq_cons_cons hrank
  unfold Tensor.numel at hne ⊢
  unfold Tensor.channels
  rw [hdims] at hne ⊢
  have hn : 0 < n := Nat.pos_of_mul_pos_right hne
  have hC : 0 < C := Nat.pos_of_mul_pos_right (Nat.pos_of_mul_pos_left hne)
  show n * (C * volume rest) / n / C = volume rest
  rw [Nat.mul_div_cancel_left _ hn, Nat.mul_div_cancel_left _ hC]

theorem mapIdx_map_range {β γ : Type} (n : Nat) (f : Nat → β) (g : Nat → β → γ) :
    ((List.range n).map f).mapIdx g = (List.range n).map fun k => g k (f k) := by
  apply List.ext_getElem?
  intro k
  rw [List.getElem?_mapIdx, List.getElem?_map, List.getElem?_map]
  rcases Nat.lt_or_ge k n with hk | hk
  · rw [List.getElem?_range hk]
    rfl
  · rw [List.getElem?_eq_none (by simpa using hk)]
    rfl

/-- Equal contents make equal tensors. -/
theorem Tensor.withContents_congr {β : Type} (t : Tensor α) {xs ys : List β}
    {hx : xs.length = t.numel} {hy : ys.length = t.numel} (h : xs = ys) :
    t.withContents xs hx = t.withContents ys hy := by
  subst h
  rfl

/-- **The flat kernel, element by element.** -/
theorem transformContiguous_eq (input : Tensor α) (hrank : 2 ≤ input.rank)
    (weight bias : Option (Vector α input.channels)) (mean var : Vector α input.channels)
    (eps : A) :
    transformContiguous input weight bias mean var eps
      = input.withContents
          ((List.range input.numel).map (contiguousAt input weight bias mean var eps))
          (by simp) := by
  unfold transformContiguous
  dsimp only
  rcases Nat.eq_zero_or_pos input.numel with hempty | hne
  · -- without elements both sides are built from nothing
    have hrange : List.range input.numel = [] := by
      rw [hempty]
      rfl
    split
    · refine input.withContents_congr ?_
      have hnil : input.toList = [] := by
        rw [← List.length_eq_zero_iff, Tensor.length_toList, hempty]
      rw [hnil, hrange]
      rfl
    · show input.withContents (List.replicate input.numel 0) List.length_replicate = _
      refine input.withContents_congr ?_
      rw [hrange, hempty]
      rfl
  · have hchannels : 0 < input.channels := by
      have hlt : 0 < volume input.dims := hne
      exact Nat.lt_of_le_of_lt (Nat.zero_le _) (channelOf_lt hrank hlt)
    rw [dif_pos hchannels]
    refine input.withContents_congr ?_
    rw [input.toList_eq_map_elem, mapIdx_map_range]
    apply List.map_congr_left
    intro k _
    -- what counts as a plane of the flat contents is a channel
    have hchan : k / (input.numel / input.dims.headD 0 / input.channels) % input.channels
        = channelOf input.dims k := by
      rw [imageSize_eq input hrank hne]
      rfl
    have hlt : channelOf input.dims k < input.channels := Nat.mod_lt _ hchannels
    -- the zipped parameters, read at one channel
    have hbeta : ∀ c : Fin input.channels,
        (Vector.zipWith (fun a (mb : α × α) => inferenceBeta a mb.1 mb.2)
          (Vector.zipWith (inferenceAlpha eps) var (channelValues weight 1))
          (mean.zip (channelValues bias 0))).get c
        = inferenceBeta ((Vector.zipWith (inferenceAlpha eps) var (channelValues weight 1)).get c)
            (mean.get c) ((channelValues bias 0).get c) := by
      intro c
      show (Vector.zipWith _ _ _)[(c : Nat)] = _
      rw [Vector.getElem_zipWith, Vector.getElem_zip]
      rfl
    simp only [hchan]
    rw [hbeta, get_eq_channelValue, get_eq_channelValue, get_eq_channelValue,
      channelValue_zipWith _ _ _ hlt]
    rfl

/-! ## §3. The two kernels agree. -/

/-- Hoisting slope and offset out of the loop is a rewrite in a commutative
ring. -/
theorem hoisted_eq [LawfulArith α] (mean invstd weight bias x : α) :
    x * (invstd * weight) + inferenceBeta (invstd * weight) mean bias
      = normalizeElement mean invstd weight bias x := by
  let _ := LawfulArith.commRing α
  unfold inferenceBeta normalizeElement
  ring

/-- **In exact arithmetic both kernels return the same tensor**, whatever the
shape of the input, whether or not the parameters are there, and whatever
function of the variance the inverse standard deviation is. -/
theorem transformContiguous_eq_transformGeneral [LawfulArith α] (ex : Executor)
    (input : Tensor α) (hrank : 2 ≤ input.rank)
    (weight bias : Option (Vector α input.channels)) (mean var : Vector α input.channels)
    (eps : A) :
    transformContiguous input weight bias mean var eps
      = transformGeneral ex input weight bias mean (var.map (runningInverseStd · eps)) := by
  unfold transformGeneral
  rw [transformContiguous_eq input hrank, Schedule.transformGeneral_eq _ hrank]
  refine input.withContents_congr (List.map_congr_left fun k hk => ?_)
  have hlt : channelOf input.dims k < input.channels := channelOf_lt hrank (List.mem_range.1 hk)
  show _ = normalizeElement _ (channelValue (var.map (runningInverseStd · eps)) _) _ _ _
  rw [channelValue_map _ _ hlt]
  exact hoisted_eq _ _ _ _ _

end ChannelNorm

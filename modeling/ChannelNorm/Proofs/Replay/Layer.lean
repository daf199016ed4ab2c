/-
  ChannelNorm.Proofs.Replay.Layer
  ───────────────────────────────
  **ROWS AS BLOCKS.**

  An input of dimensions `leading ++ row` is folded to `(1, rows, row length)`.
  Place `k` reads entry `k % (row length)` of the parameters, and summing over
  the rows sums, for each entry, the places that read it: the plan of layer
  normalization is sound, and a call through it returns what a block
  normalization should.
-/
import Mathlib
import ChannelNorm.Proofs.Replay.Block
import ChannelNorm.Replay.Layer

namespace ChannelNorm

open Finset Function

/-! ## §1. The plan. -/

section
variable {leading row : List Nat}

/-- Dimensions folded to rows hold as many elements. -/
theorem volume_rows (leading row : List Nat) :
    volume [1, volume leading, volume row] = volume (leading ++ row) := by
  show 1 * (volume leading * (volume row * 1)) = _
  rw [Nat.one_mul, Nat.mul_one, volume_append]

/-- The places of a column are those that read its entry. -/
theorem channelSet_rows (leading row : List Nat) (j : Nat) :
    channelSet [volume leading, volume row] j
      = {k ∈ range (volume (leading ++ row)) | k % volume row = j} := by
  ext k
  rw [mem_channelSet, mem_filter, mem_range, volume_append]
  show k < volume leading * (volume row * 1) ∧ k / 1 % volume row = j ↔ _
  rw [Nat.mul_one, Nat.div_one]

/-- **The plan of layer normalization is sound.** -/
theorem LayerNormPlan.sound (h : Addressable (leading ++ row)) :
    (LayerNormPlan.toBlocks ⟨leading, row⟩ : BlockPlan ℝ).Sound (leading ++ row)
      (volume leading) (volume row) (fun k => k % volume row) row := by
  have hpair : Addressable [volume leading, volume row] := h.pair
  refine ⟨volume_rows leading row, ?_, ?_, ?_⟩
  · intro t ht
    have hcount : volume [1, volume leading, volume row] = t.numel :=
      (volume_rows leading row).trans (congrArg volume ht.symm)
    exact t.reshape_ok hcount hpair.one_cons
  · intro t ht
    have hcount : volume (leading ++ row) = t.numel :=
      (volume_rows leading row).symm.trans (congrArg volume ht.symm)
    exact t.reshape_ok hcount h
  · intro t ht
    have hrows : volume [volume leading, volume row] = t.numel := by
      rw [volume_pair, ← volume_append, ← ht]
      rfl
    -- the columns of the matrix of rows are summed
    obtain ⟨rows, hreshape, hdims, hlist⟩ := t.reshape_ok hrows hpair
    have hsdims : (rows.sumAxis 0).dims = [volume row] := by
      rw [Tensor.dims_sumAxis, hdims]
      rfl
    have hnumel : volume row = (rows.sumAxis 0).numel :=
      (Tensor.numel_of_dims_singleton hsdims).symm
    obtain ⟨r, hr, hrdims, hrlist⟩ := (rows.sumAxis 0).reshape_ok hnumel h.right
    refine ⟨r, ?_, hrdims, ?_⟩
    · show (LayerNormPlan.reduceToParam ⟨leading, row⟩ t) = _
      unfold LayerNormPlan.reduceToParam
      have hreshape' : t.reshape [LayerNormPlan.rows ⟨leading, row⟩,
          LayerNormPlan.rowLen ⟨leading, row⟩] = .ok rows := hreshape
      rw [hreshape']
      exact hr
    · intro j hj
      rw [Tensor.elem_of_toList_eq hrlist, rows.elem_sumAxis_rows hdims hj,
        channelSet_rows, Tensor.elem_of_toList_eq hlist]

end

/-! ## §2. The forward call. -/

section
variable {α : Type} {leading row : List Nat} {input : Tensor α} {weight bias : Option (Tensor α)}

/-- A parameter passes when it has the shape of a row. -/
theorem LayerNormPlan.checkParam_eq_ok {name : String} {param : Option (Tensor α)} :
    LayerNormPlan.checkParam name row param = .ok () ↔ ∀ t, param = some t → t.dims = row := by
  cases param with
  | none => exact iff_of_true rfl nofun
  | some t =>
      unfold LayerNormPlan.checkParam
      rw [checking_eq_ok]
      exact ⟨fun h u hu => Option.some.inj hu ▸ h, fun h => h t rfl⟩

/-- An input that ends with the dimensions to normalize has a plan. -/
theorem LayerNormPlan.ofInput_ok (hdims : input.dims = leading ++ row) (hrow : row ≠ [])
    (hweight : ∀ t, weight = some t → t.dims = row)
    (hbias : ∀ t, bias = some t → t.dims = row) :
    LayerNormPlan.ofInput input row weight bias = .ok ⟨leading, row⟩ := by
  have hempty : ¬ row.isEmpty = true := by
    rwa [List.isEmpty_iff]
  have hends : (!input.shape.endsWith row) = false := by
    unfold Shape.endsWith
    rw [Bool.not_eq_false', List.isSuffixOf_iff_suffix]
    exact ⟨leading, hdims.symm⟩
  -- what is left in front of the row
  have htake : input.dims.take (input.rank - row.length) = leading := by
    unfold Tensor.rank
    rw [hdims, List.length_append, Nat.add_sub_cancel, List.take_left']
    rfl
  unfold LayerNormPlan.ofInput
  rw [if_neg hempty, LayerNormPlan.checkParam_eq_ok.2 hweight,
    LayerNormPlan.checkParam_eq_ok.2 hbias, hends, htake]
  rfl

/-- Parameters of the shape of a row are read row by row. -/
theorem stretchedBy_row [Zero α] (leading : List Nat) {param : Option (Tensor α)}
    (h : ∀ t, param = some t → t.dims = row) :
    ∀ t, param = some t → t.StretchedBy (leading ++ row) fun k => k % volume row := by
  intro t ht
  have hdims := h t ht
  subst hdims
  exact t.stretchedBy_suffix leading

end

section
variable {leading row : List Nat} {input : Tensor ℝ} {weight bias : Option (Tensor ℝ)}

/-- **A layer-norm call returns and records what a block normalization by rows
does.** -/
theorem LayerNormContext.forward_ok (ex : Executor) (registry : Registry ℝ ℝ) (enabled : Bool)
    (eps : ℝ) (hdims : input.dims = leading ++ row) (hrow : row ≠ [])
    (hweight : ∀ t, weight = some t → t.dims = row)
    (hbias : ∀ t, bias = some t → t.dims = row) :
    ∃ output s,
      (LayerNormContext.forward ex registry enabled input row weight bias eps).result
        = .ok (output, ⟨⟨leading, row⟩, s⟩)
      ∧ BlockForward (LayerNormPlan.toBlocks ⟨leading, row⟩) (leading ++ row) (volume leading)
          (volume row) (fun k => k % volume row) row eps input weight bias output s := by
  have haddr : Addressable (leading ++ row) := hdims ▸ input.addressable
  have hplan := LayerNormPlan.ofInput_ok hdims hrow hweight hbias
  obtain ⟨folded, forward, normalized, hfold, _, _, hforward, hsaved, hbackend, hunfold, hndims,
    hnelem⟩ := (LayerNormPlan.sound haddr).normalize ex registry enabled hdims eps
  have hswt := stretchedBy_row leading hweight
  obtain ⟨output, houtput, hodims, hoelem⟩ :=
    applyAffine_ok normalized (hndims.symm ▸ hswt)
      (hndims.symm ▸ stretchedBy_row leading hbias)
  refine ⟨output,
    { input, normalized, weight, hasBias := bias.isSome, saved := forward.saved,
      backend := forward.backend, eps }, ?_, rfl, rfl, ?_, ?_, hodims.trans hndims,
    ?_⟩
  · have hlayer : (layerNormForward ex registry enabled input row weight bias eps).result
        = .ok { output, normalized, saved := forward.saved, backend := forward.backend } := by
      unfold layerNormForward
      rw [Logged.result_lift_bind hplan]
      -- one line for each step of the call, in order
      refine (Logged.result_lift_bind hfold).trans ?_
      refine (Logged.result_bind hforward).trans ?_
      refine (Logged.result_lift_bind hunfold).trans ?_
      exact Logged.result_lift_bind houtput
    unfold LayerNormContext.forward
    rw [Logged.result_lift_bind hplan]
    exact Logged.result_bind hlayer
  · refine ⟨hdims, hndims, hnelem, hswt, fun t ht => ?_, hbackend⟩
    have heq : folded = t := Except.ok.inj (hfold.symm.trans ht)
    subst heq
    exact hsaved
  · exact ⟨rfl, rfl, rfl, hweight, hbias⟩
  · intro k hk
    have hk' : k < normalized.numel := by
      unfold Tensor.numel
      rwa [hndims]
    rw [hoelem k hk', hnelem k hk]

end

end ChannelNorm

/-
  ChannelNorm.Proofs.Replay.Gradient
  ──────────────────────────────────
  **THE GRADIENTS OF RECORDED LAYER AND GROUP NORMALIZATION.**

  A recorded call and its backward with the full mask both succeed, and what
  comes back are the partial derivatives of `Σ g · output`: by every input
  element, and by every entry of each parameter that was given.  It takes a
  positive `variance + eps` in every row, or in every block of a sample and a
  group.
-/
import Mathlib
import ChannelNorm.Proofs.Replay.Group
import ChannelNorm.Proofs.Replay.Layer

namespace ChannelNorm

/-! ## §1. Losses. -/

section
variable (ex : Executor) (registry : Registry ℝ ℝ) (enabled : Bool)

/-- The sum of the outputs of a layer-norm call, each times its weight. -/
noncomputable def LayerNormContext.loss (row : List Nat) (eps : ℝ) (g x : Tensor ℝ)
    (w b : Option (Tensor ℝ)) : Except TensorError ℝ := do
  let (output, _) ← (LayerNormContext.forward ex registry enabled x row w b eps).result
  weightedSumLoss output g

/-- The sum of the outputs of a group-norm call, each times its weight. -/
noncomputable def GroupNormContext.loss (groups : Nat) (eps : ℝ) (g x : Tensor ℝ)
    (w b : Option (Tensor ℝ)) : Except TensorError ℝ := do
  let (output, _) ← (GroupNormContext.forward ex registry enabled x groups w b eps).result
  weightedSumLoss output g

end

/-! ## §2. Gradients. -/

section
variable (ex ex' : Executor) (registry registry' : Registry ℝ ℝ) (enabled : Bool)
  {input g : Tensor ℝ} {weight bias : Option (Tensor ℝ)} {eps : ℝ}

/-- The gradients of recorded layer normalization. -/
theorem LayerNormContext.gradients {leading row : List Nat} (hg : g.dims = input.dims)
    (hdims : input.dims = leading ++ row) (hrow : row ≠ [])
    (hweight : ∀ t, weight = some t → t.dims = row) (hbias : ∀ t, bias = some t → t.dims = row)
    (hpos : ∀ r < volume leading, 0 < biasedVariance (input.block (volume row) r) + eps) :
    ∃ output ctx grads,
      (LayerNormContext.forward ex registry enabled input row weight bias eps).result
        = .ok (output, ctx)
      ∧ (ctx.backward ex' registry' g .all).result = .ok grads
      ∧ GradientsOf (LayerNormContext.loss ex registry enabled row eps g) input weight bias
          grads := by
  have haddr : Addressable (leading ++ row) := hdims ▸ input.addressable
  have hvolume : volume [1, volume leading, volume row] = input.numel :=
    (volume_rows leading row).trans (congrArg volume hdims.symm)
  obtain ⟨output, s, hforward, hblock⟩ :=
    LayerNormContext.forward_ok ex registry enabled eps hdims hrow hweight hbias
  -- the loss of any input and parameters of these shapes is that of a block forward
  have hloss : ∀ x w b, x.dims = leading ++ row → (∀ t, w = some t → t.dims = row) →
      (∀ t, b = some t → t.dims = row) →
      ∃ y t, LayerNormContext.loss ex registry enabled row eps g x w b = weightedSumLoss y g
        ∧ BlockForward (LayerNormPlan.toBlocks ⟨leading, row⟩) (leading ++ row) (volume leading)
            (volume row) (fun k => k % volume row) row eps x w b y t := by
    intro x w b hx hw hb
    obtain ⟨y, t, hy, hyblock⟩ :=
      LayerNormContext.forward_ok ex registry enabled eps hx hrow hw hb
    refine ⟨y, t, ?_, hyblock⟩
    unfold LayerNormContext.loss
    rw [hy]
    rfl
  obtain ⟨grads, hback, hgrads⟩ := hblock.gradients (LayerNormPlan.sound haddr)
    (hg.trans hdims) ex' registry'
    (fun r hr => biasedVariance_block hvolume hr ▸ hpos r hr) hloss
  exact ⟨output, _, grads, hforward, hback, hgrads⟩

/-- The gradients of recorded group normalization. -/
theorem GroupNormContext.gradients {N C G : Nat} {spatial : List Nat} (hg : g.dims = input.dims)
    (hdims : input.dims = N :: C :: spatial) (hN : 1 ≤ N) (hC : 1 ≤ C) (hG : G ∣ C)
    (hweight : ∀ t, weight = some t → t.dims = [C]) (hbias : ∀ t, bias = some t → t.dims = [C])
    (hpos : ∀ b < N * G,
      0 < biasedVariance (input.block (C / G * volume spatial) b) + eps) :
    ∃ output ctx grads,
      (GroupNormContext.forward ex registry enabled input G weight bias eps).result
        = .ok (output, ctx)
      ∧ (ctx.backward ex' registry' g .all).result = .ok grads
      ∧ GradientsOf (GroupNormContext.loss ex registry enabled G eps g) input weight bias
          grads := by
  have haddr : Addressable (N :: C :: spatial) := hdims ▸ input.addressable
  have hvolume : volume [1, N * G, C / G * volume spatial] = input.numel :=
    (volume_groups hG).trans (congrArg volume hdims.symm)
  obtain ⟨output, s, hforward, hblock⟩ :=
    GroupNormContext.forward_ok ex registry enabled eps hdims hN hC hG hweight hbias
  -- the loss of any input and parameters of these shapes is that of a block forward
  have hloss : ∀ x w b, x.dims = N :: C :: spatial → (∀ t, w = some t → t.dims = [C]) →
      (∀ t, b = some t → t.dims = [C]) →
      ∃ y t, GroupNormContext.loss ex registry enabled G eps g x w b = weightedSumLoss y g
        ∧ BlockForward (GroupNormPlan.toBlocks ⟨N, C, spatial, G⟩) (N :: C :: spatial) (N * G)
            (C / G * volume spatial) (channelOf (N :: C :: spatial)) [C] eps x w b y t := by
    intro x w b hx hw hb
    obtain ⟨y, t, hy, hyblock⟩ :=
      GroupNormContext.forward_ok ex registry enabled eps hx hN hC hG hw hb
    refine ⟨y, t, ?_, hyblock⟩
    unfold GroupNormContext.loss
    rw [hy]
    rfl
  obtain ⟨grads, hback, hgrads⟩ := hblock.gradients (GroupNormPlan.sound haddr hN hC hG)
    (hg.trans hdims) ex' registry'
    (fun b hb => biasedVariance_block hvolume hb ▸ hpos b hb) hloss
  exact ⟨output, _, grads, hforward, hback, hgrads⟩

end

/-- **The gradients of normalizations whose affine part comes last are
derivatives.**  For layer normalization over any trailing dimensions, and for
group normalization with any number of groups that divides the channels, the
recorded call and its backward succeed, the input gradient and the gradient of
every given parameter are partial derivatives, and a missing parameter has no
gradient. -/
theorem blockNorm_gradients (ex ex' : Executor) (registry registry' : Registry ℝ ℝ)
    (enabled : Bool) (input g : Tensor ℝ) (weight bias : Option (Tensor ℝ)) (eps : ℝ)
    (hg : g.dims = input.dims) :
    (∀ leading row : List Nat, input.dims = leading ++ row → row ≠ [] →
      (∀ t, weight = some t → t.dims = row) → (∀ t, bias = some t → t.dims = row) →
      (∀ r < volume leading, 0 < biasedVariance (input.block (volume row) r) + eps) →
      ∃ output ctx grads,
        (LayerNormContext.forward ex registry enabled input row weight bias eps).result
          = .ok (output, ctx)
        ∧ (ctx.backward ex' registry' g .all).result = .ok grads
        ∧ GradientsOf (LayerNormContext.loss ex registry enabled row eps g) input weight bias
            grads)
    ∧ ∀ (N C G : Nat) (spatial : List Nat), input.dims = N :: C :: spatial → 1 ≤ N → 1 ≤ C →
      G ∣ C → (∀ t, weight = some t → t.dims = [C]) → (∀ t, bias = some t → t.dims = [C]) →
      (∀ b < N * G, 0 < biasedVariance (input.block (C / G * volume spatial) b) + eps) →
      ∃ output ctx grads,
        (GroupNormContext.forward ex registry enabled input G weight bias eps).result
          = .ok (output, ctx)
        ∧ (ctx.backward ex' registry' g .all).result = .ok grads
        ∧ GradientsOf (GroupNormContext.loss ex registry enabled G eps g) input weight bias
            grads := by
  constructor
  · intro leading row hdims hrow hweight hbias hpos
    exact LayerNormContext.gradients ex ex' registry registry' enabled hg hdims hrow hweight
      hbias hpos
  · intro N C G spatial hdims hN hC hG hweight hbias hpos
    exact GroupNormContext.gradients ex ex' registry registry' enabled hg hdims hN hC hG
      hweight hbias hpos

theorem blockNorm_gradients_sample :
    sampleBatch.dims = [2] ++ [2] ∧ (samplePair 2 3).dims = [2]
      ∧ (∃ output ctx grads,
          (LayerNormContext.forward ⟨.standard, 4⟩ ⟨none, none⟩ true sampleBatch [2]
            (some (samplePair 2 3)) none (1 : ℝ)).result = .ok (output, ctx)
          ∧ (ctx.backward ⟨.standard, 1⟩ ⟨none, none⟩ sampleBatch .all).result = .ok grads
          ∧ GradientsOf
              (LayerNormContext.loss ⟨.standard, 4⟩ ⟨none, none⟩ true [2] 1 sampleBatch)
              sampleBatch (some (samplePair 2 3)) none grads)
      ∧ ∃ output ctx grads,
          (GroupNormContext.forward ⟨.standard, 4⟩ ⟨none, none⟩ true sampleBatch 1
            (some (samplePair 2 3)) none (1 : ℝ)).result = .ok (output, ctx)
          ∧ (ctx.backward ⟨.standard, 1⟩ ⟨none, none⟩ sampleBatch .all).result = .ok grads
          ∧ GradientsOf
              (GroupNormContext.loss ⟨.standard, 4⟩ ⟨none, none⟩ true 1 1 sampleBatch)
              sampleBatch (some (samplePair 2 3)) none grads := by
  have hdims : sampleBatch.dims = [2] ++ [2] := rfl
  have hweight : ∀ t, some (samplePair 2 3) = some t → t.dims = [2] := by
    rintro t ⟨⟩
    rfl
  have hbias : ∀ t, (none : Option (Tensor ℝ)) = some t → t.dims = [2] := by
    rintro t ⟨⟩
  have hpos : ∀ xs : List ℝ, 0 < biasedVariance xs + 1 := fun xs =>
    add_pos_of_nonneg_of_pos (biasedVariance_nonneg xs) one_pos
  have h := blockNorm_gradients ⟨.standard, 4⟩ ⟨.standard, 1⟩ ⟨none, none⟩ ⟨none, none⟩ true
    sampleBatch sampleBatch (some (samplePair 2 3)) none 1 rfl
  refine ⟨hdims, rfl, ?_, ?_⟩
  · exact h.1 [2] [2] hdims (List.cons_ne_nil _ _) hweight hbias fun r _ => hpos _
  · exact h.2 2 2 1 [] hdims (by decide) (by decide) (one_dvd 2) hweight hbias fun b _ => hpos _

end ChannelNorm

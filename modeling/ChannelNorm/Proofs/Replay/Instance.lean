/-
  ChannelNorm.Proofs.Replay.Instance
  ──────────────────────────────────
  **INSTANCE NORMALIZATION AS ITS FOLDED CALL.**

  An instance-norm call is the batch-norm call its plan folds it to, so its
  output and its gradients are those of the folded call, read through the plan:

      output   =  unfold (folded output)
      input    =  unfold (folded input gradient)
      weight   =  Σ over the samples of the folded weight gradient
      bias     =  Σ over the samples of the folded bias gradient

  In evaluation mode the context keeps the statistics as they are after they
  were written back; over the reals the average of equal copies is the copy, so
  they are the ones the forward call normalized with.
-/
import Mathlib
import ChannelNorm.Proofs.Backend.Selection
import ChannelNorm.Proofs.BatchNorm.Outcome
import ChannelNorm.Proofs.Replay.Group
import ChannelNorm.Proofs.Replay.Tile
import ChannelNorm.Replay.Instance

namespace ChannelNorm

open Finset Function

/-! ## §1. The folded call. -/

namespace InstanceNormPlan

section
variable {α A : Type} {p : InstanceNormPlan} {args folded : ForwardArgs α A}
  {running tiled : ChannelStats α}

/-- The call that a plan folds a call to. -/
structure FoldsTo (p : InstanceNormPlan) (args : ForwardArgs α A) (running : ChannelStats α)
    (folded : ForwardArgs α A) (tiled : ChannelStats α) : Prop where
  input : p.fold args.input = .ok folded.input
  weight : p.repeatParam args.weight = .ok folded.weight
  bias : p.repeatParam args.bias = .ok folded.bias
  mean : p.repeatParam running.mean = .ok tiled.mean
  var : p.repeatParam running.var = .ok tiled.var
  training : folded.training = args.training
  momentum : folded.momentum = args.momentum
  eps : folded.eps = args.eps

theorem foldCall_eq_ok [OrderedArith A] [Element α A] :
    p.foldCall args running = .ok (folded, tiled) ↔ p.FoldsTo args running folded tiled := by
  unfold foldCall
  simp only [bind_eq_ok]
  constructor
  · rintro ⟨weight, hweight, bias, hbias, mean, hmean, var, hvar, input, hinput, ⟨⟩⟩
    exact ⟨hinput, hweight, hbias, hmean, hvar, rfl, rfl, rfl⟩
  · intro h
    refine ⟨_, h.weight, _, h.bias, _, h.mean, _, h.var, _, h.input, ?_⟩
    rw [← h.training, ← h.momentum, ← h.eps]
    rfl

theorem rank_of_dims {t : Tensor α} (h : t.dims = p.inputDims) : 2 ≤ t.rank :=
  Tensor.two_le_rank h

theorem channels_of_dims {t : Tensor α} (h : t.dims = p.inputDims) : t.channels = p.channels :=
  Tensor.channels_of_cons h

/-- A plan made for elements is made for samples. -/
theorem batch_pos {t : Tensor α} (h : t.dims = p.inputDims) (hnonempty : 0 < t.numel) :
    0 < p.batch := by
  rw [Tensor.numel, h] at hnonempty
  exact Nat.pos_of_mul_pos_right hnonempty

/-- Folding takes an input of the shape the plan was made for. -/
theorem fold_ok {t : Tensor α} (h : t.dims = p.inputDims) :
    ∃ r, p.fold t = .ok r ∧ r.dims = p.foldedDims ∧ r.toList = t.toList := by
  refine t.reshape_ok ?_ p.addressable_foldedDims
  rw [p.volume_foldedDims, Tensor.numel, h]

theorem unfold_ok {t : Tensor α} (h : t.dims = p.foldedDims) :
    ∃ r, p.unfold t = .ok r ∧ r.dims = p.inputDims ∧ r.toList = t.toList := by
  refine t.reshape_ok ?_ p.addressable
  show volume p.inputDims = t.numel
  rw [← p.volume_foldedDims, Tensor.numel, h]

/-- An input has one plan. -/
theorem ofInput_ok {t : Tensor α} (h : t.dims = p.inputDims) : ofInput t = .ok p := by
  unfold ofInput
  split
  next batch channels spatial hdims =>
    obtain ⟨_, _, _, _⟩ := p
    cases hdims.symm.trans h
    rfl
  next hdims => exact absurd h (hdims _ _ _)

theorem dims_of_ofInput {t : Tensor α} (h : ofInput t = .ok p) : t.dims = p.inputDims := by
  unfold ofInput at h
  split at h
  next hdims =>
    cases h
    exact hdims
  next => cases h

/-- A call can be folded if everything it is supplied with can be tiled. -/
theorem exists_foldsTo_of_repeatParam (hdims : args.input.dims = p.inputDims)
    (hweight : ∃ t, p.repeatParam args.weight = .ok t)
    (hbias : ∃ t, p.repeatParam args.bias = .ok t)
    (hmean : ∃ t, p.repeatParam running.mean = .ok t)
    (hvar : ∃ t, p.repeatParam running.var = .ok t) :
    ∃ folded tiled, p.FoldsTo args running folded tiled := by
  obtain ⟨input, hinput, _⟩ := fold_ok hdims
  obtain ⟨weight, hweight⟩ := hweight
  obtain ⟨bias, hbias⟩ := hbias
  obtain ⟨mean, hmean⟩ := hmean
  obtain ⟨var, hvar⟩ := hvar
  exact ⟨{ args with input, weight, bias }, ⟨mean, var⟩,
    ⟨hinput, hweight, hbias, hmean, hvar, rfl, rfl, rfl⟩⟩

/-- A call with parameters of one value per channel can be folded. -/
theorem exists_foldsTo (h : args.Accepted running) (hdims : args.input.dims = p.inputDims) :
    ∃ folded tiled, p.FoldsTo args running folded tiled := by
  have hchannels := channels_of_dims hdims
  exact exists_foldsTo_of_repeatParam hdims (repeatParam_ok (hchannels ▸ h.weight))
    (repeatParam_ok (hchannels ▸ h.bias)) (repeatParam_ok (hchannels ▸ h.mean))
    (repeatParam_ok (hchannels ▸ h.var))

namespace FoldsTo

variable (hf : p.FoldsTo args running folded tiled)
include hf

theorem dims : folded.input.dims = p.foldedDims :=
  Tensor.dims_reshape hf.input

theorem numel (hdims : args.input.dims = p.inputDims) :
    folded.input.numel = args.input.numel := by
  unfold Tensor.numel
  rw [hf.dims, hdims, p.volume_foldedDims]

/-- A folded gradient has the shape of the folded input. -/
theorem dims_fold {g foldedGrad : Tensor α} (hfold : p.fold g = .ok foldedGrad) :
    foldedGrad.dims = folded.input.dims :=
  (Tensor.dims_reshape hfold).trans hf.dims.symm

theorem rank : 2 ≤ folded.input.rank :=
  Tensor.two_le_rank hf.dims

theorem channels : folded.input.channels = p.batch * p.channels :=
  Tensor.channels_of_cons hf.dims

theorem elem [Zero α] : folded.input.elem = args.input.elem :=
  Tensor.elem_of_toList_eq (Tensor.toList_reshape hf.input)

/-- An accepted call folds to an accepted one. -/
theorem accepted [Zero α] (h : args.Accepted running) (hdims : args.input.dims = p.inputDims) :
    folded.Accepted tiled := by
  have hchannels := channels_of_dims hdims
  have hmean := repeatParam_tiled (hchannels ▸ h.mean) hf.mean
  have hvar := repeatParam_tiled (hchannels ▸ h.var) hf.var
  refine ⟨hf.rank, ?_, ?_, ?_, ?_, ?_⟩
  · exact hf.channels ▸ (repeatParam_tiled (hchannels ▸ h.weight) hf.weight).onePerChannel
  · exact hf.channels ▸ (repeatParam_tiled (hchannels ▸ h.bias) hf.bias).onePerChannel
  · exact hf.channels ▸ hmean.onePerChannel
  · exact hf.channels ▸ hvar.onePerChannel
  · intro ht
    rw [hmean.isSome, hvar.isSome]
    exact h.statistics (hf.training ▸ ht)

/-- Only an accepted call folds to an accepted one. -/
theorem accepted_of_folded (hdims : args.input.dims = p.inputDims) (hbatch : 0 < p.batch)
    (h : folded.Accepted tiled)
    (hstatistics : args.training = false →
      running.mean.isSome = true ∧ running.var.isSome = true) :
    args.Accepted running := by
  refine ⟨rank_of_dims hdims, ?_, ?_, ?_, ?_, hstatistics⟩
  all_goals rw [channels_of_dims hdims]
  · exact onePerChannel_of_repeatParam hbatch hf.weight (hf.channels ▸ h.weight)
  · exact onePerChannel_of_repeatParam hbatch hf.bias (hf.channels ▸ h.bias)
  · exact onePerChannel_of_repeatParam hbatch hf.mean (hf.channels ▸ h.mean)
  · exact onePerChannel_of_repeatParam hbatch hf.var (hf.channels ▸ h.var)

end FoldsTo

end

end InstanceNormPlan

/-! ## §2. The forward call. -/

/-- What is kept of a forward call whose folded call ran natively. -/
noncomputable def InstanceNormContext.ofFolded (p : InstanceNormPlan) (folded : ForwardArgs ℝ ℝ)
    (kept : ChannelStats ℝ) : InstanceNormContext ℝ ℝ where
  plan := p
  foldedInput := folded.input
  weightTiled := folded.weight
  runningTiled := kept
  saved := folded.saved
  backend := .native
  training := folded.training
  eps := folded.eps

section
variable {p : InstanceNormPlan} {args folded : ForwardArgs ℝ ℝ} {running tiled : ChannelStats ℝ}

/-- The statistics an accepted folded call leaves can be written back, and tiled
again.  In evaluation mode they are tiled to what they were. -/
theorem InstanceNormPlan.FoldsTo.writeBack_ok (hf : p.FoldsTo args running folded tiled)
    (ex : Executor) (h : args.Accepted running) (hdims : args.input.dims = p.inputDims)
    (hbatch : 0 < p.batch) :
    ∃ mean var kept,
      p.writeBack running.mean (nativeBatchNorm ex folded tiled).running.mean = .ok mean
      ∧ p.writeBack running.var (nativeBatchNorm ex folded tiled).running.var = .ok var
      ∧ p.repeatParam mean = .ok kept.mean ∧ p.repeatParam var = .ok kept.var
      ∧ (args.training = false → kept = tiled) := by
  have hchannels := InstanceNormPlan.channels_of_dims hdims
  have hmean : OnePerChannel p.channels running.mean := hchannels ▸ h.mean
  have hvar : OnePerChannel p.channels running.var := hchannels ▸ h.var
  have hfolded := hf.accepted h hdims
  cases ht : args.training with
  | true =>
      have hleft := onePerChannel_nativeBatchNorm ex hfolded (hf.training.trans ht)
      rw [hf.channels] at hleft
      obtain ⟨mean, hwmean, hcmean⟩ := InstanceNormPlan.writeBack_ok hmean hleft.1
      obtain ⟨var, hwvar, hcvar⟩ := InstanceNormPlan.writeBack_ok hvar hleft.2
      obtain ⟨keptMean, hkmean⟩ := InstanceNormPlan.repeatParam_ok hcmean
      obtain ⟨keptVar, hkvar⟩ := InstanceNormPlan.repeatParam_ok hcvar
      exact ⟨mean, var, ⟨keptMean, keptVar⟩, hwmean, hwvar, hkmean, hkvar, nofun⟩
  | false =>
      -- nothing was folded in, so the averages are the caller's own values
      obtain ⟨_, _, _, hleft⟩ := ForwardArgs.nativeBatchNorm_ok ex hfolded
      rw [hleft (hf.training.trans ht)]
      obtain ⟨mean, hwmean, hamean⟩ := InstanceNormPlan.writeBack_tiled hbatch hmean
        (InstanceNormPlan.repeatParam_tiled hmean hf.mean)
      obtain ⟨var, hwvar, havar⟩ := InstanceNormPlan.writeBack_tiled hbatch hvar
        (InstanceNormPlan.repeatParam_tiled hvar hf.var)
      refine ⟨mean, var, tiled, hwmean, hwvar, ?_, ?_, fun _ => rfl⟩
      · rw [InstanceNormPlan.repeatParam_alike hamean]
        exact hf.mean
      · rw [InstanceNormPlan.repeatParam_alike havar]
        exact hf.var

/-- **A recorded call is its folded call.**  It succeeds, its output weighs what
the folded output weighs, and it keeps the folded call. -/
theorem InstanceNormContext.forward_ok (hf : p.FoldsTo args running folded tiled)
    (ex : Executor) (h : args.Accepted running) (hdims : args.input.dims = p.inputDims)
    (hbatch : 0 < p.batch) :
    ∃ output kept,
      (InstanceNormContext.forward ex .empty false args running).result
        = .ok (output, .ofFolded p folded kept)
      ∧ (args.training = false → kept = tiled)
      ∧ ∀ g foldedGrad : Tensor ℝ, g.dims = args.input.dims → p.fold g = .ok foldedGrad →
          weightedSumLoss output g = folded.loss ex tiled foldedGrad := by
  have hfolded := hf.accepted h hdims
  obtain ⟨mean, var, kept, hmean, hvar, hkmean, hkvar, hkept⟩ :=
    hf.writeBack_ok ex h hdims hbatch
  obtain ⟨out, hout, hodims, _⟩ := ForwardArgs.nativeBatchNorm_ok ex hfolded
  obtain ⟨output, hunfold, hudims, hulist⟩ :=
    InstanceNormPlan.unfold_ok (hodims.trans hf.dims)
  -- nothing is installed, so the folded call runs natively
  obtain ⟨_, hrunning, forward, hnative, hcall⟩ :=
    batchNormForward_ran ex .empty false folded tiled hfolded
  rw [hout] at hnative
  cases hnative
  have hfinish : p.finish running (batchNormForward ex .empty false folded tiled)
      = { result := .ok { output, saved := folded.saved, backend := .native }
          events := (batchNormForward ex .empty false folded tiled).events
          running := { mean, var } } := by
    unfold InstanceNormPlan.finish
    rw [hcall, hrunning]
    dsimp only
    rw [hmean]
    dsimp only
    rw [hvar]
    dsimp only
    rw [hunfold]
    rfl
  have hstatistics : ¬ (!args.training && (running.mean.isNone || running.var.isNone)) = true := by
    cases ht : args.training with
    | true => exact nofun
    | false =>
        obtain ⟨hsm, hsv⟩ := h.statistics ht
        rw [Option.isNone_eq_false_iff.2 hsm, Option.isNone_eq_false_iff.2 hsv]
        exact nofun
  have hplan := InstanceNormPlan.ofInput_ok hdims
  have hforward : instanceNormForward ex .empty false args running
      = p.finish running (batchNormForward ex .empty false folded tiled) := by
    unfold instanceNormForward
    rw [if_neg hstatistics, hplan]
    dsimp only
    rw [InstanceNormPlan.foldCall_eq_ok.2 hf]
  refine ⟨output, kept, ?_, hkept, ?_⟩
  · unfold InstanceNormContext.forward
    rw [hplan]
    dsimp only
    rw [hforward, hfinish]
    show InstanceNormContext.capture p args ⟨mean, var⟩ _ = _
    unfold InstanceNormContext.capture
    rw [hf.input, hf.weight, hkmean, hkvar]
    unfold InstanceNormContext.ofFolded
    rw [hf.training, hf.eps]
    rfl
  · intro g foldedGrad hg hfold
    -- folding changes neither the elements nor how many there are
    have hgdims : foldedGrad.dims = out.dims := (hf.dims_fold hfold).trans hodims.symm
    have hnumel : output.numel = out.numel := by
      unfold Tensor.numel
      rw [hudims, hodims, hf.dims, p.volume_foldedDims]
    unfold ForwardArgs.loss
    rw [hout]
    show _ = weightedSumLoss out foldedGrad
    rw [weightedSumLoss_eq (hudims.trans (hdims.symm.trans hg.symm)),
      weightedSumLoss_eq hgdims.symm, hnumel, Tensor.elem_of_toList_eq hulist,
      Tensor.elem_of_toList_eq (Tensor.toList_reshape hfold)]

end

/-! ## §3. The backward call. -/

section
variable {α A : Type}

/-- What is dropped before an operation may as well be dropped after it. -/
theorem Tensor.mapOptional_filter {f : Tensor α → Except TensorError (Tensor α)}
    {o r : Option (Tensor α)} (h : Tensor.mapOptional f o = .ok r) (keep : Bool) :
    Tensor.mapOptional f (o.filter fun _ => keep) = .ok (r.filter fun _ => keep) := by
  cases keep with
  | false => cases o <;> cases r <;> rfl
  | true =>
      have hkept : ∀ x : Option (Tensor α), (x.filter fun _ => true) = x :=
        fun x => by cases x <;> rfl
      rw [hkept, hkept, h]

variable [OrderedArith A] [Element α A] {p : InstanceNormPlan}

/-- Gradients in the caller's shapes, where all three were computed. -/
theorem InstanceNormContext.unfoldGradients_ok {x w b dx dw db : Tensor α}
    (hx : p.unfold x = .ok dx) (hw : p.sumParam w = .ok dw) (hb : p.sumParam b = .ok db) :
    unfoldGradients p ⟨some x, some w, some b⟩ = .ok ⟨some dx, some dw, some db⟩ := by
  unfold unfoldGradients Tensor.mapOptional
  dsimp only
  rw [hx, hw, hb]
  rfl

/-- Gradients in the caller's shapes are masked as the folded ones are. -/
theorem InstanceNormContext.unfoldGradients_masked {g r : Gradients α}
    (h : unfoldGradients p g = .ok r) (mask : GradMask) :
    unfoldGradients p (g.masked mask) = .ok (r.masked mask) := by
  unfold unfoldGradients at h ⊢
  obtain ⟨input, hinput, h⟩ := bind_eq_ok.1 h
  obtain ⟨weight, hweight, h⟩ := bind_eq_ok.1 h
  obtain ⟨bias, hbias, h⟩ := bind_eq_ok.1 h
  obtain rfl : ⟨input, weight, bias⟩ = r := Except.ok.inj h
  unfold Gradients.masked
  dsimp only
  rw [Tensor.mapOptional_filter hinput, Tensor.mapOptional_filter hweight,
    Tensor.mapOptional_filter hbias]
  rfl

end

section
variable {p : InstanceNormPlan} {args folded : ForwardArgs ℝ ℝ}
  {running tiled kept : ChannelStats ℝ} {g foldedGrad : Tensor ℝ}

/-- The folded backward call answers the folded forward call, whatever it is
asked for. -/
theorem InstanceNormContext.foldedBackward_ok (ex : Executor) (h : folded.Accepted tiled)
    (hg : foldedGrad.dims = folded.input.dims) (hkept : folded.training = false → kept = tiled)
    (mask : GradMask) :
    nativeBatchNormBackward ex ((ofFolded p folded kept).backwardArgs foldedGrad mask)
      = .ok ((folded.backward folded.saved kept foldedGrad).gradients.masked mask) := by
  -- the mask apart, it is the backward call of the folded forward call
  have hback : (folded.backward folded.saved kept foldedGrad).Accepted :=
    ForwardArgs.accepted_backward h hg hkept
  have hmasked : ((ofFolded p folded kept).backwardArgs foldedGrad mask).Accepted :=
    ⟨hback.rank, hback.gradient, hback.weight, hback.mean, hback.var, hback.hasMean, hback.hasVar⟩
  exact nativeBatchNormBackward_ok ex hmasked

/-- **The backward of a recorded call**: the folded gradients in the caller's
shapes, those of the parameters summed over the samples. -/
theorem InstanceNormContext.backward_ok (ex : Executor) (registry : Registry ℝ ℝ)
    (hf : p.FoldsTo args running folded tiled) (h : folded.Accepted tiled)
    (hfold : p.fold g = .ok foldedGrad) (hkept : folded.training = false → kept = tiled) :
    let ctx := ofFolded p folded kept
    let back := folded.backward folded.saved kept foldedGrad
    ∃ dx dw db x w b : Tensor ℝ,
      (∀ mask, nativeBatchNormBackward ex (ctx.backwardArgs foldedGrad mask)
        = .ok (Gradients.masked ⟨some x, some w, some b⟩ mask))
      ∧ (∀ mask, (ctx.backward ex registry g mask).result
        = .ok (Gradients.masked ⟨some dx, some dw, some db⟩ mask))
      ∧ dx.dims = p.inputDims ∧ (∀ k < folded.input.numel, dx.elem k = back.inputGradAt k)
      ∧ (∀ j < folded.input.channels,
        w.elem j = back.weightGradAt j ∧ b.elem j = back.biasGradAt j)
      ∧ InstanceNormPlan.SumOverSamples p.batch p.channels w dw
      ∧ InstanceNormPlan.SumOverSamples p.batch p.channels b db := by
  intro ctx back
  have hgdims : foldedGrad.dims = folded.input.dims := hf.dims_fold hfold
  have hcount : ∀ v : Vector ℝ folded.input.channels,
      (folded.input.perChannel v).numel = p.batch * p.channels := fun v =>
    (folded.input.numel_perChannel v).trans hf.channels
  have hfolded : ∀ mask, nativeBatchNormBackward ex (ctx.backwardArgs foldedGrad mask)
      = .ok (back.gradients.masked mask) :=
    InstanceNormContext.foldedBackward_ok ex h hgdims hkept
  obtain ⟨dx, hdx, hxdims, hxlist⟩ := InstanceNormPlan.unfold_ok
    (t := folded.input.withContents ((List.range folded.input.numel).map back.inputGradAt)
      (by simp)) (Tensor.dims_withContents.trans hf.dims)
  obtain ⟨dw, hdw, hwsum⟩ := InstanceNormPlan.sumParam_ok
    (hcount (.ofFn fun c => back.weightGradAt c))
  obtain ⟨db, hdb, hbsum⟩ := InstanceNormPlan.sumParam_ok
    (hcount (.ofFn fun c => back.biasGradAt c))
  refine ⟨dx, dw, db, _, _, _, hfolded, ?_, hxdims, ?_, ?_, hwsum, hbsum⟩
  · intro mask
    unfold InstanceNormContext.backward
    refine (Logged.result_lift_bind hfold).trans ?_
    -- the tag is the native one, so no accelerator answers
    have hreplay : (batchNormBackward ex registry ctx.backend
        (ctx.backwardArgs foldedGrad mask)).result = .ok (back.gradients.masked mask) :=
      hfolded mask
    refine (Logged.result_bind hreplay).trans ?_
    exact InstanceNormContext.unfoldGradients_masked
      (InstanceNormContext.unfoldGradients_ok hdx hdw hdb) mask
  · intro k hk
    rw [Tensor.toList_withContents] at hxlist
    exact Tensor.elem_of_toList_eq_map hxlist hk
  · intro j hj
    exact ⟨folded.input.elem_perChannel_ofFn _ hj, folded.input.elem_perChannel_ofFn _ hj⟩

end

end ChannelNorm

/-
  ChannelNorm.Proofs.Replay.InstanceGradient
  ──────────────────────────────────────────
  **THE GRADIENTS OF RECORDED INSTANCE NORMALIZATION.**

  Each place of an instance-norm call reads the parameters of its channel, and
  is normalized within its own sample and channel.  The folded call computes
  just that, a place reading the copy that belongs to its sample:

      Σ g · output  =  affineSum n channelOf g (plan.normalized …) weight bias

  The derivative by an input element is the folded one; the derivative by an
  entry of a parameter adds up what reaches its copies, one for each sample.
-/
import Mathlib
import ChannelNorm.Proofs.InstanceNorm.Folded

namespace ChannelNorm

open Finset Function

/-! ## §1. The loss. -/

/-- The sum of the outputs of a native instance-norm call, each times its
weight. -/
noncomputable def InstanceNormContext.loss (ex : Executor) (running : ChannelStats ℝ)
    (g : Tensor ℝ) (args : ForwardArgs ℝ ℝ) : Except TensorError ℝ := do
  let (output, _) ← (InstanceNormContext.forward ex .empty false args running).result
  weightedSumLoss output g

/-- The elements of an input as an instance-norm call normalizes them. -/
noncomputable def InstanceNormPlan.normalized (p : InstanceNormPlan) (args : ForwardArgs ℝ ℝ)
    (running : ChannelStats ℝ) (x : ℕ → ℝ) (k : ℕ) : ℝ :=
  let c := channelOf p.inputDims k
  if args.training then normalizedAt p.foldedDims args.eps x k
  else (x k - paramAt running.mean 0 c) * runningInverseStd (paramAt running.var 0 c) args.eps

section
variable {p : InstanceNormPlan} {args folded : ForwardArgs ℝ ℝ} {running tiled : ChannelStats ℝ}
  {g foldedGrad : Tensor ℝ}

/-- A place reads of a tiled parameter what its channel holds. -/
theorem InstanceNormPlan.paramAt_folded {param tiled : Option (Tensor ℝ)} (default : ℝ)
    (hparam : OnePerChannel p.channels param) (hr : p.repeatParam param = .ok tiled) {k : ℕ}
    (hk : k < volume p.foldedDims) :
    paramAt tiled default (channelOf p.foldedDims k)
      = paramAt param default (channelOf p.inputDims k) := by
  have hj : channelOf p.foldedDims k < p.batch * p.channels :=
    channelOf_lt (Nat.le_add_left 2 _) hk
  rw [(repeatParam_tiled hparam hr).reads default _ hj, p.channelOf_foldedDims_mod]

theorem InstanceNormPlan.FoldsTo.normalized_eq (hf : p.FoldsTo args running folded tiled)
    (h : args.Accepted running) (hdims : args.input.dims = p.inputDims) (x : ℕ → ℝ) {k : ℕ}
    (hk : k < volume p.foldedDims) :
    folded.normalized tiled x k = p.normalized args running x k := by
  have hchannels := channels_of_dims hdims
  unfold ForwardArgs.normalized normalized
  dsimp only
  rw [hf.dims, hf.training, hf.eps, paramAt_folded 0 (hchannels ▸ h.mean) hf.mean hk,
    paramAt_folded 0 (hchannels ▸ h.var) hf.var hk]

/-- **A folded call computes what the call does.** -/
theorem InstanceNormPlan.FoldsTo.affineSum_eq (hf : p.FoldsTo args running folded tiled)
    (h : args.Accepted running) (hdims : args.input.dims = p.inputDims) (x g : ℕ → ℝ) :
    affineSum folded.input.numel (channelOf folded.input.dims) g (folded.normalized tiled x)
        (paramAt folded.weight 1) (paramAt folded.bias 0)
      = affineSum args.input.numel (channelOf args.input.dims) g (p.normalized args running x)
        (paramAt args.weight 1) (paramAt args.bias 0) := by
  have hchannels := channels_of_dims hdims
  unfold affineSum
  rw [← hf.numel hdims]
  apply sum_congr rfl
  intro k hk
  have hk : k < volume p.foldedDims := hf.dims ▸ mem_range.1 hk
  rw [hf.normalized_eq h hdims x hk, hf.dims, hdims,
    paramAt_folded 1 (hchannels ▸ h.weight) hf.weight hk,
    paramAt_folded 0 (hchannels ▸ h.bias) hf.bias hk]

/-- **The loss of a call in closed form.** -/
theorem InstanceNormContext.loss_eq (ex : Executor) (h : args.Accepted running)
    (hdims : args.input.dims = p.inputDims) (hbatch : 0 < p.batch)
    (hg : g.dims = args.input.dims) :
    InstanceNormContext.loss ex running g args
      = .ok (affineSum args.input.numel (channelOf args.input.dims) g.elem
          (p.normalized args running args.input.elem) (paramAt args.weight 1)
          (paramAt args.bias 0)) := by
  obtain ⟨folded, tiled, hf⟩ := InstanceNormPlan.exists_foldsTo h hdims
  obtain ⟨foldedGrad, hfold, hgdims, hglist⟩ := InstanceNormPlan.fold_ok (hg.trans hdims)
  obtain ⟨output, kept, hforward, _, hweighs⟩ :=
    InstanceNormContext.forward_ok hf ex h hdims hbatch
  unfold loss
  rw [hforward]
  show weightedSumLoss output g = _
  rw [hweighs g foldedGrad hg hfold,
    ForwardArgs.loss_eq ex (hf.accepted h hdims) (hgdims.trans hf.dims.symm),
    Tensor.elem_of_toList_eq hglist, hf.elem, hf.affineSum_eq h hdims]

/-! ## §2. Folded channels. -/

/-- The channels of a folded input are blocks of the contents. -/
theorem InstanceNormPlan.FoldsTo.spread (hf : p.FoldsTo args running folded tiled)
    (h : args.Accepted running) (hdims : args.input.dims = p.inputDims)
    (hpos : args.training = true → ∀ b < p.batch * p.channels,
      0 < biasedVariance (args.input.block (volume p.spatial) b) + args.eps) :
    folded.Spread := by
  intro ht c hc
  have hvolume : volume [1, p.batch * p.channels, volume p.spatial] = args.input.numel := by
    rw [Tensor.numel, hdims, ← p.volume_foldedDims]
    show 1 * (p.batch * p.channels * (volume p.spatial * 1)) = _
    rw [Nat.mul_one]
    rfl
  have hblock : c < p.batch * p.channels := hf.channels ▸ hc
  have hset : channelSet [1, p.batch * p.channels, volume p.spatial] c
      = channelSet p.foldedDims c := channelSet_planes c
  rw [folded.input.biasedVariance_plane (hf.accepted h hdims).rank hc, hf.dims, hf.elem, hf.eps,
    ← hset, ← biasedVariance_block hvolume hblock]
  exact hpos (hf.training ▸ ht) c hblock

/-- The folded channels of a channel hold its places. -/
theorem InstanceNormPlan.sum_foldedChannels (p : InstanceNormPlan) {c : ℕ} (hc : c < p.channels)
    (f : ℕ → ℝ) :
    ∑ n ∈ range p.batch, ∑ k ∈ channelSet p.foldedDims (n * p.channels + c), f k
      = ∑ k ∈ channelSet p.inputDims c, f k := by
  rw [← sum_samples hc fun j => ∑ k ∈ channelSet p.foldedDims j, f k]
  have hmaps : ∀ k ∈ channelSet p.inputDims c,
      channelOf p.foldedDims k ∈ channelSet [p.batch, p.channels] c := by
    intro k hk
    obtain ⟨hk, hchan⟩ := mem_channelSet.1 hk
    rw [← p.volume_foldedDims] at hk
    refine mem_channelSet.2 ⟨?_, ?_⟩
    · rw [volume_pair]
      exact channelOf_lt (Nat.le_add_left 2 _) hk
    · show channelOf p.foldedDims k / 1 % p.channels = c
      rw [Nat.div_one, p.channelOf_foldedDims_mod, hchan]
  rw [← sum_fiberwise_of_maps_to hmaps]
  apply sum_congr rfl
  intro j hj
  have hmod : j % p.channels = c := by
    have hchan : j / 1 % p.channels = c := (mem_channelSet.1 hj).2
    rwa [Nat.div_one] at hchan
  -- within the channel, the folded channel decides; outside there is none of it
  congr 1
  ext k
  rw [mem_filter, mem_channelSet, mem_channelSet, p.volume_foldedDims]
  constructor
  · rintro ⟨hk, rfl⟩
    exact ⟨⟨hk, by rw [← p.channelOf_foldedDims_mod, hmod]⟩, rfl⟩
  · rintro ⟨⟨hk, _⟩, hchan⟩
    exact ⟨hk, hchan⟩

/-- **Summing is adjoint to tiling.**  What reaches the copies of an entry, each
from the places of its folded channel, is what reaches the entry. -/
theorem InstanceNormPlan.SumOverSamples.elem_eq_sum {tiled summed : Tensor ℝ}
    (h : SumOverSamples p.batch p.channels tiled summed) {f : ℕ → ℝ}
    (hf : ∀ j < p.batch * p.channels, tiled.elem j = ∑ k ∈ channelSet p.foldedDims j, f k) {c : ℕ}
    (hc : c < p.channels) : summed.elem c = ∑ k ∈ channelSet p.inputDims c, f k := by
  rw [h.elem c hc, ← p.sum_foldedChannels hc]
  exact sum_congr rfl fun n hn => hf _ (sample_lt (mem_range.1 hn) hc)

end

/-! ## §3. Derivatives. -/

section
variable {p : InstanceNormPlan} {args folded : ForwardArgs ℝ ℝ}
  {running tiled kept : ChannelStats ℝ} {g foldedGrad : Tensor ℝ}
  (ex : Executor) (hf : p.FoldsTo args running folded tiled) (h : args.Accepted running)
  (hdims : args.input.dims = p.inputDims) (hbatch : 0 < p.batch) (hg : g.dims = args.input.dims)
  (hfold : p.fold g = .ok foldedGrad) (hkept : folded.training = false → kept = tiled)

include hf h hdims hbatch hg hfold hkept

/-- The folded input gradient is the derivative by every input element. -/
theorem InstanceNormContext.isGradient_input (hspread : folded.Spread) {dx : Tensor ℝ}
    (hxdims : dx.dims = p.inputDims)
    (hdx : ∀ k < folded.input.numel,
      dx.elem k = (folded.backward folded.saved kept foldedGrad).inputGradAt k) :
    IsGradient (fun x => InstanceNormContext.loss ex running g { args with input := x })
      args.input dx := by
  have hfolded := hf.accepted h hdims
  have hgdims := hf.dims_fold hfold
  have hgelem : foldedGrad.elem = g.elem := Tensor.elem_of_toList_eq (Tensor.toList_reshape hfold)
  have hnumel := hf.numel hdims
  refine isGradient_of (fun e => affineSum args.input.numel (channelOf args.input.dims) g.elem
    (p.normalized args running e) (paramAt args.weight 1) (paramAt args.bias 0))
    (congrArg volume (hxdims.trans hdims.symm)) ?_ ?_
  · intro x hx
    rw [InstanceNormContext.loss_eq ex (h.withInput hx) (hx.trans hdims) hbatch (hg.trans hx.symm)]
    unfold Tensor.numel
    dsimp only
    rw [hx]
    rfl
  · intro k hk
    rw [hdx k (hnumel ▸ hk)]
    -- the loss is that of the folded call, whose backward is its derivative
    simp only [← hf.affineSum_eq h hdims, ← hgelem, ← hf.elem]
    cases ht : folded.training with
    | true =>
        exact ForwardArgs.hasDerivAt_training hfolded hgdims ht hspread (hnumel ▸ hk)
    | false =>
        exact ForwardArgs.hasDerivAt_evaluation hfolded ht (hkept ht) (hnumel ▸ hk)

/-- What reaches the copies of a weight adds up to the derivative by it. -/
theorem InstanceNormContext.isGradient_weight {w dw : Tensor ℝ}
    (hw : ∀ j < folded.input.channels,
      w.elem j = (folded.backward folded.saved kept foldedGrad).weightGradAt j)
    (hsum : InstanceNormPlan.SumOverSamples p.batch p.channels w dw) :
    IsGradient (fun w => InstanceNormContext.loss ex running g { args with weight := some w })
      (args.input.paramOr args.weight 1) dw := by
  have hchannels := InstanceNormPlan.channels_of_dims hdims
  -- a copy is reached from the places of its folded channel
  have hcopy : ∀ j < p.batch * p.channels,
      w.elem j = ∑ k ∈ channelSet p.foldedDims j,
        p.normalized args running args.input.elem k * g.elem k := by
    intro j hj
    have hj : j < folded.input.channels := hf.channels ▸ hj
    rw [hw j hj,
      ForwardArgs.weightGradAt_eq (hf.accepted h hdims) (hf.dims_fold hfold) hkept hj, hf.dims,
      hf.elem, Tensor.elem_of_toList_eq (Tensor.toList_reshape hfold)]
    apply sum_congr rfl
    intro k hk
    rw [hf.normalized_eq h hdims _ (mem_channelSet.1 hk).1]
  refine ForwardArgs.isGradient_paramOr (fun e => affineSum args.input.numel
    (channelOf args.input.dims) g.elem (p.normalized args running args.input.elem) e
    (paramAt args.bias 0)) h.weight (hchannels ▸ hsum.dims) ?_ ?_
  · intro y hy
    exact InstanceNormContext.loss_eq ex ⟨h.rank, hy, h.bias, h.mean, h.var, h.statistics⟩ hdims
      hbatch hg
  · intro e c hc
    rw [hsum.elem_eq_sum hcopy (hchannels ▸ hc), ← hdims]
    exact hasDerivAt_affineSum_weight c _

/-- What reaches the copies of a bias adds up to the derivative by it. -/
theorem InstanceNormContext.isGradient_bias {b db : Tensor ℝ}
    (hb : ∀ j < folded.input.channels,
      b.elem j = (folded.backward folded.saved kept foldedGrad).biasGradAt j)
    (hsum : InstanceNormPlan.SumOverSamples p.batch p.channels b db) :
    IsGradient (fun b => InstanceNormContext.loss ex running g { args with bias := some b })
      (args.input.paramOr args.bias 0) db := by
  have hchannels := InstanceNormPlan.channels_of_dims hdims
  have hcopy : ∀ j < p.batch * p.channels,
      b.elem j = ∑ k ∈ channelSet p.foldedDims j, g.elem k := by
    intro j hj
    have hj : j < folded.input.channels := hf.channels ▸ hj
    rw [hb j hj,
      ForwardArgs.biasGradAt_eq (hf.accepted h hdims) (hf.dims_fold hfold) hkept hj, hf.dims,
      Tensor.elem_of_toList_eq (Tensor.toList_reshape hfold)]
  refine ForwardArgs.isGradient_paramOr (fun e => affineSum args.input.numel
    (channelOf args.input.dims) g.elem (p.normalized args running args.input.elem)
    (paramAt args.weight 1) e) h.bias (hchannels ▸ hsum.dims) ?_ ?_
  · intro y hy
    exact InstanceNormContext.loss_eq ex ⟨h.rank, h.weight, hy, h.mean, h.var, h.statistics⟩ hdims
      hbatch hg
  · intro e c hc
    rw [hsum.elem_eq_sum hcopy (hchannels ▸ hc), ← hdims]
    exact hasDerivAt_affineSum_bias c _

end

/-! ## §4. Contexts of native calls. -/

section
variable {α A : Type} [OrderedArith A] [Element α A] {ex : Executor} {registry : Registry α A}
  {enabled : Bool} {args : ForwardArgs α A} {running : ChannelStats α}

/-- **A call whose result names the native implementation** had a plan, an
accepted folded call, and the statistics its mode needs, and is what it is
without any accelerator. -/
theorem instanceNormForward_native {forward : Forward α}
    (hok : (instanceNormForward ex registry enabled args running).result = .ok forward)
    (hbackend : forward.backend = .native) :
    ∃ p folded tiled, InstanceNormPlan.ofInput args.input = .ok p
      ∧ p.FoldsTo args running folded tiled ∧ folded.Accepted tiled
      ∧ (args.training = false → running.mean.isSome = true ∧ running.var.isSome = true)
      ∧ instanceNormForward ex registry enabled args running
        = instanceNormForward ex .empty false args running := by
  rcases instanceNormForward_cases ex registry enabled args running with
    ⟨_, e, he⟩ | ⟨hfoldable, p, folded, tiled, hdims, hf, haccepted, hcall⟩
  · rw [he] at hok
    cases hok
  · rw [hcall] at hok
    obtain ⟨returned, hreturned, htag⟩ := InstanceNormPlan.result_finish hok
    have hsame := batchNormForward_eq_of_backend hreturned (htag.trans hbackend)
    refine ⟨p, folded, tiled, InstanceNormPlan.ofInput_ok hdims, hf, haccepted,
      hfoldable.statistics, ?_⟩
    rw [hcall, instanceNormForward_eq_finish ex .empty false hdims hf hfoldable, hsame]

/-- A context that names the native implementation is what it is without any
accelerator. -/
theorem InstanceNormContext.forward_native {output : Tensor α} {ctx : InstanceNormContext α A}
    (hok : (InstanceNormContext.forward ex registry enabled args running).result
      = .ok (output, ctx)) (hnative : ctx.backend = .native) (hnonempty : 0 < args.input.numel) :
    args.Accepted running
      ∧ InstanceNormContext.forward ex registry enabled args running
        = InstanceNormContext.forward ex .empty false args running := by
  obtain ⟨forward, hforward, hbackend, _⟩ := InstanceNormContext.keeps hok
  obtain ⟨p, folded, tiled, hplan, hf, hfolded, hstatistics, hsame⟩ :=
    instanceNormForward_native hforward (hbackend.symm.trans hnative)
  have hdims := InstanceNormPlan.dims_of_ofInput hplan
  have hbatch := InstanceNormPlan.batch_pos hdims hnonempty
  refine ⟨hf.accepted_of_folded hdims hbatch hfolded hstatistics, ?_⟩
  unfold InstanceNormContext.forward
  rw [hplan]
  dsimp only
  rw [hsame]

end

/-! ## §5. The gradients of a context. -/

/-- Spelling out the parameters a call does not have does not change its
loss. -/
theorem InstanceNormContext.loss_paramOr (ex : Executor) {args : ForwardArgs ℝ ℝ}
    {running : ChannelStats ℝ} {p : InstanceNormPlan} {g : Tensor ℝ} (h : args.Accepted running)
    (hdims : args.input.dims = p.inputDims) (hbatch : 0 < p.batch)
    (hg : g.dims = args.input.dims) :
    InstanceNormContext.loss ex running g args.spelledOut
      = InstanceNormContext.loss ex running g args := by
  rw [InstanceNormContext.loss_eq ex h.spelledOut hdims hbatch hg,
    InstanceNormContext.loss_eq ex h hdims hbatch hg]
  exact congrArg Except.ok (args.affineSum_spelledOut h.rank g.elem _)

/-- **The gradients of recorded instance normalization are derivatives.**  Every
context of a call that ran natively on a nonempty input answers any incoming
gradient of the input's shape, in both modes and for any mask, with the partial
derivatives of `Σ g · output` by every input element, channel weight and channel
bias; a missing parameter stands for ones or zeros, as in `loss_paramOr`.  The
parameter gradients are those of the folded call summed over the samples.  In
evaluation mode the context holds the very statistics the folded forward call
normalized with.  In training mode it takes a positive `variance + eps` in every
sample and channel. -/
theorem instanceNorm_gradients (ex ex' : Executor) (registry registry' : Registry ℝ ℝ)
    (enabled : Bool) {args : ForwardArgs ℝ ℝ} {running : ChannelStats ℝ} {output g : Tensor ℝ}
    {ctx : InstanceNormContext ℝ ℝ} {N C : ℕ} {spatial : List ℕ}
    (hok : (InstanceNormContext.forward ex registry enabled args running).result
      = .ok (output, ctx)) (hnative : ctx.backend = .native)
    (hdims : args.input.dims = N :: C :: spatial) (hnonempty : 0 < args.input.numel)
    (hg : g.dims = args.input.dims)
    (hpos : args.training = true → ∀ b < N * C,
      0 < biasedVariance (args.input.block (volume spatial) b) + args.eps) :
    ∃ dx dw db : Tensor ℝ,
      (∀ mask, (ctx.backward ex' registry' g mask).result
        = .ok (Gradients.masked ⟨some dx, some dw, some db⟩ mask))
      ∧ dx.dims = args.input.dims ∧ dw.dims = [C] ∧ db.dims = [C]
      ∧ InstanceNormContext.loss ex running g args = weightedSumLoss output g
      ∧ IsGradient (fun x => InstanceNormContext.loss ex running g { args with input := x })
          args.input dx
      ∧ IsGradient (fun w => InstanceNormContext.loss ex running g { args with weight := some w })
          (args.input.paramOr args.weight 1) dw
      ∧ IsGradient (fun b => InstanceNormContext.loss ex running g { args with bias := some b })
          (args.input.paramOr args.bias 0) db
      ∧ ∃ folded tiled foldedGrad x w b,
          ctx.plan.foldCall args running = .ok (folded, tiled)
          ∧ (args.training = false → ctx.runningTiled = tiled)
          ∧ ctx.plan.fold g = .ok foldedGrad
          ∧ nativeBatchNormBackward ex' (ctx.backwardArgs foldedGrad .all)
            = .ok ⟨some x, some w, some b⟩
          ∧ InstanceNormPlan.SumOverSamples N C w dw
          ∧ InstanceNormPlan.SumOverSamples N C b db := by
  obtain ⟨h, hsame⟩ := InstanceNormContext.forward_native hok hnative hnonempty
  rw [hsame] at hok
  let p : InstanceNormPlan := ⟨N, C, spatial, hdims ▸ args.input.addressable⟩
  have hdims' : args.input.dims = p.inputDims := hdims
  have hbatch : 0 < p.batch := InstanceNormPlan.batch_pos hdims' hnonempty
  obtain ⟨folded, tiled, hf⟩ := InstanceNormPlan.exists_foldsTo h hdims'
  obtain ⟨foldedGrad, hfold, _⟩ := InstanceNormPlan.fold_ok (hg.trans hdims')
  obtain ⟨output', kept, hforward, hkept, _⟩ :=
    InstanceNormContext.forward_ok hf ex h hdims' hbatch
  -- the context is the one the folded call leaves
  rw [hforward] at hok
  cases hok
  have hkept' : folded.training = false → kept = tiled := fun ht => hkept (hf.training ▸ ht)
  obtain ⟨dx, dw, db, x, w, b, hfolded, hback, hxdims, hx, hwb, hwsum, hbsum⟩ :=
    InstanceNormContext.backward_ok ex' registry' hf (hf.accepted h hdims') hfold hkept'
  refine ⟨dx, dw, db, hback, hxdims.trans hdims.symm, hwsum.dims, hbsum.dims, ?_, ?_, ?_, ?_,
    folded, tiled, foldedGrad, x, w, b, InstanceNormPlan.foldCall_eq_ok.2 hf, hkept, hfold,
    hfolded .all, hwsum, hbsum⟩
  · unfold InstanceNormContext.loss
    rw [hforward]
    rfl
  · exact InstanceNormContext.isGradient_input ex hf h hdims' hbatch hg hfold hkept'
      (hf.spread h hdims' hpos) hxdims hx
  · exact InstanceNormContext.isGradient_weight ex hf h hdims' hbatch hg hfold hkept'
      (fun j hj => (hwb j hj).1) hwsum
  · exact InstanceNormContext.isGradient_bias ex hf h hdims' hbatch hg hfold hkept'
      (fun j hj => (hwb j hj).2) hbsum

/-- The sample call has a context in either mode. -/
theorem sampleCall_context (training : Bool) :
    ∃ output ctx,
      (InstanceNormContext.forward ⟨.standard, 4⟩ .empty false (sampleCall training)
        sampleRunning).result = .ok (output, ctx) ∧ ctx.backend = .native := by
  let p : InstanceNormPlan := ⟨2, 2, [], sampleBatch.addressable⟩
  have hdims : (sampleCall training).input.dims = p.inputDims := rfl
  have haccepted := sampleCall_accepted training
  obtain ⟨folded, tiled, hf⟩ := InstanceNormPlan.exists_foldsTo haccepted hdims
  obtain ⟨output, kept, hforward, _⟩ :=
    InstanceNormContext.forward_ok hf ⟨.standard, 4⟩ haccepted hdims (by decide)
  exact ⟨output, _, hforward, rfl⟩

theorem instanceNorm_gradients_sample :
    (∃ output ctx dx dw db,
      (InstanceNormContext.forward ⟨.standard, 4⟩ .empty false (sampleCall true)
          sampleRunning).result = .ok (output, ctx)
        ∧ (ctx.backward ⟨.standard, 1⟩ .empty sampleBatch .all).result
          = .ok ⟨some dx, some dw, some db⟩
        ∧ IsGradient
            (fun x => InstanceNormContext.loss ⟨.standard, 4⟩ sampleRunning sampleBatch
              { sampleCall true with input := x }) sampleBatch dx)
      ∧ ∃ output ctx folded tiled,
        (InstanceNormContext.forward ⟨.standard, 4⟩ .empty false (sampleCall false)
            sampleRunning).result = .ok (output, ctx)
          ∧ ctx.plan.foldCall (sampleCall false) sampleRunning = .ok (folded, tiled)
          ∧ ctx.runningTiled = tiled := by
  have hpos : ∀ xs : List ℝ, 0 < biasedVariance xs + 1 := fun xs =>
    add_pos_of_nonneg_of_pos (biasedVariance_nonneg xs) one_pos
  constructor
  · obtain ⟨output, ctx, hok, hnative⟩ := sampleCall_context true
    obtain ⟨dx, dw, db, hback, _, _, _, _, hx, _⟩ :=
      instanceNorm_gradients ⟨.standard, 4⟩ ⟨.standard, 1⟩ .empty .empty false hok hnative
        (N := 2) (C := 2) rfl (by decide) (g := sampleBatch) rfl fun _ b _ => hpos _
    exact ⟨output, ctx, dx, dw, db, hok, hback .all, hx⟩
  · obtain ⟨output, ctx, hok, hnative⟩ := sampleCall_context false
    obtain ⟨_, _, _, _, _, _, _, _, _, _, _, folded, tiled, _, _, _, _, hfold, hkept, _⟩ :=
      instanceNorm_gradients ⟨.standard, 4⟩ ⟨.standard, 1⟩ .empty .empty false hok hnative
        (N := 2) (C := 2) rfl (by decide) (g := sampleBatch) rfl nofun
    exact ⟨output, ctx, folded, tiled, hok, hfold, hkept rfl⟩

end ChannelNorm

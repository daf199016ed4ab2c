/-
  ChannelNorm.Proofs.BatchNorm.Gradient
  ─────────────────────────────────────
  **THE BACKWARD CALL COMPUTES DERIVATIVES.**

  Over the reals a forward call followed by the backward call on what it saved
  returns, for every input element, channel weight and channel bias, the partial
  derivative of `Σ g · output`.  In training mode the statistics of the batch
  move with the input; in evaluation mode the running statistics stand still.

      input   =  trainingGrad …   or   evaluationGrad …
      weight  =  Σ over the channel of  normalized · g
      bias    =  Σ over the channel of  g
-/
import Mathlib
import ChannelNorm.Proofs.BatchNorm.Backward
import ChannelNorm.Proofs.BatchNorm.Loss

namespace ChannelNorm

open Finset Function

/-! ## §1. The backward call of a forward call. -/

namespace ForwardArgs

/-- The backward call on a forward call: its arguments, what it saved, and the
running statistics it left. -/
def backward (args : ForwardArgs ℝ ℝ) (saved running : ChannelStats ℝ) (g : Tensor ℝ) :
    BackwardArgs ℝ ℝ where
  gradOutput := g
  input := args.input
  weight := args.weight
  running := running
  saved := saved
  training := args.training
  eps := args.eps
  mask := .all

/-- What a call saves: nothing in evaluation mode. -/
noncomputable def saved (args : ForwardArgs ℝ ℝ) : ChannelStats ℝ :=
  if args.training then args.batchStats else .none

/-- An accepted call returns an output and what it saved, and in evaluation
mode leaves the running statistics alone. -/
theorem nativeBatchNorm_ok (ex : Executor) {args : ForwardArgs ℝ ℝ} {running : ChannelStats ℝ}
    (h : args.Accepted running) :
    ∃ output, (nativeBatchNorm ex args running).result
        = .ok { output, saved := args.saved, backend := .native }
      ∧ output.dims = args.input.dims
      ∧ (args.training = false → (nativeBatchNorm ex args running).running = running) := by
  unfold saved
  cases ht : args.training with
  | true =>
      exact ⟨_, nativeBatchNorm_training ex h ht, Tensor.dims_withContents,
        fun hf => absurd hf (by decide)⟩
  | false =>
      obtain ⟨hresult, hrunning⟩ := nativeBatchNorm_evaluation ex h ht
      exact ⟨_, hresult, Tensor.dims_withContents, fun _ => hrunning⟩

section
variable {args : ForwardArgs ℝ ℝ} {running left : ChannelStats ℝ} {g : Tensor ℝ}

/-- In training mode the backward call reads what was saved. -/
theorem statistics_backward_training (ht : args.training = true) :
    (args.backward args.saved left g).statistics = args.batchStats := by
  show (if args.training then args.saved else left) = _
  unfold saved
  rw [ht]
  rfl

/-- In evaluation mode the backward call reads the running statistics. -/
theorem statistics_backward_evaluation (ht : args.training = false) :
    (args.backward args.saved left g).statistics = left := by
  show (if args.training then args.saved else left) = _
  rw [ht]
  rfl

/-- The backward call on an accepted forward call is accepted. -/
theorem accepted_backward (h : args.Accepted running) (hg : g.dims = args.input.dims)
    (hleft : args.training = false → left = running) :
    (args.backward args.saved left g).Accepted := by
  have hper : ∀ v : Vector ℝ args.input.channels,
      OnePerChannel args.input.channels (some (args.input.perChannel v)) := by
    rintro v t ⟨⟩
    exact args.input.numel_perChannel v
  cases ht : args.training with
  | true =>
      refine ⟨h.rank, hg, h.weight, ?_, ?_, ?_, ?_⟩ <;> rw [statistics_backward_training ht]
      · exact hper _
      · exact hper _
      · rfl
      · rfl
  | false =>
      refine ⟨h.rank, hg, h.weight, ?_, ?_, ?_, ?_⟩ <;>
        rw [statistics_backward_evaluation ht, hleft ht]
      · exact h.mean
      · exact h.var
      · exact (h.statistics ht).1
      · exact (h.statistics ht).2

/-- The backward call reads the mean and the scale that the forward call
normalized with. -/
theorem backward_reads (h : args.Accepted running)
    (hleft : args.training = false → left = running) {c : Nat} (hc : c < args.input.channels) :
    let S := channelSet args.input.dims c
    let back := args.backward args.saved left g
    (args.training = true → back.meanAt c = meanOver S args.input.elem
        ∧ back.invstdAt c = invstdOver S args.eps args.input.elem)
      ∧ (args.training = false → back.meanAt c = paramAt running.mean 0 c
        ∧ back.invstdAt c = runningInverseStd (paramAt running.var 0 c) args.eps) := by
  intro S back
  constructor
  · intro ht
    have hstats : back.statistics = args.batchStats := statistics_backward_training ht
    unfold BackwardArgs.meanAt BackwardArgs.invstdAt
    rw [hstats]
    have ht' : back.training = true := ht
    rw [if_pos ht']
    constructor
    · exact (args.input.elem_perChannel_ofFn _ hc).trans
        (args.input.batchMean_eq_meanOver h.rank hc)
    · exact (args.input.elem_perChannel_ofFn _ hc).trans
        (args.input.batchInvstd_eq_invstdOver h.rank hc args.eps)
  · intro ht
    have hstats : back.statistics = running :=
      (statistics_backward_evaluation ht).trans (hleft ht)
    have ht' : back.training = false := ht
    unfold BackwardArgs.meanAt BackwardArgs.invstdAt
    rw [hstats, ht']
    exact ⟨rfl, rfl⟩

/-- Either way the elements are centred on that mean and scaled by that
scale. -/
theorem normalized_eq (h : args.Accepted running)
    (hleft : args.training = false → left = running) {k : ℕ} (hk : k < args.input.numel) :
    let back := args.backward args.saved left g
    let c := channelOf args.input.dims k
    args.normalized running args.input.elem k
      = (args.input.elem k - back.meanAt c) * back.invstdAt c := by
  intro back c
  have hc : c < args.input.channels := channelOf_lt h.rank hk
  obtain ⟨htrain, heval⟩ := backward_reads (g := g) h hleft hc
  cases ht : args.training with
  | true =>
      obtain ⟨hmean, hinvstd⟩ := htrain ht
      rw [normalized_training running ht, hmean, hinvstd]
      rfl
  | false =>
      obtain ⟨hmean, hinvstd⟩ := heval ht
      rw [normalized_evaluation running ht, hmean, hinvstd]

end

end ForwardArgs

/-- The sums of a channel are sums over its places. -/
theorem BackwardArgs.sumsAt_eq {args : BackwardArgs ℝ ℝ} (h : args.Accepted) {c : Nat}
    (hc : c < args.input.channels) :
    args.sumsAt c = gradSumsOver (channelSet args.input.dims c) (args.meanAt c)
      args.input.elem args.gradOutput.elem := by
  rw [sumsAt_eq_ofPairs h hc]
  unfold GradSums.ofPairs gradSumsOver
  rw [List.map_map, List.map_map, sumInOrder_real, sumInOrder_real]
  congr 1
  · exact sum_channelPlaces args.visitOrder h.rank hc _
  · exact sum_channelPlaces args.visitOrder h.rank hc _

/-! ## §2. Derivatives. -/

/-- A weight common to a whole block can be applied before or after the training
gradient is taken. -/
theorem trainingGrad_weighted (n a d mean invstd w x g : ℝ) :
    trainingGrad n ⟨w * a, w * d⟩ mean invstd 1 x (w * g)
      = trainingGrad n ⟨a, d⟩ mean invstd w x g := by
  unfold trainingGrad
  simp only [narrow_real, widen_real]
  ring

/-- The sums of a weighted incoming gradient, the weight being common to the
block. -/
theorem gradSumsOver_weighted {S : Finset ℕ} {p : ℕ → ℕ} {c : ℕ} (hp : ∀ k ∈ S, p k = c)
    (mean : ℝ) (x w g : ℕ → ℝ) :
    gradSumsOver S mean x (fun k => w (p k) * g k)
      = ⟨w c * (gradSumsOver S mean x g).sum, w c * (gradSumsOver S mean x g).dot⟩ := by
  unfold gradSumsOver
  dsimp only
  rw [mul_sum, mul_sum]
  congr 1
  · exact sum_congr rfl fun k hk => by rw [hp k hk]
  · apply sum_congr rfl
    intro k hk
    rw [hp k hk]
    ring

namespace ForwardArgs

section
variable {args : ForwardArgs ℝ ℝ} {running left : ChannelStats ℝ} {g : Tensor ℝ}

theorem hasDerivAt_training (h : args.Accepted running) (hg : g.dims = args.input.dims)
    (ht : args.training = true) (hpos : args.Spread) {k : ℕ} (hk : k < args.input.numel) :
    HasDerivAt
      (fun v => affineSum args.input.numel (channelOf args.input.dims) g.elem
        (args.normalized running (update args.input.elem k v)) (paramAt args.weight 1)
        (paramAt args.bias 0))
      ((args.backward args.saved left g).inputGradAt k) (args.input.elem k) := by
  have hleft : args.training = false → left = running := fun hf => by
    rw [ht] at hf
    exact absurd hf (by decide)
  have hc : channelOf args.input.dims k < args.input.channels := channelOf_lt h.rank hk
  obtain ⟨hmean, hinvstd⟩ := (backward_reads (g := g) h hleft hc).1 ht
  have hvar := hpos ht _ hc
  rw [args.input.biasedVariance_plane h.rank hc] at hvar
  rw [normalized_training running ht]
  refine hasDerivAt_affineSum_elements ?_
  -- the kernel takes its sums unweighted and multiplies by the weight at the end
  refine (hasDerivAt_normalizedSum hk hvar _).congr_deriv ?_
  have hgrad : (args.backward args.saved left g).inputGradAt k = _ := if_pos ht
  have hsums := BackwardArgs.sumsAt_eq (accepted_backward h hg hleft) hc
  rw [hmean] at hsums
  rw [hgrad, gradSumsOver_weighted fun i hi => (mem_channelSet.1 hi).2, trainingGrad_weighted,
    ← args.input.elementsPerChannel_eq_card h.rank hc, ← hmean, ← hinvstd]
  congr 1
  rw [hmean]
  exact hsums.symm

theorem hasDerivAt_evaluation (h : args.Accepted running) (ht : args.training = false)
    (hleft : left = running) {k : ℕ} (hk : k < args.input.numel) :
    HasDerivAt
      (fun v => affineSum args.input.numel (channelOf args.input.dims) g.elem
        (args.normalized running (update args.input.elem k v)) (paramAt args.weight 1)
        (paramAt args.bias 0))
      ((args.backward args.saved left g).inputGradAt k) (args.input.elem k) := by
  have hc : channelOf args.input.dims k < args.input.channels := channelOf_lt h.rank hk
  obtain ⟨_, hinvstd⟩ := (backward_reads (g := g) h (fun _ => hleft) hc).2 ht
  rw [normalized_evaluation running ht]
  refine hasDerivAt_affineSum_elements ?_
  -- every output moves with its own input only
  have hterm := HasDerivAt.fun_sum fun i (_ : i ∈ range args.input.numel) =>
    (((hasDerivAt_update args.input.elem k i (args.input.elem k)).sub_const
      (paramAt running.mean 0 (channelOf args.input.dims i))).mul_const
      (runningInverseStd (paramAt running.var 0 (channelOf args.input.dims i)) args.eps)).mul_const
      (paramAt args.weight 1 (channelOf args.input.dims i) * g.elem i)
  refine hterm.congr_deriv ?_
  simp only [mul_assoc]
  rw [sum_kronecker_mul (mem_range.2 hk)]
  have hgrad : (args.backward args.saved left g).inputGradAt k = _ :=
    if_neg (fun hf => Bool.false_ne_true (ht.symm.trans hf))
  rw [hgrad, ← hinvstd]
  show _ = g.elem k * ((args.backward args.saved left g).invstdAt (channelOf args.input.dims k)
    * paramAt args.weight 1 (channelOf args.input.dims k))
  ring

theorem weightGradAt_eq (h : args.Accepted running) (hg : g.dims = args.input.dims)
    (hleft : args.training = false → left = running) {c : Nat} (hc : c < args.input.channels) :
    (args.backward args.saved left g).weightGradAt c
      = ∑ k ∈ channelSet args.input.dims c,
          args.normalized running args.input.elem k * g.elem k := by
  unfold BackwardArgs.weightGradAt
  rw [BackwardArgs.sumsAt_eq (accepted_backward h hg hleft) hc]
  show (∑ k ∈ channelSet args.input.dims c,
      (args.input.elem k - (args.backward args.saved left g).meanAt c) * g.elem k)
    * (args.backward args.saved left g).invstdAt c = _
  rw [sum_mul]
  apply sum_congr rfl
  intro k hk
  obtain ⟨hk, hchan⟩ := mem_channelSet.1 hk
  rw [normalized_eq (g := g) h hleft hk, hchan]
  ring

theorem biasGradAt_eq (h : args.Accepted running) (hg : g.dims = args.input.dims)
    (hleft : args.training = false → left = running) {c : Nat} (hc : c < args.input.channels) :
    (args.backward args.saved left g).biasGradAt c
      = ∑ k ∈ channelSet args.input.dims c, g.elem k := by
  unfold BackwardArgs.biasGradAt
  rw [BackwardArgs.sumsAt_eq (accepted_backward h hg hleft) hc]
  rfl

end

/-! ## §3. The gradients of a call. -/

section
variable {args : ForwardArgs ℝ ℝ} {running left : ChannelStats ℝ} {g : Tensor ℝ}

theorem isGradient_input (ex : Executor) (h : args.Accepted running)
    (hg : g.dims = args.input.dims) (hspread : args.Spread)
    (hleft : args.training = false → left = running) {dx : Tensor ℝ}
    (hdims : dx.dims = args.input.dims)
    (hdx : ∀ k < args.input.numel, dx.elem k
      = (args.backward args.saved left g).inputGradAt k) :
    IsGradient (fun x => { args with input := x }.loss ex running g) args.input dx := by
  refine isGradient_of (fun e => affineSum args.input.numel (channelOf args.input.dims) g.elem
    (args.normalized running e) (paramAt args.weight 1) (paramAt args.bias 0))
    (congrArg volume hdims) ?_ ?_
  · intro x hx
    rw [loss_eq ex (h.withInput hx) (hg.trans hx.symm)]
    unfold Tensor.numel normalized
    dsimp only
    rw [hx]
  · intro k hk
    rw [hdx k hk]
    cases ht : args.training with
    | true => exact hasDerivAt_training h hg ht hspread hk
    | false => exact hasDerivAt_evaluation h ht (hleft ht) hk

/-- The gradient by a parameter, given or not, from the dependence on its
entries. -/
theorem isGradient_paramOr {loss : Tensor ℝ → Except TensorError ℝ} {input dp : Tensor ℝ}
    {param : Option (Tensor ℝ)} {default : ℝ} (F : (ℕ → ℝ) → ℝ)
    (hparam : OnePerChannel input.channels param) (hdims : dp.dims = [input.channels])
    (hloss : ∀ y : Tensor ℝ, OnePerChannel input.channels (some y) → loss y = .ok (F y.elem))
    (hderiv : ∀ e : ℕ → ℝ, ∀ c < input.channels,
      HasDerivAt (fun v => F (update e c v)) (dp.elem c) (e c)) :
    IsGradient loss (input.paramOr param default) dp := by
  have hnumel := Tensor.numel_paramOr hparam default
  -- one entry for each channel, whether or not the parameter was given
  refine isGradient_of F ?_ (fun y hy => hloss y ?_) ?_
  · rw [hnumel, Tensor.numel_of_dims_singleton hdims]
  · rintro t ⟨⟩
    exact (congrArg volume hy).trans hnumel
  · intro c hc
    rw [hnumel] at hc
    exact hderiv _ c hc

theorem isGradient_weight (ex : Executor) (h : args.Accepted running)
    (hg : g.dims = args.input.dims) (hleft : args.training = false → left = running)
    {dw : Tensor ℝ} (hdims : dw.dims = [args.input.channels])
    (hdw : ∀ c < args.input.channels, dw.elem c
      = (args.backward args.saved left g).weightGradAt c) :
    IsGradient (fun w => { args with weight := some w }.loss ex running g)
      (args.input.paramOr args.weight 1) dw := by
  refine isGradient_paramOr (fun e => affineSum args.input.numel (channelOf args.input.dims)
    g.elem (args.normalized running args.input.elem) e (paramAt args.bias 0)) h.weight hdims ?_ ?_
  · intro w hw
    exact loss_eq ex ⟨h.rank, hw, h.bias, h.mean, h.var, h.statistics⟩ hg
  · intro e c hc
    rw [hdw c hc, weightGradAt_eq h hg hleft hc]
    exact hasDerivAt_affineSum_weight c _

theorem isGradient_bias (ex : Executor) (h : args.Accepted running)
    (hg : g.dims = args.input.dims) (hleft : args.training = false → left = running)
    {db : Tensor ℝ} (hdims : db.dims = [args.input.channels])
    (hdb : ∀ c < args.input.channels, db.elem c
      = (args.backward args.saved left g).biasGradAt c) :
    IsGradient (fun b => { args with bias := some b }.loss ex running g)
      (args.input.paramOr args.bias 0) db := by
  refine isGradient_paramOr (fun e => affineSum args.input.numel (channelOf args.input.dims)
    g.elem (args.normalized running args.input.elem) (paramAt args.weight 1) e) h.bias hdims ?_ ?_
  · intro b hb
    exact loss_eq ex ⟨h.rank, h.weight, hb, h.mean, h.var, h.statistics⟩ hg
  · intro e c hc
    rw [hdb c hc, biasGradAt_eq h hg hleft hc]
    exact hasDerivAt_affineSum_bias c _

end

end ForwardArgs

/-- **The gradients of native batch normalization are derivatives.**  In either
mode an accepted call and the backward call on what it saved both succeed, and
the three gradients are the partial derivatives of `Σ g · output` by every input
element, channel weight and channel bias.  A missing parameter stands for ones or
zeros, as in `loss_paramOr`.  In training mode it takes a positive
`variance + eps` in every channel. -/
theorem nativeBatchNorm_gradients (ex ex' : Executor) {args : ForwardArgs ℝ ℝ}
    {running : ChannelStats ℝ} {g : Tensor ℝ} (h : args.Accepted running)
    (hg : g.dims = args.input.dims) (hspread : args.Spread) :
    ∃ (forward : Forward ℝ) (dx dw db : Tensor ℝ),
      (nativeBatchNorm ex args running).result = .ok forward
      ∧ nativeBatchNormBackward ex'
          (args.backward forward.saved (nativeBatchNorm ex args running).running g)
          = .ok ⟨some dx, some dw, some db⟩
      ∧ dx.dims = args.input.dims ∧ dw.dims = [args.input.channels]
      ∧ db.dims = [args.input.channels]
      ∧ IsGradient (fun x => { args with input := x }.loss ex running g) args.input dx
      ∧ IsGradient (fun w => { args with weight := some w }.loss ex running g)
          (args.input.paramOr args.weight 1) dw
      ∧ IsGradient (fun b => { args with bias := some b }.loss ex running g)
          (args.input.paramOr args.bias 0) db := by
  obtain ⟨output, hresult, _, hleft⟩ := ForwardArgs.nativeBatchNorm_ok ex h
  have haccepted := ForwardArgs.accepted_backward h hg hleft
  refine ⟨_, _, _, _, hresult, nativeBatchNormBackward_ok ex' haccepted,
    Tensor.dims_withContents, args.input.dims_perChannel _, args.input.dims_perChannel _, ?_, ?_,
    ?_⟩
  · apply ForwardArgs.isGradient_input ex h hg hspread hleft Tensor.dims_withContents
    intro k hk
    exact Tensor.elem_of_toList_eq_map Tensor.toList_withContents hk
  · apply ForwardArgs.isGradient_weight ex h hg hleft (args.input.dims_perChannel _)
    intro c hc
    exact args.input.elem_perChannel_ofFn _ hc
  · apply ForwardArgs.isGradient_bias ex h hg hleft (args.input.dims_perChannel _)
    intro c hc
    exact args.input.elem_perChannel_ofFn _ hc

theorem sampleCall_accepted (training : Bool) : (sampleCall training).Accepted sampleRunning := by
  have hrank : 2 ≤ sampleBatch.rank := by decide
  refine ⟨hrank, ?_, ?_, ?_, ?_, fun _ => ⟨rfl, rfl⟩⟩
  all_goals rintro t ⟨⟩
  all_goals rfl

theorem nativeBatchNorm_gradients_sample :
    (sampleCall true).Accepted sampleRunning ∧ sampleBatch.dims = (sampleCall true).input.dims
      ∧ (sampleCall true).Spread
      ∧ ∃ (forward : Forward ℝ) (dx dw db : Tensor ℝ),
          (nativeBatchNorm ⟨.standard, 4⟩ (sampleCall true) sampleRunning).result = .ok forward
          ∧ nativeBatchNormBackward ⟨.standard, 1⟩
              ((sampleCall true).backward forward.saved
                (nativeBatchNorm ⟨.standard, 4⟩ (sampleCall true) sampleRunning).running
                sampleBatch)
              = .ok ⟨some dx, some dw, some db⟩
          ∧ dx.dims = [2, 2] ∧ dw.dims = [2] ∧ db.dims = [2]
          ∧ IsGradient
              (fun x => { sampleCall true with input := x }.loss ⟨.standard, 4⟩ sampleRunning
                sampleBatch) sampleBatch dx := by
  have haccepted := sampleCall_accepted true
  have hdims : sampleBatch.dims = (sampleCall true).input.dims := rfl
  have hspread : (sampleCall true).Spread := ForwardArgs.spread_of_pos one_pos
  obtain ⟨forward, dx, dw, db, hforward, hbackward, hx, hw, hb, hgrad, _, _⟩ :=
    nativeBatchNorm_gradients ⟨.standard, 4⟩ ⟨.standard, 1⟩ haccepted hdims hspread
  exact ⟨haccepted, hdims, hspread, forward, dx, dw, db, hforward, hbackward, hx, hw, hb, hgrad⟩

end ChannelNorm

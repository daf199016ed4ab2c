/-
  ChannelNorm.Proofs.BatchNorm.Isolation
  ──────────────────────────────────────
  **CHANNELS DO NOT LEAK INTO EACH OTHER.**

  Two calls agree on channel `c` when their tensors do, one by one: input and
  incoming gradient in the slice of `c`, parameters and statistics in entry `c`.
  Such calls are refused alike, or return results that agree on `c`:

      forward     slice c of the output, entry c of saved and running statistics
      update      entry c of mean, variance and running statistics
      backward    slice c of the input gradient, entry c of the others

  No law of arithmetic is used: each value of channel `c` is one expression in
  what the call reads of `c`.  A gradient of an evaluation reads even less of its
  call, since only that of the weight looks at the input.
-/
import Mathlib
import ChannelNorm.Proofs.BatchNorm.Backward
import ChannelNorm.Proofs.BatchNorm.Layout
import ChannelNorm.Proofs.BatchNorm.Outcome
import ChannelNorm.Proofs.Tensor.Slice

namespace ChannelNorm

variable {α A : Type}

/-! ## §1. Calls that agree on a channel. -/

/-- Statistics that agree in entry `c`. -/
structure ChannelStats.AgreeAt (c : Nat) (s s' : ChannelStats α) : Prop where
  mean : EntryAgrees c s.mean s'.mean
  var : EntryAgrees c s.var s'.var

/-- Forward calls that agree on channel `c`. -/
structure ForwardArgs.AgreeOn (c : Nat) (args args' : ForwardArgs α A) : Prop where
  input : args.input.AgreeOn c args'.input
  weight : EntryAgrees c args.weight args'.weight
  bias : EntryAgrees c args.bias args'.bias
  training : args.training = args'.training
  momentum : args.momentum = args'.momentum
  eps : args.eps = args'.eps

/-- Results of forward calls that agree on channel `c`. -/
structure Forward.AgreeOn (c : Nat) (f f' : Forward α) : Prop where
  output : f.output.AgreeOn c f'.output
  saved : f.saved.AgreeAt c f'.saved

/-- Backward calls that agree on channel `c`. -/
structure BackwardArgs.AgreeOn (c : Nat) (args args' : BackwardArgs α A) : Prop where
  gradOutput : args.gradOutput.AgreeOn c args'.gradOutput
  input : args.input.AgreeOn c args'.input
  weight : EntryAgrees c args.weight args'.weight
  running : args.running.AgreeAt c args'.running
  saved : args.saved.AgreeAt c args'.saved
  training : args.training = args'.training
  eps : args.eps = args'.eps
  mask : args.mask = args'.mask

/-- Gradients that agree on channel `c`. -/
structure Gradients.AgreeOn (c : Nat) (g g' : Gradients α) : Prop where
  input : Option.Rel (Tensor.AgreeOn c) g.input g'.input
  weight : EntryAgrees c g.weight g'.weight
  bias : EntryAgrees c g.bias g'.bias

section
variable {c : Nat} {args args' : ForwardArgs α A} {running running' : ChannelStats α}

/-- Calls that agree on a channel have the same faults. -/
theorem ForwardArgs.AgreeOn.faults_eq (h : args.AgreeOn c args')
    (hr : running.AgreeAt c running') (operation : String) :
    args.faults operation running = args'.faults operation running' :=
  ForwardArgs.faults_congr h.input.dims h.weight.map_dims h.bias.map_dims hr.mean.map_dims
    hr.var.map_dims h.training operation

/-- Evaluations that agree on a channel run the same kernel. -/
theorem ForwardArgs.AgreeOn.contiguousInference_eq (h : args.AgreeOn c args')
    (hr : running.AgreeAt c running') :
    contiguousInference args running = contiguousInference args' running' := by
  unfold contiguousInference
  rw [h.training, h.input.isContiguous, h.weight.all_isContiguous.1, h.bias.all_isContiguous.1,
    hr.mean.all_isContiguous.2, hr.var.all_isContiguous.2]

end

section
variable {c : Nat} {args args' : BackwardArgs α A}

theorem BackwardArgs.AgreeOn.faults_eq (h : args.AgreeOn c args') (operation : String) :
    args.faults operation = args'.faults operation :=
  BackwardArgs.faults_congr h.gradOutput.dims h.input.dims h.weight.map_dims
    h.running.mean.map_dims h.running.var.map_dims h.saved.mean.map_dims h.saved.var.map_dims
    h.training operation

/-- They read statistics that agree. -/
theorem BackwardArgs.AgreeOn.statistics (h : args.AgreeOn c args') :
    args.statistics.AgreeAt c args'.statistics := by
  unfold BackwardArgs.statistics
  rw [← h.training]
  split
  · exact h.saved
  · exact h.running

/-- And visit the channel in one order. -/
theorem BackwardArgs.AgreeOn.visitOrder (h : args.AgreeOn c args') :
    args.visitOrder = args'.visitOrder := by
  unfold BackwardArgs.visitOrder
  rw [h.input.planeAxes, h.gradOutput.planeAxes]

end

variable [OrderedArith A] [Element α A]

/-! ## §2. Statistics. -/

section
variable {c : Nat} {input input' : Tensor α} (h : input.AgreeOn c input')
  (hrank : 2 ≤ input.rank) (hc : c < input.channels)
include h hrank hc

theorem Tensor.AgreeOn.momentsAt :
    (input.momentsAt c : ChannelMoments α A) = input'.momentsAt c := by
  unfold Tensor.momentsAt
  rw [h.elementsPerChannel]
  exact congrArg _ (h.planeIn hrank .rows hc)

theorem Tensor.AgreeOn.batchMean : (input.batchMean c : α) = input'.batchMean c :=
  congrArg ChannelMoments.mean (h.momentsAt hrank hc)

theorem Tensor.AgreeOn.batchSpread (policy : VarTransform) (eps : A) :
    (input.batchSpread policy eps c : α) = input'.batchSpread policy eps c := by
  unfold Tensor.batchSpread
  rw [h.momentsAt hrank hc, h.elementsPerChannel]

/-- An entry of the running statistics is updated from the moments of its
channel. -/
theorem ChannelStats.AgreeAt.afterBatch {running running' : ChannelStats α}
    (hr : running.AgreeAt c running') (hmean : OnePerChannel input.channels running.mean)
    (hvar : OnePerChannel input.channels running.var) (momentum : A) :
    (running.afterBatch input momentum).AgreeAt c (running'.afterBatch input' momentum) := by
  have hmoments : (List.ofFn fun c : Fin input.channels =>
        (input.momentsAt c : ChannelMoments α A))[c]?
      = (List.ofFn fun c : Fin input'.channels => input'.momentsAt c)[c]? := by
    rw [List.getElem?_ofFn, List.getElem?_ofFn, dif_pos hc, dif_pos (h.channels ▸ hc)]
    exact congrArg some (h.momentsAt hrank hc)
  have hwrite : ∀ {p q : Option (Tensor α)} (blend : ChannelMoments α A → α → α),
      EntryAgrees c p q → OnePerChannel input.channels p →
      EntryAgrees c
        (p.map fun t => t.overwrite (List.zipWith blend
          (List.ofFn fun c : Fin input.channels => input.momentsAt c) t.toList))
        (q.map fun t => t.overwrite (List.zipWith blend
          (List.ofFn fun c : Fin input'.channels => input'.momentsAt c) t.toList)) := by
    intro p q blend hpq hp
    cases hpq with
    | none => exact .none
    | @some t u htu =>
        have hnumel := hp t rfl
        refine .some (htu.overwrite ?_ ?_ hmoments)
        · rw [List.length_ofFn, hnumel]
        · rw [List.length_ofFn, hnumel, h.channels]
  unfold ChannelStats.afterBatch ChannelStats.blend
  rw [Vector.toList_ofFn, Vector.toList_ofFn, h.elementsPerChannel]
  exact ⟨hwrite _ hr.mean hmean, hwrite _ hr.var hvar⟩

end

/-- What an update returns. -/
structure UpdatedAgree (c : Nat) (s s' : Tensor α × Tensor α) : Prop where
  mean : s.1.AgreeAt c s'.1
  var : s.2.AgreeAt c s'.2

/-- **Updates do not mix channels.** -/
theorem batchNormUpdateStats_isolated (ex ex' : Executor) {c : Nat} {input input' : Tensor α}
    (h : input.AgreeOn c input') (hc : c < input.channels) {running running' : ChannelStats α}
    (hr : running.AgreeAt c running') (momentum : A) :
    OutcomeRel (UpdatedAgree c) (batchNormUpdateStats ex input running momentum).1
        (batchNormUpdateStats ex' input' running' momentum).1
      ∧ (batchNormUpdateStats ex input running momentum).2.AgreeAt c
          (batchNormUpdateStats ex' input' running' momentum).2 := by
  obtain ⟨e, hrefused, hrefused'⟩ | ⟨hf, hf'⟩ := batchNormUpdateStats_refused_alike ex ex' momentum
    (updateFaults_congr h.dims hr.mean.map_dims hr.var.map_dims)
  · rw [hrefused, hrefused']
    exact ⟨.error e, hr⟩
  · obtain ⟨hrank, hmean, hvar⟩ := updateFaults_eq_nil.1 hf
    rw [batchNormUpdateStats_ok ex momentum hf, batchNormUpdateStats_ok ex' momentum hf']
    exact ⟨.ok ⟨.perChannel h.channels (h.batchMean hrank hc),
        .perChannel h.channels (h.batchSpread hrank hc .rawVariance 0)⟩,
      hr.afterBatch h hrank hc hmean hvar momentum⟩

/-! ## §3. Forward calls. -/

section
variable {c : Nat} {args args' : ForwardArgs α A} (h : args.AgreeOn c args')
  {running running' : ChannelStats α} (hr : running.AgreeAt c running')
include h

/-- Training puts the same at every place of the channel. -/
theorem ForwardArgs.AgreeOn.trainingAt (hrank : 2 ≤ args.input.rank) {k : Nat}
    (hk : k < args.input.numel) (hkc : channelOf args.input.dims k = c) :
    args.trainingAt k = args'.trainingAt k := by
  have hc : c < args.input.channels := hkc ▸ channelOf_lt hrank hk
  have hinvstd : args.input.batchInvstd args.eps c = args'.input.batchInvstd args'.eps c := by
    rw [← h.eps]
    exact h.input.batchSpread hrank hc .inverseStd args.eps
  unfold ForwardArgs.trainingAt
  dsimp only
  rw [← h.input.dims, hkc, h.input.batchMean hrank hc, hinvstd, h.weight.paramAt, h.bias.paramAt,
    h.input.elem hrank hk hkc]

include hr

/-- So does the kernel that evaluates. -/
theorem ForwardArgs.AgreeOn.inferredAt (hrank : 2 ≤ args.input.rank) {k : Nat}
    (hk : k < args.input.numel) (hkc : channelOf args.input.dims k = c) :
    args.inferredAt running k = args'.inferredAt running' k := by
  unfold ForwardArgs.inferredAt
  rw [h.contiguousInference_eq hr]
  split
  · unfold ForwardArgs.hoistedAt
    dsimp only
    rw [← h.input.dims, hkc, h.eps, hr.var.paramAt, hr.mean.paramAt, h.weight.paramAt,
      h.bias.paramAt, h.input.elem hrank hk hkc]
  · unfold ForwardArgs.evaluationAt
    dsimp only
    rw [← h.input.dims, hkc, h.eps, hr.var.paramAt, hr.mean.paramAt, h.weight.paramAt,
      h.bias.paramAt, h.input.elem hrank hk hkc]

/-- **Forward calls do not mix channels**, in either mode. -/
theorem nativeBatchNorm_isolated (ex ex' : Executor) (hc : c < args.input.channels) :
    OutcomeRel (Forward.AgreeOn c) (nativeBatchNorm ex args running).result
        (nativeBatchNorm ex' args' running').result
      ∧ (nativeBatchNorm ex args running).running.AgreeAt c
          (nativeBatchNorm ex' args' running').running := by
  obtain ⟨e, hrefused, hrefused'⟩ | ⟨haccepted, haccepted'⟩ :=
    nativeBatchNorm_refused_alike ex ex' (h.faults_eq hr _)
  · rw [hrefused, hrefused']
    exact ⟨.error e, hr⟩
  · have hrank := haccepted.rank
    cases ht : args.training with
    | true =>
        have ht' : args'.training = true := h.training ▸ ht
        rw [nativeBatchNorm_training ex haccepted ht, nativeBatchNorm_training ex' haccepted' ht',
          running_nativeBatchNorm_training ex haccepted ht,
          running_nativeBatchNorm_training ex' haccepted' ht', ← h.momentum]
        refine ⟨.ok ⟨?_, ?_, ?_⟩, hr.afterBatch h.input hrank hc haccepted.mean haccepted.var _⟩
        · exact .withContents hrank h.input.dims fun k hk hkc => h.trainingAt hrank hk hkc
        · exact .some (.perChannel h.input.channels (h.input.batchMean hrank hc))
        · refine .some (.perChannel h.input.channels ?_)
          rw [← h.eps]
          exact h.input.batchSpread hrank hc .inverseStd args.eps
    | false =>
        have ht' : args'.training = false := h.training ▸ ht
        obtain ⟨hok, hkept⟩ := nativeBatchNorm_inferred ex haccepted ht
        obtain ⟨hok', hkept'⟩ := nativeBatchNorm_inferred ex' haccepted' ht'
        rw [hok, hok', hkept, hkept']
        refine ⟨.ok ⟨?_, .none, .none⟩, hr⟩
        exact .withContents hrank h.input.dims fun k hk hkc => h.inferredAt hr hrank hk hkc

end

/-! ## §4. Backward calls. -/

/-- A mask keeps agreement. -/
theorem Gradients.AgreeOn.masked {c : Nat} {g g' : Gradients α} (h : g.AgreeOn c g')
    (mask : GradMask) : (g.masked mask).AgreeOn c (g'.masked mask) := by
  have hfilter : ∀ {R : Tensor α → Tensor α → Prop} {p q : Option (Tensor α)} (b : Bool),
      Option.Rel R p q → Option.Rel R (p.filter fun _ => b) (q.filter fun _ => b) := by
    intro R p q b hpq
    cases hpq with
    | none => exact .none
    | some hpq =>
        cases b with
        | true => exact .some hpq
        | false => exact .none
  exact ⟨hfilter _ h.input, hfilter _ h.weight, hfilter _ h.bias⟩

section
variable {c : Nat} {args args' : BackwardArgs α A} (h : args.AgreeOn c args')
  (haccepted : args.Accepted)
include h

theorem BackwardArgs.AgreeOn.meanAt : args.meanAt c = args'.meanAt c :=
  h.statistics.mean.paramAt 0

theorem BackwardArgs.AgreeOn.invstdAt : args.invstdAt c = args'.invstdAt c := by
  unfold BackwardArgs.invstdAt
  rw [h.training, h.eps, h.statistics.var.paramAt]

include haccepted

/-- The sums of a channel are over its own elements. -/
theorem BackwardArgs.AgreeOn.sumsAt (hc : c < args.input.channels) :
    args.sumsAt c = args'.sumsAt c := by
  have hrank : 2 ≤ args.gradOutput.rank := Tensor.rank_congr haccepted.gradient ▸ haccepted.rank
  have hcg : c < args.gradOutput.channels := Tensor.channels_congr haccepted.gradient ▸ hc
  unfold BackwardArgs.sumsAt
  rw [h.visitOrder, h.meanAt, h.input.planeIn haccepted.rank _ hc,
    h.gradOutput.planeIn hrank _ hcg]

/-- The input gradient is the same at every place of the channel. -/
theorem BackwardArgs.AgreeOn.inputGradAt {k : Nat} (hk : k < args.input.numel)
    (hkc : channelOf args.input.dims k = c) : args.inputGradAt k = args'.inputGradAt k := by
  have hc : c < args.input.channels := hkc ▸ channelOf_lt haccepted.rank hk
  have hrank : 2 ≤ args.gradOutput.rank := Tensor.rank_congr haccepted.gradient ▸ haccepted.rank
  have hgrad : args.gradOutput.elem k = args'.gradOutput.elem k := by
    refine h.gradOutput.elem hrank ?_ ?_
    · exact lt_of_lt_of_eq hk (congrArg volume haccepted.gradient.symm)
    · rwa [haccepted.gradient]
  unfold BackwardArgs.inputGradAt
  dsimp only
  rw [← h.input.dims, hkc, h.training, h.sumsAt haccepted hc, h.meanAt, h.invstdAt,
    h.weight.paramAt, h.input.elem haccepted.rank hk hkc, hgrad, h.input.elementsPerChannel]

theorem BackwardArgs.AgreeOn.gradients (hc : c < args.input.channels) :
    args.gradients.AgreeOn c args'.gradients := by
  refine ⟨.some ?_, .some (.perChannel h.input.channels ?_),
    .some (.perChannel h.input.channels ?_)⟩
  · exact .withContents haccepted.rank h.input.dims fun k hk hkc => h.inputGradAt haccepted hk hkc
  · unfold BackwardArgs.weightGradAt
    rw [h.sumsAt haccepted hc, h.invstdAt]
  · unfold BackwardArgs.biasGradAt
    rw [h.sumsAt haccepted hc]

end

/-- **Backward calls do not mix channels**, in either mode. -/
theorem nativeBatchNormBackward_isolated (ex ex' : Executor) {c : Nat}
    {args args' : BackwardArgs α A} (h : args.AgreeOn c args') (hc : c < args.input.channels) :
    OutcomeRel (Gradients.AgreeOn c) (nativeBatchNormBackward ex args)
      (nativeBatchNormBackward ex' args') := by
  obtain ⟨e, hrefused, hrefused'⟩ | ⟨haccepted, haccepted'⟩ :=
    nativeBatchNormBackward_refused_alike ex ex' (h.faults_eq _)
  · rw [hrefused, hrefused']
    exact .error e
  · rw [nativeBatchNormBackward_ok ex haccepted, nativeBatchNormBackward_ok ex' haccepted',
      ← h.mask]
    exact .ok ((h.gradients haccepted hc).masked args.mask)

/-! ## §5. What an evaluation does not read. -/

/-- Gradients that are the same, those of the weight apart. -/
structure Gradients.SameButWeight (g g' : Gradients α) : Prop where
  input : g.input = g'.input
  bias : g.bias = g'.bias

section
variable {args : BackwardArgs α A} {input : Tensor α} (hlayout : input.layout = args.input.layout)
  (hdevice : input.device = args.input.device)

include hlayout in
/-- The plain sum of a channel is over the incoming gradient alone. -/
theorem BackwardArgs.sum_sumsAt_withInput (haccepted : args.Accepted) {c : Nat}
    (hc : c < args.input.channels) :
    ({ args with input }.sumsAt c).sum = (args.sumsAt c).sum := by
  have hdims : input.dims = args.input.dims := congrArg Layout.dims hlayout
  have hrank : 2 ≤ input.rank := Tensor.rank_congr hdims ▸ haccepted.rank
  have hcin : c < input.channels := Tensor.channels_congr hdims ▸ hc
  have horder : { args with input }.visitOrder = args.visitOrder := by
    unfold BackwardArgs.visitOrder Tensor.planeAxes
    rw [hlayout]
  unfold BackwardArgs.sumsAt GradSums.ofPairs
  dsimp only
  rw [horder, Tensor.zip_planeIn hrank (haccepted.gradient.trans hdims.symm) _ hcin,
    Tensor.zip_planeIn haccepted.rank haccepted.gradient _ hc, List.map_map, List.map_map, hdims]
  rfl

include hlayout hdevice in
/-- **An evaluation's gradients of input and bias do not read the input.** -/
theorem nativeBatchNormBackward_withInput (ex ex' : Executor) (ht : args.training = false) :
    OutcomeRel Gradients.SameButWeight (nativeBatchNormBackward ex args)
      (nativeBatchNormBackward ex' { args with input }) := by
  have hdims : input.dims = args.input.dims := congrArg Layout.dims hlayout
  have hfaults : args.faults "native_batch_norm_backward"
      = { args with input }.faults "native_batch_norm_backward" :=
    @BackwardArgs.faults_congr α A args { args with input } rfl hdims.symm rfl rfl rfl rfl rfl rfl _
  obtain ⟨e, hrefused, hrefused'⟩ | ⟨haccepted, haccepted'⟩ :=
    nativeBatchNormBackward_refused_alike ex ex' hfaults
  · rw [hrefused, hrefused']
    exact .error e
  · rw [nativeBatchNormBackward_ok ex haccepted, nativeBatchNormBackward_ok ex' haccepted']
    have hinputs : args.gradients.input = { args with input }.gradients.input := by
      refine congrArg some (args.input.withContents_range_congr hdims.symm hdevice.symm ?_)
      intro k _
      unfold BackwardArgs.inputGradAt
      dsimp only
      rw [if_neg (ht ▸ Bool.false_ne_true), if_neg (ht ▸ Bool.false_ne_true), hdims]
      rfl
    have hbiases : args.gradients.bias = { args with input }.gradients.bias := by
      refine congrArg some (args.input.perChannel_congr (Tensor.channels_congr hdims.symm)
        hdevice.symm fun c hc => ?_)
      exact congrArg narrow (BackwardArgs.sum_sumsAt_withInput hlayout haccepted hc).symm
    refine .ok ⟨?_, ?_⟩
    · exact congrArg (Option.filter fun _ => args.mask.input) hinputs
    · exact congrArg (Option.filter fun _ => args.mask.bias) hbiases

end

/-! ## §6. Every call. -/

/-- **Channels do not leak into each other.**  Two calls that agree on a channel,
in tensors of the same layouts and with the same flags, momentum and epsilon,
are refused alike or return results, and leave running statistics, that agree on
that channel, whatever their other channels hold and whatever arithmetic is:
forward and backward calls in either mode, and updates.  Two backward calls in
evaluation mode that differ in the contents of the input alone return the same
gradients of input and bias. -/
theorem channels_isolated (ex ex' : Executor) :
    (∀ (args args' : ForwardArgs α A) (running running' : ChannelStats α),
      ∀ c < args.input.channels, args.AgreeOn c args' → running.AgreeAt c running' →
        OutcomeRel (Forward.AgreeOn c) (nativeBatchNorm ex args running).result
            (nativeBatchNorm ex' args' running').result
          ∧ (nativeBatchNorm ex args running).running.AgreeAt c
              (nativeBatchNorm ex' args' running').running)
    ∧ (∀ (input input' : Tensor α) (running running' : ChannelStats α) (momentum : A),
      ∀ c < input.channels, input.AgreeOn c input' → running.AgreeAt c running' →
        OutcomeRel (UpdatedAgree c) (batchNormUpdateStats ex input running momentum).1
            (batchNormUpdateStats ex' input' running' momentum).1
          ∧ (batchNormUpdateStats ex input running momentum).2.AgreeAt c
              (batchNormUpdateStats ex' input' running' momentum).2)
    ∧ (∀ args args' : BackwardArgs α A,
      ∀ c < args.input.channels, args.AgreeOn c args' →
        OutcomeRel (Gradients.AgreeOn c) (nativeBatchNormBackward ex args)
          (nativeBatchNormBackward ex' args'))
    ∧ ∀ (args : BackwardArgs α A) (input : Tensor α), args.training = false →
        input.layout = args.input.layout → input.device = args.input.device →
        OutcomeRel Gradients.SameButWeight (nativeBatchNormBackward ex args)
          (nativeBatchNormBackward ex' { args with input }) := by
  refine ⟨?forward, ?update, ?backward, ?evaluation⟩
  case forward =>
    intro args args' running running' c hc h hr
    exact nativeBatchNorm_isolated h hr ex ex' hc
  case update =>
    intro input input' running running' momentum c hc h hr
    exact batchNormUpdateStats_isolated ex ex' h hc hr momentum
  case backward =>
    intro args args' c hc h
    exact nativeBatchNormBackward_isolated ex ex' h hc
  case evaluation =>
    intro args input ht hlayout hdevice
    exact nativeBatchNormBackward_withInput hlayout hdevice ex ex' ht

/-- The sample batch with other values in its second channel. -/
noncomputable def spoiledBatch : Tensor ℝ :=
  sampleBatch.withContents [sampleBatch.elem 0, -1, sampleBatch.elem 2, 0] rfl

theorem spoiledBatch_agreeOn : sampleBatch.AgreeOn 0 spoiledBatch := by
  have hrank : 2 ≤ sampleBatch.rank := by decide
  have hlayout : sampleBatch.layout = spoiledBatch.layout := rfl
  refine (Tensor.agreeOn_iff hrank hlayout).2 fun k hk hc => ?_
  have hk : k < 4 := hk
  have hc : k / 1 % 2 = 0 := hc
  -- the places of the first channel are the even ones
  obtain rfl | rfl : k = 0 ∨ k = 2 := by omega
  · rfl
  · rfl

theorem channels_isolated_sample :
    let ex : Executor := ⟨.standard, 4⟩
    let spoiledRunning : ChannelStats ℝ := ⟨some (samplePair 0 9), some (samplePair 3 5)⟩
    sampleBatch.AgreeOn 0 spoiledBatch ∧ sampleRunning.AgreeAt 0 spoiledRunning
      ∧ (∀ training,
          OutcomeRel (Forward.AgreeOn 0)
            (nativeBatchNorm ex (sampleCall training) sampleRunning).result
            (nativeBatchNorm ex
              { sampleCall training with input := spoiledBatch, weight := some (samplePair 2 7) }
              spoiledRunning).result)
      ∧ OutcomeRel (UpdatedAgree 0)
          (batchNormUpdateStats ex sampleBatch sampleRunning (1 : ℝ)).1
          (batchNormUpdateStats ex spoiledBatch spoiledRunning (1 : ℝ)).1
      ∧ OutcomeRel (Gradients.AgreeOn 0)
          (nativeBatchNormBackward ex (sampleBackward sampleBatch sampleBatch))
          (nativeBatchNormBackward ex (sampleBackward spoiledBatch spoiledBatch))
      ∧ OutcomeRel Gradients.SameButWeight
          (nativeBatchNormBackward ex (sampleBackward sampleBatch sampleBatch))
          (nativeBatchNormBackward ex (sampleBackward spoiledBatch sampleBatch)) := by
  intro ex spoiledRunning
  have hinput := spoiledBatch_agreeOn
  have hchannels : 0 < sampleBatch.channels := by decide
  have hpair : ∀ x y y' : ℝ, EntryAgrees 0 (some (samplePair x y)) (some (samplePair x y')) :=
    fun _ _ _ => .some ⟨rfl, rfl⟩
  have hrunning : sampleRunning.AgreeAt 0 spoiledRunning := ⟨hpair 0 1 9, hpair 3 8 5⟩
  obtain ⟨hforward, hupdate, hbackward, hevaluation⟩ := @channels_isolated ℝ ℝ _ _ ex ex
  refine ⟨hinput, hrunning, fun training => ?_, ?_, ?_, ?_⟩
  · exact (hforward (sampleCall training)
      { sampleCall training with input := spoiledBatch, weight := some (samplePair 2 7) }
      sampleRunning spoiledRunning 0 hchannels ⟨hinput, hpair 2 3 7, .none, rfl, rfl, rfl⟩
      hrunning).1
  · exact (hupdate _ _ _ _ _ 0 hchannels hinput hrunning).1
  · exact hbackward (sampleBackward sampleBatch sampleBatch)
      (sampleBackward spoiledBatch spoiledBatch) 0 hchannels
      ⟨hinput, hinput, .none, ⟨hpair 0 1 1, hpair 3 8 8⟩, ⟨.none, .none⟩, rfl, rfl, rfl⟩
  · exact hevaluation (sampleBackward sampleBatch sampleBatch) spoiledBatch rfl rfl rfl

end ChannelNorm

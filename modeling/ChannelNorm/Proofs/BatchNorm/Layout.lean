/-
  ChannelNorm.Proofs.BatchNorm.Layout
  ───────────────────────────────────
  **TENSORS THAT DIFFER IN THEIR STRIDES HAVE THE SAME RESULTS.**

  Calls are alike when their tensors are, one by one.  Alike calls have the
  same faults.  Accepted ones return

      training, update    the same, and leave alike running statistics
      evaluation          the same, where both kernels compute the same
      backward            the same, where a sum may be taken in any order

  The first needs no law: reductions in training go over the contents of a
  channel in row-major order.  An evaluation of strided tensors may run another
  kernel, and a backward call visits a channel in the order its strides suggest;
  where two calls run the same kernel, or visit in the same order, neither needs a
  law.
-/
import Mathlib
import ChannelNorm.Proofs.BatchNorm.Backward
import ChannelNorm.Proofs.BatchNorm.Outcome
import ChannelNorm.Proofs.Tensor.Alike

namespace ChannelNorm

variable {α A : Type}

/-! ## §1. Alike calls. -/

/-- Statistics that are alike. -/
structure ChannelStats.Alike (s s' : ChannelStats α) : Prop where
  mean : OptionAlike s.mean s'.mean
  var : OptionAlike s.var s'.var

/-- Forward calls that are alike. -/
structure ForwardArgs.Alike (args args' : ForwardArgs α A) : Prop where
  input : args.input.Alike args'.input
  weight : OptionAlike args.weight args'.weight
  bias : OptionAlike args.bias args'.bias
  training : args.training = args'.training
  momentum : args.momentum = args'.momentum
  eps : args.eps = args'.eps

/-- Backward calls that are alike. -/
structure BackwardArgs.Alike (args args' : BackwardArgs α A) : Prop where
  gradOutput : args.gradOutput.Alike args'.gradOutput
  input : args.input.Alike args'.input
  weight : OptionAlike args.weight args'.weight
  running : args.running.Alike args'.running
  saved : args.saved.Alike args'.saved
  training : args.training = args'.training
  eps : args.eps = args'.eps
  mask : args.mask = args'.mask

theorem ChannelStats.Alike.refl (s : ChannelStats α) : s.Alike s :=
  ⟨.refl _, .refl _⟩

theorem ChannelStats.Alike.trans {s s' s'' : ChannelStats α} (h : s.Alike s')
    (h' : s'.Alike s'') : s.Alike s'' :=
  ⟨h.mean.trans h'.mean, h.var.trans h'.var⟩

/-! ### Alike calls have the same faults. -/

theorem OptionAlike.map_dims {p q : Option (Tensor α)} (h : OptionAlike p q) :
    p.map Tensor.dims = q.map Tensor.dims := by
  cases h with
  | none => rfl
  | some h => exact congrArg some h.dims

theorem ForwardArgs.Alike.faults_eq {args args' : ForwardArgs α A} (h : args.Alike args')
    {running running' : ChannelStats α} (hr : running.Alike running') (operation : String) :
    args.faults operation running = args'.faults operation running' :=
  ForwardArgs.faults_congr h.input.dims h.weight.map_dims h.bias.map_dims hr.mean.map_dims
    hr.var.map_dims h.training operation

/-- A call alike to an accepted one is accepted. -/
theorem ForwardArgs.Alike.accepted {args args' : ForwardArgs α A} (h : args.Alike args')
    {running running' : ChannelStats α} (hr : running.Alike running')
    (haccepted : args.Accepted running) : args'.Accepted running' := by
  have hnil := (@ForwardArgs.faults_eq_nil α A args "" running).2 haccepted
  rw [h.faults_eq hr] at hnil
  exact ForwardArgs.faults_eq_nil.1 hnil

theorem updateFaults_alike {input input' : Tensor α} (h : input.Alike input')
    {running running' : ChannelStats α} (hr : running.Alike running') :
    updateFaults input running = updateFaults input' running' :=
  updateFaults_congr h.dims hr.mean.map_dims hr.var.map_dims

theorem BackwardArgs.Alike.faults_eq {args args' : BackwardArgs α A} (h : args.Alike args')
    (operation : String) : args.faults operation = args'.faults operation :=
  BackwardArgs.faults_congr h.gradOutput.dims h.input.dims h.weight.map_dims
    h.running.mean.map_dims h.running.var.map_dims h.saved.mean.map_dims h.saved.var.map_dims
    h.training operation

theorem BackwardArgs.Alike.accepted {args args' : BackwardArgs α A} (h : args.Alike args')
    (haccepted : args.Accepted) : args'.Accepted := by
  have hnil := (@BackwardArgs.faults_eq_nil α A args "").2 haccepted
  rw [h.faults_eq] at hnil
  exact BackwardArgs.faults_eq_nil.1 hnil

/-- Alike backward calls read alike statistics. -/
theorem BackwardArgs.Alike.statistics {args args' : BackwardArgs α A} (h : args.Alike args') :
    args.statistics.Alike args'.statistics := by
  unfold BackwardArgs.statistics
  rw [← h.training]
  split
  · exact h.saved
  · exact h.running

variable [OrderedArith A] [Element α A]

/-! ## §2. Training and updates. -/

section
variable {input input' : Tensor α} (h : input.Alike input') (hrank : 2 ≤ input.rank)
include h hrank

/-- A channel has the same moments in any layout: its elements come in row-major
order. -/
theorem Tensor.Alike.momentsAt {c : Nat} (hc : c < input.channels) :
    (input.momentsAt c : ChannelMoments α A) = input'.momentsAt c := by
  unfold Tensor.momentsAt
  rw [h.elementsPerChannel]
  exact congrArg _ (h.planeIn hrank .rows hc)

theorem Tensor.Alike.batchMean {c : Nat} (hc : c < input.channels) :
    (input.batchMean c : α) = input'.batchMean c :=
  congrArg ChannelMoments.mean (h.momentsAt hrank hc)

theorem Tensor.Alike.batchSpread (policy : VarTransform) (eps : A) {c : Nat}
    (hc : c < input.channels) :
    (input.batchSpread policy eps c : α) = input'.batchSpread policy eps c := by
  unfold Tensor.batchSpread
  rw [h.momentsAt hrank hc, h.elementsPerChannel]

/-- The moments of all channels, in channel order. -/
theorem Tensor.Alike.ofFn_momentsAt :
    List.ofFn (fun c : Fin input.channels => (input.momentsAt c : ChannelMoments α A))
      = List.ofFn fun c : Fin input'.channels => input'.momentsAt c := by
  have hmoments : ∀ n, input.channels = n →
      List.ofFn (fun c : Fin input.channels => (input.momentsAt c : ChannelMoments α A))
        = List.ofFn fun c : Fin n => input'.momentsAt c := by
    rintro _ rfl
    exact congrArg List.ofFn (funext fun c => h.momentsAt hrank c.isLt)
  exact hmoments _ h.channels

/-- Alike running statistics are still alike with a batch folded in: each is
written through its own strides, with the same values in the same order. -/
theorem ChannelStats.Alike.afterBatch {running running' : ChannelStats α}
    (hr : running.Alike running') (hmean : OnePerChannel input.channels running.mean)
    (hvar : OnePerChannel input.channels running.var) (momentum : A) :
    (running.afterBatch input momentum).Alike (running'.afterBatch input' momentum) := by
  have hwrite : ∀ {p q : Option (Tensor α)} (blend : ChannelMoments α A → α → α),
      OptionAlike p q → OnePerChannel input.channels p →
      OptionAlike
        (p.map fun t => t.overwrite (List.zipWith blend
          (List.ofFn fun c : Fin input.channels => input.momentsAt c) t.toList))
        (q.map fun t => t.overwrite (List.zipWith blend
          (List.ofFn fun c : Fin input'.channels => input'.momentsAt c) t.toList)) := by
    intro p q blend hpq hp
    cases hpq with
    | none => exact .none
    | @some t u htu =>
        refine .some (htu.overwrite ?_ ?_)
        · rw [List.length_zipWith, List.length_ofFn, Tensor.length_toList, hp t rfl, Nat.min_self]
        · rw [h.ofFn_momentsAt hrank, htu.contents]
  unfold ChannelStats.afterBatch ChannelStats.blend
  rw [Vector.toList_ofFn, Vector.toList_ofFn, h.elementsPerChannel]
  exact ⟨hwrite _ hr.mean hmean, hwrite _ hr.var hvar⟩

end

/-- **Alike updates return the same statistics.** -/
theorem batchNormUpdateStats_alike (ex ex' : Executor) {input input' : Tensor α}
    (h : input.Alike input') {running running' : ChannelStats α} (hr : running.Alike running')
    (momentum : A) :
    (batchNormUpdateStats ex input running momentum).1
        = (batchNormUpdateStats ex' input' running' momentum).1
      ∧ (batchNormUpdateStats ex input running momentum).2.Alike
          (batchNormUpdateStats ex' input' running' momentum).2 := by
  obtain ⟨e, hrefused, hrefused'⟩ | ⟨hf, hf'⟩ :=
    batchNormUpdateStats_refused_alike ex ex' momentum (updateFaults_alike h hr)
  · rw [hrefused, hrefused']
    exact ⟨rfl, hr⟩
  · obtain ⟨hrank, hmean, hvar⟩ := updateFaults_eq_nil.1 hf
    rw [batchNormUpdateStats_ok ex momentum hf, batchNormUpdateStats_ok ex' momentum hf']
    refine ⟨?_, hr.afterBatch h hrank hmean hvar momentum⟩
    dsimp only
    rw [h.perChannel_eq fun c hc => h.batchMean hrank hc,
      h.perChannel_eq fun c hc => h.batchSpread hrank .rawVariance 0 hc]

/-- **Alike training calls return the same result**, and leave alike running
statistics. -/
theorem nativeBatchNorm_training_alike (ex ex' : Executor) {args args' : ForwardArgs α A}
    (h : args.Alike args') {running running' : ChannelStats α} (hr : running.Alike running')
    (haccepted : args.Accepted running) (ht : args.training = true) :
    (nativeBatchNorm ex args running).result = (nativeBatchNorm ex' args' running').result
      ∧ (nativeBatchNorm ex args running).running.Alike
          (nativeBatchNorm ex' args' running').running := by
  have hrank := haccepted.rank
  have haccepted' := h.accepted hr haccepted
  have ht' : args'.training = true := h.training ▸ ht
  rw [nativeBatchNorm_training ex haccepted ht, nativeBatchNorm_training ex' haccepted' ht',
    running_nativeBatchNorm_training ex haccepted ht,
    running_nativeBatchNorm_training ex' haccepted' ht', ← h.momentum]
  refine ⟨?_, hr.afterBatch h.input hrank haccepted.mean haccepted.var _⟩
  have hinvstd : ∀ c < args.input.channels,
      args.input.batchInvstd args.eps c = args'.input.batchInvstd args'.eps c := fun c hc => by
    rw [← h.eps]
    exact h.input.batchSpread hrank .inverseStd args.eps hc
  have hplace : ∀ k < args.input.numel, args.trainingAt k = args'.trainingAt k := by
    intro k hk
    have hc : channelOf args.input.dims k < args.input.channels := channelOf_lt hrank hk
    unfold ForwardArgs.trainingAt
    dsimp only
    rw [h.input.batchMean hrank hc, hinvstd _ hc, h.weight.paramAt, h.bias.paramAt,
      h.input.elem, h.input.dims]
  unfold ForwardArgs.batchStats
  rw [h.input.withContents_range_eq hplace,
    h.input.perChannel_eq fun c hc => h.input.batchMean hrank hc, h.input.perChannel_eq hinvstd]

/-! ## §3. Evaluation. -/

section
variable {args args' : ForwardArgs α A} (h : args.Alike args') {running running' : ChannelStats α}
  (hr : running.Alike running')
include h hr

/-- The general kernel puts the same at a place. -/
theorem ForwardArgs.Alike.evaluationAt (k : Nat) :
    args.evaluationAt running k = args'.evaluationAt running' k := by
  unfold ForwardArgs.evaluationAt
  dsimp only
  rw [hr.mean.paramAt, hr.var.paramAt, h.weight.paramAt, h.bias.paramAt, h.input.elem,
    h.input.dims, h.eps]

/-- So does the flat one. -/
theorem ForwardArgs.Alike.hoistedAt (k : Nat) :
    args.hoistedAt running k = args'.hoistedAt running' k := by
  unfold ForwardArgs.hoistedAt
  dsimp only
  rw [hr.mean.paramAt, hr.var.paramAt, h.weight.paramAt, h.bias.paramAt, h.input.elem,
    h.input.dims, h.eps]

/-- **Alike evaluations that run the same kernel return the same result.** -/
theorem nativeBatchNorm_evaluation_alike_of_kernel (ex ex' : Executor)
    (hkernel : contiguousInference args running = contiguousInference args' running')
    (haccepted : args.Accepted running) (ht : args.training = false) :
    (nativeBatchNorm ex args running).result = (nativeBatchNorm ex' args' running').result
      ∧ (nativeBatchNorm ex args running).running.Alike
          (nativeBatchNorm ex' args' running').running := by
  obtain ⟨hresult, hrunning⟩ := nativeBatchNorm_inferred ex haccepted ht
  obtain ⟨hresult', hrunning'⟩ :=
    nativeBatchNorm_inferred ex' (h.accepted hr haccepted) (h.training ▸ ht)
  rw [hresult, hresult', hrunning, hrunning']
  refine ⟨?_, hr⟩
  have hplace : ∀ k < args.input.numel,
      args.inferredAt running k = args'.inferredAt running' k := by
    intro k _
    unfold ForwardArgs.inferredAt
    rw [hkernel]
    split
    · exact h.hoistedAt hr k
    · exact h.evaluationAt hr k
  rw [h.input.withContents_range_eq hplace]

end

/-- **In exact arithmetic alike evaluations return the same result**, also where
one is contiguous and the other is not. -/
theorem nativeBatchNorm_evaluation_alike [LawfulArith α] (ex ex' : Executor)
    {args args' : ForwardArgs α A} (h : args.Alike args') {running running' : ChannelStats α}
    (hr : running.Alike running') (haccepted : args.Accepted running)
    (ht : args.training = false) :
    (nativeBatchNorm ex args running).result = (nativeBatchNorm ex' args' running').result
      ∧ (nativeBatchNorm ex args running).running.Alike
          (nativeBatchNorm ex' args' running').running := by
  obtain ⟨hresult, hrunning⟩ := nativeBatchNorm_evaluation ex haccepted ht
  obtain ⟨hresult', hrunning'⟩ :=
    nativeBatchNorm_evaluation ex' (h.accepted hr haccepted) (h.training ▸ ht)
  rw [hresult, hresult', hrunning, hrunning']
  refine ⟨?_, hr⟩
  rw [h.input.withContents_range_eq fun k _ => h.evaluationAt hr k]

/-! ## §4. Sums in any order. -/

/-- Both orders of visit meet the same places of a channel. -/
theorem channelPlaces_perm (order order' : VisitOrder) (dims : List Nat) (c : Nat) :
    (channelPlaces order dims c).Perm (channelPlaces order' dims c) :=
  have hindices := (order.indices_perm (dims.eraseIdx 1)).trans
    (order'.indices_perm (dims.eraseIdx 1)).symm
  (hindices.map _).map _

/-- A backward call with faults returns the first one. -/
theorem nativeBatchNormBackward_of_fault (ex : Executor) {args : BackwardArgs α A}
    {e : TensorError} (h : (args.faults "native_batch_norm_backward").head? = some e) :
    nativeBatchNormBackward ex args = .error e :=
  nativeBatchNormBackward_of_error ex ((checkBackward_reports _ args e).2 h)

/-- Backward calls with the same faults are refused alike, or neither is. -/
theorem nativeBatchNormBackward_refused_alike (ex ex' : Executor) {args args' : BackwardArgs α A}
    (h : args.faults "native_batch_norm_backward" = args'.faults "native_batch_norm_backward") :
    (∃ e, nativeBatchNormBackward ex args = .error e
        ∧ nativeBatchNormBackward ex' args' = .error e)
      ∨ args.Accepted ∧ args'.Accepted := by
  cases hf : args.faults "native_batch_norm_backward" with
  | nil => exact .inr ⟨BackwardArgs.faults_eq_nil.1 hf, BackwardArgs.faults_eq_nil.1 (h ▸ hf)⟩
  | cons e more =>
      have hfirst : (args.faults "native_batch_norm_backward").head? = some e :=
        congrArg List.head? hf
      exact .inl ⟨e, nativeBatchNormBackward_of_fault ex hfirst,
        nativeBatchNormBackward_of_fault ex' (h ▸ hfirst)⟩

/-- Alike calls take the sums of a channel over the same pairs. -/
theorem BackwardArgs.Alike.sumsAt_eq {args args' : BackwardArgs α A} (h : args.Alike args')
    (haccepted : args.Accepted) {c : Nat} (hc : c < args.input.channels) :
    args'.sumsAt c = .ofPairs (args.meanAt c)
      ((channelPlaces args'.visitOrder args.input.dims c).map fun k =>
        (args.input.elem k, args.gradOutput.elem k)) := by
  have hmean : args.meanAt c = args'.meanAt c := h.statistics.mean.paramAt 0 c
  have hpairs : (fun k => (args.input.elem k, args.gradOutput.elem k))
      = fun k => (args'.input.elem k, args'.gradOutput.elem k) :=
    funext fun k => by rw [h.input.elem, h.gradOutput.elem]
  rw [BackwardArgs.sumsAt_eq_ofPairs (h.accepted haccepted) (h.input.channels ▸ hc), hmean,
    hpairs, h.input.dims]

section
variable [Std.Associative fun a b : A => a + b] [Std.Commutative fun a b : A => a + b]

/-- The sums of a channel do not depend on the order of its pairs. -/
theorem GradSums.ofPairs_perm (mean : α) {ps qs : List (α × α)} (h : ps.Perm qs) :
    (GradSums.ofPairs mean ps : GradSums A) = GradSums.ofPairs mean qs := by
  unfold GradSums.ofPairs
  rw [sumInOrder_perm (h.map _), sumInOrder_perm (h.map _)]

/-- The sums of a channel are the same in any layout. -/
theorem BackwardArgs.Alike.sumsAt {args args' : BackwardArgs α A} (h : args.Alike args')
    (haccepted : args.Accepted) {c : Nat} (hc : c < args.input.channels) :
    args.sumsAt c = args'.sumsAt c := by
  rw [BackwardArgs.sumsAt_eq_ofPairs haccepted hc, h.sumsAt_eq haccepted hc]
  exact GradSums.ofPairs_perm _ ((channelPlaces_perm _ _ _ _).map _)

end

/-- Alike accepted backward calls whose channels have the same sums have the same
gradients. -/
theorem BackwardArgs.Alike.gradients_eq {args args' : BackwardArgs α A} (h : args.Alike args')
    (haccepted : args.Accepted)
    (hsums : ∀ c < args.input.channels, args.sumsAt c = args'.sumsAt c) :
    args.gradients = args'.gradients := by
  have hmean : ∀ c, args.meanAt c = args'.meanAt c := fun c => h.statistics.mean.paramAt 0 c
  have hinvstd : ∀ c, args.invstdAt c = args'.invstdAt c := by
    intro c
    unfold BackwardArgs.invstdAt
    rw [h.training, h.eps, h.statistics.var.paramAt]
  have hinput : ∀ k < args.input.numel, args.inputGradAt k = args'.inputGradAt k := by
    intro k hk
    have hc : channelOf args.input.dims k < args.input.channels :=
      channelOf_lt haccepted.rank hk
    unfold BackwardArgs.inputGradAt
    dsimp only
    rw [hsums _ hc, hmean, hinvstd, h.training, h.weight.paramAt, h.input.elem,
      h.gradOutput.elem, h.input.dims, h.input.elementsPerChannel]
  have hweight : ∀ c < args.input.channels, args.weightGradAt c = args'.weightGradAt c := by
    intro c hc
    unfold BackwardArgs.weightGradAt
    rw [hsums c hc, hinvstd]
  have hbias : ∀ c < args.input.channels, args.biasGradAt c = args'.biasGradAt c := by
    intro c hc
    unfold BackwardArgs.biasGradAt
    rw [hsums c hc]
  unfold BackwardArgs.gradients
  rw [h.input.withContents_range_eq hinput, h.input.perChannel_eq hweight,
    h.input.perChannel_eq hbias]

theorem nativeBatchNormBackward_alike_of_sums (ex ex' : Executor) {args args' : BackwardArgs α A}
    (h : args.Alike args')
    (hsums : args.Accepted → ∀ c < args.input.channels, args.sumsAt c = args'.sumsAt c) :
    nativeBatchNormBackward ex args = nativeBatchNormBackward ex' args' := by
  obtain ⟨e, hrefused, hrefused'⟩ | ⟨haccepted, haccepted'⟩ :=
    nativeBatchNormBackward_refused_alike ex ex' (h.faults_eq _)
  · rw [hrefused, hrefused']
  · rw [nativeBatchNormBackward_ok ex haccepted, nativeBatchNormBackward_ok ex' haccepted',
      h.gradients_eq haccepted (hsums haccepted), h.mask]

/-- **Where a sum may be taken in any order, alike backward calls return the
same gradients.** -/
theorem nativeBatchNormBackward_alike [Std.Associative fun a b : A => a + b]
    [Std.Commutative fun a b : A => a + b] (ex ex' : Executor) {args args' : BackwardArgs α A}
    (h : args.Alike args') :
    nativeBatchNormBackward ex args = nativeBatchNormBackward ex' args' :=
  nativeBatchNormBackward_alike_of_sums ex ex' h fun haccepted _ hc => h.sumsAt haccepted hc

/-- Nor does it take a law where both calls visit a channel in the same order. -/
theorem nativeBatchNormBackward_alike_of_order (ex ex' : Executor) {args args' : BackwardArgs α A}
    (h : args.Alike args') (horder : args.visitOrder = args'.visitOrder) :
    nativeBatchNormBackward ex args = nativeBatchNormBackward ex' args' := by
  refine nativeBatchNormBackward_alike_of_sums ex ex' h fun haccepted c hc => ?_
  rw [BackwardArgs.sumsAt_eq_ofPairs haccepted hc, h.sumsAt_eq haccepted hc, horder]

/-! ## §5. Forward calls. -/

/-- Alike forward calls that have a fault are refused alike. -/
theorem nativeBatchNorm_alike (ex ex' : Executor) {args args' : ForwardArgs α A}
    (h : args.Alike args') {running running' : ChannelStats α} (hr : running.Alike running')
    (hcall : args.Accepted running →
      (nativeBatchNorm ex args running).result = (nativeBatchNorm ex' args' running').result
        ∧ (nativeBatchNorm ex args running).running.Alike
            (nativeBatchNorm ex' args' running').running) :
    (nativeBatchNorm ex args running).result = (nativeBatchNorm ex' args' running').result
      ∧ (nativeBatchNorm ex args running).running.Alike
          (nativeBatchNorm ex' args' running').running := by
  obtain ⟨e, hrefused, hrefused'⟩ | ⟨haccepted, _⟩ :=
    nativeBatchNorm_refused_alike ex ex' (h.faults_eq hr _)
  · rw [hrefused, hrefused']
    exact ⟨rfl, hr⟩
  · exact hcall haccepted

/-- Alike forward calls in either mode, where evaluations run the same kernel. -/
theorem nativeBatchNorm_alike_of_kernel (ex ex' : Executor) {args args' : ForwardArgs α A}
    (h : args.Alike args') {running running' : ChannelStats α} (hr : running.Alike running')
    (hkernel : contiguousInference args running = contiguousInference args' running') :
    (nativeBatchNorm ex args running).result = (nativeBatchNorm ex' args' running').result
      ∧ (nativeBatchNorm ex args running).running.Alike
          (nativeBatchNorm ex' args' running').running := by
  refine nativeBatchNorm_alike ex ex' h hr fun haccepted => ?_
  cases ht : args.training with
  | true => exact nativeBatchNorm_training_alike ex ex' h hr haccepted ht
  | false => exact nativeBatchNorm_evaluation_alike_of_kernel h hr ex ex' hkernel haccepted ht

/-- The sample batch with its columns laid end to end. -/
noncomputable def sampleStrided : Tensor ℝ :=
  .buildIn .columns sampleBatch.dims sampleBatch.addressable ([0, 2, 1, 3].map sampleBatch.elem)
    rfl sampleBatch.device

/-- A backward call on the sample in evaluation mode, the gradient laid out as
given. -/
noncomputable def sampleBackward (input gradOutput : Tensor ℝ) : BackwardArgs ℝ ℝ where
  gradOutput := gradOutput
  input := input
  weight := none
  running := sampleRunning
  saved := .none
  training := false
  eps := 1
  mask := .all

end ChannelNorm

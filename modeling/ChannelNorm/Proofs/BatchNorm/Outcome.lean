/-
  ChannelNorm.Proofs.BatchNorm.Outcome
  ────────────────────────────────────
  **WHAT EACH CALL RETURNS AND WHAT IT LEAVES BEHIND.**

  A call with faults returns the first one and changes nothing.  Without faults
  each call has a closed form, channel by channel and place by place, in which
  the executor does not occur and no law of arithmetic is used:

      update       mean, policy (varSum / n), running statistics blended
      training     output, saved statistics, running statistics blended
      evaluation   output by the kernel that runs, running statistics kept
-/
import ChannelNorm.Proofs.BatchNorm.Fault
import ChannelNorm.Proofs.BatchNorm.Inference
import ChannelNorm.Proofs.BatchNorm.Training

namespace ChannelNorm

variable {α A : Type} [OrderedArith A] [Element α A]

/-! ## §1. The statistics of a batch. -/

/-- The biased variance of one channel as a policy stores it. -/
def Tensor.batchSpread (input : Tensor α) (policy : VarTransform) (eps : A) (c : Nat) : α :=
  narrow (policy.apply ((input.momentsAt c).varSum / ofCount input.elementsPerChannel) eps)

/-- The running statistics with a batch folded in. -/
def ChannelStats.afterBatch (running : ChannelStats α) (input : Tensor α) (momentum : A) :
    ChannelStats α :=
  running.blend momentum (ofCount (input.elementsPerChannel - 1))
    (.ofFn fun c : Fin input.channels => input.momentsAt c)

/-- Folding in a batch overwrites the statistics in place. -/
theorem onePerChannel_afterBatch {n : Nat} {running : ChannelStats α}
    (hmean : OnePerChannel n running.mean) (hvar : OnePerChannel n running.var)
    (input : Tensor α) (momentum : A) :
    OnePerChannel n (running.afterBatch input momentum).mean
      ∧ OnePerChannel n (running.afterBatch input momentum).var := by
  have hkept : ∀ {p : Option (Tensor α)} (f : Tensor α → List α),
      OnePerChannel n p → OnePerChannel n (p.map fun t => t.overwrite (f t)) := by
    intro p f hp t ht
    obtain ⟨u, hu, rfl⟩ := Option.map_eq_some_iff.1 ht
    exact hp u hu
  exact ⟨hkept _ hmean, hkept _ hvar⟩

/-- **The update, channel by channel.** -/
theorem Schedule.updateStats_eq {input : Tensor α} (s : Schedule input.channels)
    (running : ChannelStats α) (momentum eps : A) (policy : VarTransform) :
    s.updateStats input running momentum eps policy
      = ({ mean := .ofFn fun c : Fin input.channels => input.batchMean c
           var := .ofFn fun c : Fin input.channels => input.batchSpread policy eps c },
          running.afterBatch input momentum) := by
  unfold updateStats BatchStats.ofMoments
  dsimp only
  rw [channelMoments_eq, Vector.map_ofFn, Vector.map_ofFn]
  rfl

/-! ## §2. Updates. -/

/-- An update without faults returns the mean and the biased variance. -/
theorem batchNormUpdateStats_ok (ex : Executor) {input : Tensor α} {running : ChannelStats α}
    (momentum : A) (h : updateFaults input running = []) :
    batchNormUpdateStats ex input running momentum
      = (.ok (input.perChannel (.ofFn fun c => input.batchMean c),
            input.perChannel (.ofFn fun c => input.batchSpread .rawVariance (0 : A) c)),
          running.afterBatch input momentum) := by
  obtain ⟨_, hcheck⟩ := (h ▸ checkUpdate_reports input running).exists_ok
  unfold batchNormUpdateStats Schedule.batchNormUpdateStats
  rw [hcheck, Schedule.updateStats_eq]

/-- A refused update changes nothing. -/
theorem batchNormUpdateStats_refused (ex : Executor) {input : Tensor α}
    {running : ChannelStats α} (momentum : A) {e : TensorError}
    (h : (updateFaults input running).head? = some e) :
    batchNormUpdateStats ex input running momentum = (.error e, running) := by
  have hcheck : checkUpdate input running = .error e := (checkUpdate_reports input running e).2 h
  unfold batchNormUpdateStats Schedule.batchNormUpdateStats
  rw [hcheck]

/-- Updates with the same faults are refused alike, or neither is. -/
theorem batchNormUpdateStats_refused_alike (ex ex' : Executor) {input input' : Tensor α}
    {running running' : ChannelStats α} (momentum : A)
    (h : updateFaults input running = updateFaults input' running') :
    (∃ e, batchNormUpdateStats ex input running momentum = (.error e, running)
        ∧ batchNormUpdateStats ex' input' running' momentum = (.error e, running'))
      ∨ updateFaults input running = [] ∧ updateFaults input' running' = [] := by
  cases hf : updateFaults input running with
  | nil => exact .inr ⟨rfl, h ▸ hf⟩
  | cons e more =>
      have hfirst : (updateFaults input running).head? = some e := congrArg List.head? hf
      exact .inl ⟨e, batchNormUpdateStats_refused ex momentum hfirst,
        batchNormUpdateStats_refused ex' momentum (h ▸ hfirst)⟩

/-! ## §3. Forward calls. -/

/-- A refused forward changes nothing. -/
theorem nativeBatchNorm_refused (ex : Executor) {args : ForwardArgs α A}
    {running : ChannelStats α} {e : TensorError}
    (h : (args.faults "native_batch_norm" running).head? = some e) :
    nativeBatchNorm ex args running = .refused e running := by
  have hcheck := (checkForward_reports "native_batch_norm" args running e).2 h
  unfold nativeBatchNorm Schedule.nativeBatchNorm
  rw [hcheck]

/-- Forward calls with the same faults are refused alike, or neither is. -/
theorem nativeBatchNorm_refused_alike (ex ex' : Executor) {args args' : ForwardArgs α A}
    {running running' : ChannelStats α}
    (h : args.faults "native_batch_norm" running = args'.faults "native_batch_norm" running') :
    (∃ e, nativeBatchNorm ex args running = .refused e running
        ∧ nativeBatchNorm ex' args' running' = .refused e running')
      ∨ args.Accepted running ∧ args'.Accepted running' := by
  cases hf : args.faults "native_batch_norm" running with
  | nil => exact .inr ⟨ForwardArgs.faults_eq_nil.1 hf, ForwardArgs.faults_eq_nil.1 (h ▸ hf)⟩
  | cons e more =>
      have hfirst : (args.faults "native_batch_norm" running).head? = some e :=
        congrArg List.head? hf
      exact .inl ⟨e, nativeBatchNorm_refused ex hfirst, nativeBatchNorm_refused ex' (h ▸ hfirst)⟩

/-- An accepted training call folds the batch into the running statistics. -/
theorem running_nativeBatchNorm_training (ex : Executor) {args : ForwardArgs α A}
    {running : ChannelStats α} (h : args.Accepted running) (ht : args.training = true) :
    (nativeBatchNorm ex args running).running = running.afterBatch args.input args.momentum := by
  obtain ⟨params, hcheck, hmode, _⟩ := checkForward_training "native_batch_norm" h ht
  unfold nativeBatchNorm Schedule.nativeBatchNorm
  rw [hcheck]
  dsimp only
  rw [hmode]
  dsimp only
  unfold Schedule.trainForward
  rw [Schedule.updateStats_eq]

/-- An accepted call leaves running statistics of the same sizes. -/
theorem onePerChannel_nativeBatchNorm (ex : Executor) {args : ForwardArgs α A}
    {running : ChannelStats α} (h : args.Accepted running) (ht : args.training = true) :
    OnePerChannel args.input.channels (nativeBatchNorm ex args running).running.mean
      ∧ OnePerChannel args.input.channels (nativeBatchNorm ex args running).running.var := by
  rw [running_nativeBatchNorm_training ex h ht]
  exact onePerChannel_afterBatch h.mean h.var args.input args.momentum

/-- What the flat kernel puts at a place. -/
def ForwardArgs.hoistedAt (args : ForwardArgs α A) (running : ChannelStats α) (k : Nat) : α :=
  let c := channelOf args.input.dims k
  let alpha := inferenceAlpha args.eps (paramAt running.var 0 c) (paramAt args.weight 1 c)
  args.input.elem k * alpha
    + inferenceBeta alpha (paramAt running.mean 0 c) (paramAt args.bias 0 c)

/-- What the kernel that runs an evaluation puts at a place. -/
def ForwardArgs.inferredAt (args : ForwardArgs α A) (running : ChannelStats α) : Nat → α :=
  if contiguousInference args running then args.hoistedAt running else args.evaluationAt running

/-- **An accepted evaluation, element by element, whatever arithmetic is.** -/
theorem nativeBatchNorm_inferred (ex : Executor) {args : ForwardArgs α A}
    {running : ChannelStats α} (h : args.Accepted running) (ht : args.training = false) :
    (nativeBatchNorm ex args running).result = .ok
        { output := args.input.withContents
            ((List.range args.input.numel).map (args.inferredAt running)) (by simp)
          saved := .none
          backend := .native }
      ∧ (nativeBatchNorm ex args running).running = running := by
  obtain ⟨params, mean, var, hcheck, hmode, haffine, hstats⟩ :=
    checkForward_evaluation "native_batch_norm" h ht
  have hlt : ∀ k ∈ List.range args.input.numel, channelOf args.input.dims k < args.input.channels :=
    fun k hk => channelOf_lt h.rank (List.mem_range.1 hk)
  unfold nativeBatchNorm Schedule.nativeBatchNorm
  rw [hcheck]
  dsimp only
  rw [hmode]
  dsimp only
  unfold Schedule.evaluateForward ForwardArgs.inferredAt
  dsimp only
  split
  · refine ⟨?_, rfl⟩
    dsimp only
    rw [transformContiguous_eq _ h.rank]
    congr 2
    refine args.input.withContents_congr (List.map_congr_left fun k hk => ?_)
    obtain ⟨hmean, hvar⟩ := hstats _ (hlt k hk)
    unfold contiguousAt ForwardArgs.hoistedAt
    dsimp only
    rw [hmean, hvar, (haffine _ (hlt k hk) 1).1, (haffine _ (hlt k hk) 0).2]
  · refine ⟨?_, rfl⟩
    dsimp only
    rw [Schedule.transformGeneral_eq _ h.rank]
    congr 2
    refine args.input.withContents_congr (List.map_congr_left fun k hk => ?_)
    obtain ⟨hmean, hvar⟩ := hstats _ (hlt k hk)
    unfold generalAt ForwardArgs.evaluationAt
    dsimp only
    rw [channelValue_map _ _ (hlt k hk), hmean, hvar, (haffine _ (hlt k hk) 1).1,
      (haffine _ (hlt k hk) 0).2]

end ChannelNorm

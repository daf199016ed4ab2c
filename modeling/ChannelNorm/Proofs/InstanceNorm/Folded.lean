/-
  ChannelNorm.Proofs.InstanceNorm.Folded
  ──────────────────────────────────────
  **WHICH CALLS ARE FOLDED, AND WHICH ARE REFUSED.**

  The size checks of instance normalization are those of its folded call, made
  on tiled parameters.  With samples they ask for one value per channel.
  Without samples a parameter of any size is tiled to nothing, which is as many
  values as there are folded channels, so nothing is asked of it.  Every call is
  then one of two:

      foldable   →  its folded call, finished
      else       →  refused, nothing runs, the running statistics untouched
-/
import ChannelNorm.Proofs.Replay.Instance

namespace ChannelNorm

variable {α A : Type}

/-! ## §1. Calls that can be folded. -/

/-- A call whose folded call passes its checks: it has a channel axis and the
statistics of its mode, and if there are samples, everything it brings along has
the size it should have. -/
structure ForwardArgs.Foldable (args : ForwardArgs α A) (running : ChannelStats α) : Prop where
  rank : 2 ≤ args.input.rank
  statistics : args.training = false → running.mean.isSome = true ∧ running.var.isSome = true
  sizes : 0 < args.input.dims.headD 0 → args.Accepted running

section
variable {p : InstanceNormPlan} {args folded : ForwardArgs α A} {running tiled : ChannelStats α}

/-- The statistics check of evaluation mode, as a proposition. -/
theorem statisticsMissing_eq_false :
    (!args.training && (running.mean.isNone || running.var.isNone)) = false
      ↔ (args.training = false → running.mean.isSome = true ∧ running.var.isSome = true) := by
  cases args.training <;> cases running.mean <;> cases running.var <;> simp

/-- An accepted call can be folded. -/
theorem ForwardArgs.Accepted.foldable (h : args.Accepted running) : args.Foldable running :=
  ⟨h.rank, h.statistics, fun _ => h⟩

/-- An input with a channel axis has a plan. -/
theorem InstanceNormPlan.exists_of_rank {t : Tensor α} (h : 2 ≤ t.rank) :
    ∃ p : InstanceNormPlan, t.dims = p.inputDims := by
  obtain ⟨batch, channels, spatial, hdims⟩ := exists_eq_cons_cons h
  exact ⟨⟨batch, channels, spatial, hdims ▸ t.addressable⟩, hdims⟩

/-- Without a plan nothing can be folded. -/
theorem InstanceNormPlan.not_foldable_of_ofInput {e : TensorError}
    (h : ofInput args.input = .error e) : ¬ args.Foldable running := by
  intro hfoldable
  obtain ⟨p, hdims⟩ := exists_of_rank hfoldable.rank
  rw [ofInput_ok hdims] at h
  cases h

theorem InstanceNormPlan.headD_of_dims {t : Tensor α} (h : t.dims = p.inputDims) :
    t.dims.headD 0 = p.batch := by
  rw [h]
  rfl

/-- What a foldable call brings along fits the plan. -/
theorem ForwardArgs.Foldable.fits (h : args.Foldable running)
    (hdims : args.input.dims = p.inputDims) :
    p.Fits args.weight ∧ p.Fits args.bias ∧ p.Fits running.mean ∧ p.Fits running.var := by
  have hchannels := InstanceNormPlan.channels_of_dims hdims
  have hsizes : 0 < p.batch → args.Accepted running := by
    intro hbatch
    apply h.sizes
    rwa [InstanceNormPlan.headD_of_dims hdims]
  refine ⟨?_, ?_, ?_, ?_⟩ <;> intro hbatch <;> rw [← hchannels]
  · exact (hsizes hbatch).weight
  · exact (hsizes hbatch).bias
  · exact (hsizes hbatch).mean
  · exact (hsizes hbatch).var

/-- A foldable call has a folded call. -/
theorem ForwardArgs.Foldable.exists_foldsTo (h : args.Foldable running)
    (hdims : args.input.dims = p.inputDims) :
    ∃ folded tiled, p.FoldsTo args running folded tiled := by
  obtain ⟨hweight, hbias, hmean, hvar⟩ := h.fits hdims
  exact InstanceNormPlan.exists_foldsTo_of_repeatParam hdims hweight.repeatParam_ok
    hbias.repeatParam_ok hmean.repeatParam_ok hvar.repeatParam_ok

namespace InstanceNormPlan.FoldsTo

variable (hf : p.FoldsTo args running folded tiled)
include hf

/-- Tiling neither makes up statistics nor loses any. -/
theorem isSome_statistics :
    tiled.mean.isSome = running.mean.isSome ∧ tiled.var.isSome = running.var.isSome := by
  have htiled : ∀ {param tiled : Option (Tensor α)}, p.repeatParam param = .ok tiled →
      tiled.isSome = param.isSome := by
    intro param tiled h
    rcases repeatParam_cases h with ⟨rfl, rfl⟩ | ⟨t, r, rfl, rfl, _⟩
    · rfl
    · rfl
  exact ⟨htiled hf.mean, htiled hf.var⟩

/-- Statistics of one value per channel can be recorded along with the call. -/
theorem capture_ok {mean var : Option (Tensor α)} (hmean : OnePerChannel p.channels mean)
    (hvar : OnePerChannel p.channels var) (forward : Forward α) :
    ∃ recorded, InstanceNormContext.capture p args ⟨mean, var⟩ forward = .ok recorded := by
  obtain ⟨keptMean, hkmean⟩ := repeatParam_ok hmean
  obtain ⟨keptVar, hkvar⟩ := repeatParam_ok hvar
  unfold InstanceNormContext.capture
  rw [hf.input, hf.weight, hkmean, hkvar]
  exact ⟨_, rfl⟩

/-- **A folded call passes its checks exactly if the call is foldable.** -/
theorem accepted_iff [Zero α] (hdims : args.input.dims = p.inputDims) :
    folded.Accepted tiled ↔ args.Foldable running := by
  obtain ⟨hmeans, hvars⟩ := hf.isSome_statistics
  have hstatistics : (folded.training = false → tiled.mean.isSome = true ∧ tiled.var.isSome = true)
      ↔ (args.training = false → running.mean.isSome = true ∧ running.var.isSome = true) := by
    rw [hf.training, hmeans, hvars]
  constructor
  · intro h
    refine ⟨rank_of_dims hdims, hstatistics.1 h.statistics, ?_⟩
    intro hbatch
    rw [headD_of_dims hdims] at hbatch
    exact hf.accepted_of_folded hdims hbatch h (hstatistics.1 h.statistics)
  · intro h
    obtain ⟨hweight, hbias, hmean, hvar⟩ := h.fits hdims
    refine ⟨hf.rank, ?_, ?_, ?_, ?_, hstatistics.2 h.statistics⟩ <;> rw [hf.channels]
    · exact (hweight.repeatParam_tiled hf.weight).onePerChannel
    · exact (hbias.repeatParam_tiled hf.bias).onePerChannel
    · exact (hmean.repeatParam_tiled hf.mean).onePerChannel
    · exact (hvar.repeatParam_tiled hf.var).onePerChannel

end InstanceNormPlan.FoldsTo

end

/-! ## §2. What becomes of a call. -/

/-- What a recorded call keeps: its plan, its input folded, its weight and the
running statistics it left tiled, and what it returned. -/
structure InstanceNormContext.Records (ctx : InstanceNormContext α A) (args : ForwardArgs α A)
    (left : ChannelStats α) (f : Forward α) : Prop where
  dims : args.input.dims = ctx.plan.inputDims
  input : ctx.plan.fold args.input = .ok ctx.foldedInput
  weight : ctx.plan.repeatParam args.weight = .ok ctx.weightTiled
  mean : ctx.plan.repeatParam left.mean = .ok ctx.runningTiled.mean
  var : ctx.plan.repeatParam left.var = .ok ctx.runningTiled.var
  saved : ctx.saved = f.saved
  backend : ctx.backend = f.backend
  training : ctx.training = args.training

section
variable [OrderedArith A] [Element α A] (ex : Executor) (registry : Registry α A) (enabled : Bool)
  {p : InstanceNormPlan} {args folded : ForwardArgs α A} {running tiled : ChannelStats α}

/-- A call that fails its checks is refused. -/
theorem batchNormForward_of_not_accepted (h : ¬ args.Accepted running) :
    ∃ e, batchNormForward ex registry enabled args running = .refused e running := by
  cases hfaults : args.faults "batch_norm" running with
  | nil => exact absurd (ForwardArgs.faults_eq_nil.1 hfaults) h
  | cons e more =>
      refine ⟨e, batchNormForward_refused ex registry enabled args running ?_⟩
      rw [hfaults]
      rfl

/-- With the statistics of its mode, a call is its folded call, finished. -/
theorem instanceNormForward_of_foldsTo (hdims : args.input.dims = p.inputDims)
    (hf : p.FoldsTo args running folded tiled)
    (hstatistics : args.training = false →
      running.mean.isSome = true ∧ running.var.isSome = true) :
    instanceNormForward ex registry enabled args running
      = p.finish running (batchNormForward ex registry enabled folded tiled) := by
  unfold instanceNormForward
  rw [statisticsMissing_eq_false.2 hstatistics, InstanceNormPlan.ofInput_ok hdims]
  simp only [InstanceNormPlan.foldCall_eq_ok.2 hf, Bool.false_eq_true, if_false]

/-- And it is refused where there is no folded call. -/
theorem instanceNormForward_of_foldCall_error {e : TensorError}
    (hdims : args.input.dims = p.inputDims) (he : p.foldCall args running = .error e)
    (hstatistics : args.training = false →
      running.mean.isSome = true ∧ running.var.isSome = true) :
    instanceNormForward ex registry enabled args running = .refused e running := by
  unfold instanceNormForward
  rw [statisticsMissing_eq_false.2 hstatistics, InstanceNormPlan.ofInput_ok hdims]
  simp only [he, Bool.false_eq_true, if_false]

/-- **A foldable call is its folded call, finished.** -/
theorem instanceNormForward_eq_finish (hdims : args.input.dims = p.inputDims)
    (hf : p.FoldsTo args running folded tiled) (h : args.Foldable running) :
    instanceNormForward ex registry enabled args running
      = p.finish running (batchNormForward ex registry enabled folded tiled) :=
  instanceNormForward_of_foldsTo ex registry enabled hdims hf h.statistics

/-- **Any other call is refused**, with the running statistics as they were. -/
theorem instanceNormForward_refused (h : ¬ args.Foldable running) :
    ∃ e, instanceNormForward ex registry enabled args running = .refused e running := by
  unfold instanceNormForward
  cases hstatistics : !args.training && (running.mean.isNone || running.var.isNone) with
  | true => exact ⟨_, rfl⟩
  | false =>
      cases hplan : InstanceNormPlan.ofInput args.input with
      | error e => exact ⟨e, rfl⟩
      | ok p =>
          have hdims := InstanceNormPlan.dims_of_ofInput hplan
          cases hcall : p.foldCall args running with
          | error e =>
              refine ⟨e, ?_⟩
              simp only [hcall]
              rfl
          | ok call =>
              obtain ⟨folded, tiled⟩ := call
              -- the folded call fails its checks, before anything runs
              have hf := InstanceNormPlan.foldCall_eq_ok.1 hcall
              have hnot : ¬ folded.Accepted tiled := by
                rwa [hf.accepted_iff hdims]
              obtain ⟨e, he⟩ := batchNormForward_of_not_accepted ex registry enabled hnot
              refine ⟨e, ?_⟩
              simp only [hcall, he]
              rfl

/-- Every call is one of the two. -/
theorem instanceNormForward_cases (args : ForwardArgs α A) (running : ChannelStats α) :
    (¬ args.Foldable running
        ∧ ∃ e, instanceNormForward ex registry enabled args running = .refused e running)
      ∨ args.Foldable running ∧ ∃ p folded tiled,
        args.input.dims = InstanceNormPlan.inputDims p ∧ p.FoldsTo args running folded tiled
          ∧ folded.Accepted tiled
          ∧ instanceNormForward ex registry enabled args running
            = p.finish running (batchNormForward ex registry enabled folded tiled) := by
  by_cases h : args.Foldable running
  · obtain ⟨p, hdims⟩ := InstanceNormPlan.exists_of_rank h.rank
    obtain ⟨folded, tiled, hf⟩ := h.exists_foldsTo hdims
    exact .inr ⟨h, p, folded, tiled, hdims, hf, (hf.accepted_iff hdims).2 h,
      instanceNormForward_eq_finish ex registry enabled hdims hf h⟩
  · exact .inl ⟨h, instanceNormForward_refused ex registry enabled h⟩

/-- Finishing puts nothing to work. -/
@[simp] theorem InstanceNormPlan.events_finish (p : InstanceNormPlan) (running : ChannelStats α)
    (call : Run α A (Forward α)) : (p.finish running call).events = call.events := by
  unfold finish
  split
  · rfl
  · split
    · rfl
    · split <;> rfl

@[simp] theorem InstanceNormPlan.invocations_finish (p : InstanceNormPlan)
    (running : ChannelStats α) (call : Run α A (Forward α)) :
    (p.finish running call).toLogged.invocations = call.toLogged.invocations := by
  unfold Logged.invocations
  rw [events_finish]

/-- A finished call returns what the folded call did, its output unfolded. -/
theorem InstanceNormPlan.finish_eq_ok {p : InstanceNormPlan} {call : Run α A (Forward α)}
    {forward : Forward α} (hok : (p.finish running call).result = .ok forward) :
    ∃ folded output, call.result = .ok folded ∧ p.unfold folded.output = .ok output
      ∧ forward = { folded with output } := by
  unfold finish at hok
  split at hok <;> try contradiction
  rename_i folded hcall
  split at hok <;> try contradiction
  split at hok <;> try contradiction
  dsimp only at hok
  cases hunfold : p.unfold folded.output with
  | error e =>
      rw [hunfold] at hok
      cases hok
  | ok output =>
      rw [hunfold] at hok
      cases hok
      exact ⟨folded, output, hcall, hunfold, rfl⟩

/-- In particular its tag is that of the folded call. -/
theorem InstanceNormPlan.result_finish {p : InstanceNormPlan} {call : Run α A (Forward α)}
    {forward : Forward α} (hok : (p.finish running call).result = .ok forward) :
    ∃ folded, call.result = .ok folded ∧ folded.backend = forward.backend := by
  obtain ⟨folded, output, hcall, _, rfl⟩ := finish_eq_ok hok
  exact ⟨folded, hcall, rfl⟩

/-- Recording a call changes neither what it puts to work nor the running
statistics it leaves. -/
theorem InstanceNormContext.run_forward (args : ForwardArgs α A) (running : ChannelStats α) :
    (InstanceNormContext.forward ex registry enabled args running).events
        = (instanceNormForward ex registry enabled args running).events
      ∧ (InstanceNormContext.forward ex registry enabled args running).running
        = (instanceNormForward ex registry enabled args running).running := by
  unfold InstanceNormContext.forward
  cases hplan : InstanceNormPlan.ofInput args.input with
  | ok p => exact ⟨rfl, rfl⟩
  | error e =>
      obtain ⟨e', he'⟩ := instanceNormForward_refused ex registry enabled
        (@InstanceNormPlan.not_foldable_of_ofInput α A args running e hplan)
      rw [he']
      exact ⟨rfl, rfl⟩

variable {ex registry enabled} in
theorem InstanceNormContext.records_of_forward {out : Tensor α} {ctx : InstanceNormContext α A}
    (hok : (InstanceNormContext.forward ex registry enabled args running).result
      = .ok (out, ctx)) :
    ∃ f, (instanceNormForward ex registry enabled args running).result = .ok f
      ∧ ctx.Records args (instanceNormForward ex registry enabled args running).running f := by
  unfold InstanceNormContext.forward at hok
  cases hplan : InstanceNormPlan.ofInput args.input with
  | error e =>
      rw [hplan] at hok
      cases hok
  | ok p =>
      rw [hplan] at hok
      dsimp only at hok
      obtain ⟨f, hf, hcapture⟩ := bind_eq_ok.1 hok
      unfold capture at hcapture
      simp only [bind_eq_ok] at hcapture
      obtain ⟨folded, hfolded, tiled, htiled, mean, hmean, var, hvar, ⟨⟩⟩ := hcapture
      exact ⟨f, hf, InstanceNormPlan.dims_of_ofInput hplan, hfolded, htiled, hmean, hvar,
        rfl, rfl, rfl⟩

variable {ex registry enabled} in
/-- A recorded call keeps its plan, its folded input, its tiled weight and the tag
of what it returned. -/
theorem InstanceNormContext.keeps {out : Tensor α} {ctx : InstanceNormContext α A}
    (hok : (InstanceNormContext.forward ex registry enabled args running).result
      = .ok (out, ctx)) :
    ∃ forward, (instanceNormForward ex registry enabled args running).result = .ok forward
      ∧ ctx.backend = forward.backend ∧ args.input.dims = ctx.plan.inputDims
      ∧ ctx.plan.fold args.input = .ok ctx.foldedInput
      ∧ ctx.plan.repeatParam args.weight = .ok ctx.weightTiled := by
  obtain ⟨f, hf, hrecords⟩ := records_of_forward hok
  exact ⟨f, hf, hrecords.backend, hrecords.dims, hrecords.input, hrecords.weight⟩

end

end ChannelNorm

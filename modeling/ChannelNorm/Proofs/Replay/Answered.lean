/-
  ChannelNorm.Proofs.Replay.Answered
  ──────────────────────────────────
  **RECORDED CALLS AND THE GRADIENTS THEY ANSWER.**

  A forward call that succeeded on the native implementation leaves a context
  whose backward has all it reads but the incoming gradient; which gradients are
  answered is a matter of their shape.

      batch      the input's shape, and no other
      instance   the input's number of elements, in whatever shape
      layer      what the plan folds and the parameters stretch to
      group      likewise; where there is no channel, no parameter gradient

  A gradient that is answered gives gradients of the shapes of input and
  parameters.
-/
import ChannelNorm.Proofs.Backend.Pairing
import ChannelNorm.Proofs.InstanceNorm.Evaluation
import ChannelNorm.Proofs.Replay.Recorded
import ChannelNorm.Scalar.Binary

namespace ChannelNorm

variable {α A : Type}

section
variable [OrderedArith A] [Element α A] {ex : Executor} {registry : Registry α A} {enabled : Bool}
  {args : ForwardArgs α A} {running : ChannelStats α}

/-! ## §1. Recorded batch normalizations. -/

omit [OrderedArith A] [Element α A] in
/-- The running statistics of an evaluation are there. -/
theorem ForwardArgs.Accepted.supplied (h : args.Accepted running) (ht : args.training = false) :
    Supplied args.input.channels running.mean ∧ Supplied args.input.channels running.var :=
  ⟨h.mean.supplied (h.statistics ht).1, h.var.supplied (h.statistics ht).2⟩

/-- The backward of a recorded batch normalization awaits a gradient. -/
theorem BatchNormContext.awaits_of_forward {out : Tensor α} {ctx : BatchNormContext α A}
    (hok : (BatchNormContext.forward ex registry enabled args running).result = .ok (out, ctx))
    (hnative : ctx.backend = .native) (g : Tensor α) (mask : GradMask) :
    ctx.input = args.input ∧ (ctx.backwardArgs g mask).Awaits := by
  obtain ⟨f, hf, rfl⟩ := BatchNormContext.eq_of_forward hok
  have haccepted := accepted_of_batchNormForward hf
  obtain ⟨hresult, hrunning⟩ := native_of_backend hf hnative
  refine ⟨rfl, .of_forward haccepted hresult rfl rfl rfl rfl fun ht => ?_⟩
  -- an evaluation leaves the running statistics it was given
  have hkept : (batchNormForward ex registry enabled args running).running = running :=
    hrunning.trans (nativeBatchNorm_inferred ex haccepted ht).2
  show Supplied _ (batchNormForward ex registry enabled args running).running.mean
    ∧ Supplied _ (batchNormForward ex registry enabled args running).running.var
  rw [hkept]
  exact haccepted.supplied ht

/-! ## §2. Recorded instance normalizations. -/

/-- Averaging copies keeps how many values a statistic has, and tiling what is
averaged supplies every sample. -/
theorem InstanceNormPlan.supplied_of_repeatParam {p : InstanceNormPlan}
    {param tiled : Option (Tensor α)} (hfits : p.Fits param) (hsome : param.isSome = true) {n : Nat}
    (htiled : p.repeatParam (param.map (·.averagedCopies n)) = .ok tiled) :
    Supplied (p.batch * p.channels) tiled := by
  obtain ⟨t, rfl⟩ := Option.isSome_iff_exists.1 hsome
  have hcopies : p.Fits (some (t.averagedCopies n)) := by
    intro hbatch u hu
    cases hu
    exact hfits hbatch t rfl
  have h := hcopies.repeatParam_tiled htiled
  exact h.onePerChannel.supplied h.isSome

/-- A native instance normalization saves what its folded call saves. -/
theorem exists_foldedCall {f : Forward α}
    (hok : (instanceNormForward ex registry enabled args running).result = .ok f)
    (hbackend : f.backend = .native) :
    args.Foldable running ∧ ∃ (p : InstanceNormPlan) (folded : ForwardArgs α A)
      (tiled : ChannelStats α) (returned : Forward α), args.input.dims = p.inputDims
        ∧ p.FoldsTo args running folded tiled ∧ folded.Accepted tiled
        ∧ (nativeBatchNorm ex folded tiled).result = .ok returned ∧ f.saved = returned.saved := by
  rcases instanceNormForward_cases ex registry enabled args running with
    ⟨_, e, he⟩ | ⟨hfoldable, p, folded, tiled, hdims, hfolds, haccepted, hcall⟩
  · rw [he] at hok
    cases hok
  · rw [hcall] at hok
    obtain ⟨returned, output, hreturned, _, rfl⟩ := InstanceNormPlan.finish_eq_ok hok
    exact ⟨hfoldable, p, folded, tiled, returned, hdims, hfolds, haccepted,
      (native_of_backend hreturned hbackend).1, rfl⟩

/-- The folded backward of a recorded instance normalization awaits a gradient. -/
theorem InstanceNormContext.awaits_of_forward {out : Tensor α} {ctx : InstanceNormContext α A}
    (hok : (InstanceNormContext.forward ex registry enabled args running).result
      = .ok (out, ctx)) (hnative : ctx.backend = .native) (foldedGrad : Tensor α)
    (mask : GradMask) :
    args.input.dims = ctx.plan.inputDims ∧ ctx.foldedInput.dims = ctx.plan.foldedDims
      ∧ (ctx.backwardArgs foldedGrad mask).Awaits := by
  obtain ⟨f, hf, hrecords⟩ := InstanceNormContext.records_of_forward hok
  have hbackend : f.backend = .native := hrecords.backend.symm.trans hnative
  obtain ⟨hfoldable, p, folded, tiled, returned, hdims, hfolds, haccepted, hresult, hsaved⟩ :=
    exists_foldedCall hf hbackend
  -- the plan of the context is that of the call
  obtain rfl : p = ctx.plan := Except.ok.inj
    ((InstanceNormPlan.ofInput_ok hdims).symm.trans (InstanceNormPlan.ofInput_ok hrecords.dims))
  have hinput : ctx.foldedInput = folded.input :=
    Except.ok.inj (hrecords.input.symm.trans hfolds.input)
  have hweight : ctx.weightTiled = folded.weight :=
    Except.ok.inj (hrecords.weight.symm.trans hfolds.weight)
  refine ⟨hdims, hinput ▸ hfolds.dims, .of_forward haccepted hresult hinput hweight
    (hrecords.training.trans hfolds.training.symm) (hrecords.saved.trans hsaved) fun ht => ?_⟩
  -- an evaluation replaced the running statistics by averages of copies
  rw [hfolds.training] at ht
  have hleft := running_instanceNormForward_evaluation ex registry enabled ht hf hbackend
  have hmean := hrecords.mean
  have hvar := hrecords.var
  rw [hleft] at hmean hvar
  obtain ⟨_, _, hfitsMean, hfitsVar⟩ := hfoldable.fits hdims
  rw [hfolds.channels]
  exact ⟨InstanceNormPlan.supplied_of_repeatParam hfitsMean (hfoldable.statistics ht).1 hmean,
    InstanceNormPlan.supplied_of_repeatParam hfitsVar (hfoldable.statistics ht).2 hvar⟩

end

/-! ## §3. Gradients that are answered. -/

/-- A call returns the gradients asked for, of the shapes of input and
parameters. -/
def Logged.ReturnsGradients (call : Logged α A (Gradients α)) (asked : GradMask)
    (input param : List Nat) : Prop :=
  ∃ grads, call.result = .ok grads ∧ grads.HasShapes asked input param

/-- A call returns such gradients where a condition holds, and fails elsewhere. -/
def Logged.AnswersWhen (call : Logged α A (Gradients α)) (condition : Prop) (asked : GradMask)
    (input param : List Nat) : Prop :=
  (condition → call.ReturnsGradients asked input param)
    ∧ (¬ condition → ∃ e, call.result = .error e)

theorem exists_error_of_not_ok {ρ : Type} {x : Except TensorError ρ} (h : ¬ ∃ r, x = .ok r) :
    ∃ e, x = .error e := by
  cases x with
  | error e => exact ⟨e, rfl⟩
  | ok r => exact absurd ⟨r, rfl⟩ h

/-- An operation on the gradient of one shape, if it is there, gives one of
another. -/
theorem exists_mapOptional {f : Tensor α → Except TensorError (Tensor α)}
    {o : Option (Tensor α)} {asked : Bool} {dims dims' : List Nat}
    (ho : o.map Tensor.dims = if asked then some dims else none)
    (hf : ∀ t, t.dims = dims → ∃ r, f t = .ok r ∧ r.dims = dims') :
    ∃ r, Tensor.mapOptional f o = .ok r
      ∧ r.map Tensor.dims = if asked then some dims' else none := by
  cases o with
  | none =>
      refine ⟨none, rfl, ?_⟩
      cases asked with
      | false => rfl
      | true => cases ho
  | some t =>
      cases asked with
      | false => cases ho
      | true =>
          obtain ⟨r, hr, hdims⟩ := hf t (Option.some.inj ho)
          refine ⟨some r, ?_, congrArg some hdims⟩
          show (f t).map some = .ok (some r)
          rw [hr]
          rfl

/-- A tiled gradient is summed to one value per channel. -/
theorem InstanceNormPlan.exists_sumParam [Add α] [Zero α] {p : InstanceNormPlan} {t : Tensor α}
    (ht : t.dims = [p.batch * p.channels]) : ∃ r, p.sumParam t = .ok r ∧ r.dims = [p.channels] := by
  have hcount : volume [p.batch, p.channels] = t.numel := by
    rw [volume_pair, Tensor.numel_of_dims_singleton ht]
  obtain ⟨rows, hrows, hdims, _⟩ := t.reshape_ok hcount p.addressable_samples
  refine ⟨rows.sumAxis 0, ?_, ?_⟩
  · unfold sumParam
    rw [hrows]
    rfl
  · rw [Tensor.dims_sumAxis, hdims]
    rfl

section
variable [OrderedArith A] [Element α A] {ex : Executor} {registry : Registry α A}
  {g : Tensor α} {mask : GradMask}

/-- Unfolding gives the gradients of a folded call the caller's shapes. -/
theorem InstanceNormContext.exists_unfoldGradients {p : InstanceNormPlan} {grads : Gradients α}
    (h : grads.HasShapes mask p.foldedDims [p.batch * p.channels]) :
    ∃ r, unfoldGradients p grads = .ok r ∧ r.HasShapes mask p.inputDims [p.channels] := by
  obtain ⟨input, hinput, hidims⟩ := exists_mapOptional h.input fun t ht => by
    obtain ⟨r, hr, hdims, _⟩ := p.unfold_ok ht
    exact ⟨r, hr, hdims⟩
  obtain ⟨weight, hweight, hwdims⟩ := exists_mapOptional h.weight fun t => p.exists_sumParam
  obtain ⟨bias, hbias, hbdims⟩ := exists_mapOptional h.bias fun t => p.exists_sumParam
  refine ⟨⟨input, weight, bias⟩, ?_, hidims, hwdims, hbdims⟩
  unfold unfoldGradients
  exact bind_eq_ok.2 ⟨input, hinput, bind_eq_ok.2 ⟨weight, hweight, bind_eq_ok.2
    ⟨bias, hbias, rfl⟩⟩⟩

section
variable {enabled : Bool} {ex' : Executor} {registry' : Registry α A} {out : Tensor α}

namespace BatchNormContext

variable {args : ForwardArgs α A} {running : ChannelStats α} {ctx : BatchNormContext α A}
  (hok : (BatchNormContext.forward ex registry enabled args running).result = .ok (out, ctx))
  (hnative : ctx.backend = .native)
include hok hnative

/-- **A recorded batch normalization answers a gradient of the input's shape.** -/
theorem returns_of_dims (hg : g.dims = args.input.dims) :
    (ctx.backward ex' registry' g mask).ReturnsGradients mask args.input.dims
      [args.input.channels] := by
  obtain ⟨hinput, hawaits⟩ := awaits_of_forward hok hnative g mask
  obtain ⟨grads, hgrads, hshapes⟩ := hawaits.answered (hg.trans (congrArg _ hinput.symm)) ex'
  rw [show (ctx.backwardArgs g mask).input = args.input from hinput] at hshapes
  refine ⟨grads, ?_, hshapes⟩
  unfold backward
  rw [hnative]
  exact hgrads

/-- **And no other.** -/
theorem refused_of_dims (hg : g.dims ≠ args.input.dims) :
    (ctx.backward ex' registry' g mask).result
      = .error (.gradientShape "native_batch_norm_backward" args.input.shape g.shape) := by
  obtain ⟨hinput, hawaits⟩ := awaits_of_forward hok hnative g mask
  have hrefused := nativeBatchNormBackward_refused hawaits.rank
    (fun h => hg (h.trans (congrArg _ hinput))) ex'
  rw [show (ctx.backwardArgs g mask).input = args.input from hinput] at hrefused
  unfold backward
  rw [hnative]
  exact hrefused

end BatchNormContext

namespace InstanceNormContext

variable {args : ForwardArgs α A} {running : ChannelStats α} {ctx : InstanceNormContext α A}
  (hok : (InstanceNormContext.forward ex registry enabled args running).result = .ok (out, ctx))
  (hnative : ctx.backend = .native)
include hok hnative

/-- **A recorded instance normalization answers a gradient of the input's size**,
whatever its shape: it is folded before its shape is looked at. -/
theorem returns_of_numel (hg : g.numel = args.input.numel) :
    (ctx.backward ex' registry' g mask).ReturnsGradients mask args.input.dims
      [args.input.channels] := by
  have hdims := (awaits_of_forward hok hnative g mask).1
  have hcount : volume ctx.plan.foldedDims = g.numel := by
    rw [ctx.plan.volume_foldedDims, ← hdims, hg]
    rfl
  obtain ⟨foldedGrad, hfold, hgdims, _⟩ := g.reshape_ok hcount ctx.plan.addressable_foldedDims
  obtain ⟨_, hfdims, hawaits⟩ := awaits_of_forward hok hnative foldedGrad mask
  obtain ⟨grads, hgrads, hshapes⟩ := hawaits.answered (hgdims.trans hfdims.symm) ex'
  have hchannels : ctx.foldedInput.channels = ctx.plan.batch * ctx.plan.channels :=
    Tensor.channels_of_cons hfdims
  rw [show (ctx.backwardArgs foldedGrad mask).input = ctx.foldedInput from rfl, hfdims,
    hchannels] at hshapes
  obtain ⟨r, hr, hrshapes⟩ := exists_unfoldGradients hshapes
  rw [hdims, InstanceNormPlan.channels_of_dims hdims]
  refine ⟨r, ?_, hrshapes⟩
  have hreplay : (batchNormBackward ex' registry' ctx.backend
      (ctx.backwardArgs foldedGrad mask)).result = .ok grads := by
    rw [hnative]
    exact hgrads
  unfold backward
  exact Logged.lift_bind_eq_ok.2 ⟨foldedGrad, hfold, Logged.bind_eq_ok.2 ⟨grads, hreplay, hr⟩⟩

/-- **And none of another size.** -/
theorem refused_of_numel (hg : g.numel ≠ args.input.numel) :
    (ctx.backward ex' registry' g mask).result
      = .error (.reshapeCount g.numel ctx.plan.foldedDims g.dims) := by
  have hdims := (awaits_of_forward hok hnative g mask).1
  have hcount : volume ctx.plan.foldedDims ≠ g.numel := by
    rw [ctx.plan.volume_foldedDims, ← hdims]
    exact hg.symm
  unfold backward
  rw [show ctx.plan.fold g = _ from g.reshape_error hcount]
  rfl

/-- A gradient of another shape is read in row-major order. -/
theorem backward_reshape {read : Tensor α} (hread : g.reshape args.input.dims = .ok read) :
    ctx.backward ex' registry' g mask = ctx.backward ex' registry' read mask := by
  have hdims := (awaits_of_forward hok hnative g mask).1
  have hcount : volume ctx.plan.foldedDims = g.numel := by
    rw [ctx.plan.volume_foldedDims, ← hdims]
    exact Tensor.volume_of_reshape hread
  have hfold : ctx.plan.fold read = ctx.plan.fold g := Tensor.reshape_reshape hread hcount
  unfold backward
  rw [hfold]

end InstanceNormContext

namespace BlockState.Records

variable {s : BlockState α A} {plan : BlockPlan α} {input : Tensor α}
  {weight bias : Option (Tensor α)} {folded param : List Nat} {sums : Prop}
  (h : s.Records plan input weight bias folded param sums) (ex : Executor)
  (registry : Registry α A) (mask : GradMask)
include h

omit [OrderedArith A] [Element α A] in
theorem asked_eq : s.asked mask = mask.present weight.isSome bias.isSome := by
  unfold asked
  rw [h.weight, h.hasBias]

omit [OrderedArith A] [Element α A] in
/-- A gradient of the input's shape is admitted where the plan can reduce. -/
theorem admits_of_dims (hg : g.dims = input.dims)
    (hsums : (mask.present weight.isSome bias.isSome).params = true → sums) :
    g.AdmittedFor (mask.present weight.isSome bias.isSome) s.weight input.dims sums := by
  rw [← h.asked_eq] at hsums ⊢
  exact h.replayable.admits hg hsums

/-- **A recorded block normalization answers what it admits**, and nothing else
where the input gradient is asked for or the gradient is of the input's size. -/
theorem answersWhen (hfits : mask.input = true ∨ g.numel = input.numel) :
    (s.backward ex registry plan g mask).AnswersWhen
      (g.AdmittedFor (mask.present weight.isSome bias.isSome) s.weight input.dims sums)
      (mask.present weight.isSome bias.isSome) input.dims param := by
  have hiff := exists_backward_iff h.fits h.replayable ex registry hfits
  rw [h.asked_eq] at hiff
  refine ⟨fun hg => ?_, fun hg => ?_⟩
  · obtain ⟨grads, hgrads⟩ := hiff.2 hg
    have hshapes := hasShapes_backward h.fits h.replayable ex registry hg.numel hgrads
    rw [h.asked_eq] at hshapes
    exact ⟨grads, hgrads, hshapes⟩
  · exact exists_error_of_not_ok fun hok => hg (hiff.1 hok)

end BlockState.Records

end

end

/-! ## §4. Every forward call is answered. -/

/-- A recorded call that names an implementation succeeded. -/
theorem exists_of_recorded {ρ σ τ : Type} {x : Except TensorError (ρ × σ)} {f : σ → τ} {v : τ}
    (h : x.toOption.map (fun r => f r.2) = some v) : ∃ r s, x = .ok (r, s) ∧ f s = v := by
  cases x with
  | error e => cases h
  | ok r => exact ⟨r.1, r.2, rfl, Option.some.inj h⟩

/-- **A recorded call answers every gradient of its input's shape, except that a
group normalization without channels has no parameter gradient.**  This holds
for any executors and registries, any mask, any layout of the gradient, and
dimensions of length zero.

A group normalization sums a gradient in planes whose size it leaves open, and
without channels there is nothing to infer it from. -/
theorem recorded_calls_answered [OrderedArith A] [Element α A] (ex ex' : Executor)
    (registry registry' : Registry α A) (enabled : Bool) (mask : GradMask) :
    (∀ (args : ForwardArgs α A) (running : ChannelStats α) (out : Tensor α)
        (ctx : BatchNormContext α A),
      (BatchNormContext.forward ex registry enabled args running).result = .ok (out, ctx) →
      ctx.backend = .native → ∀ g : Tensor α, g.dims = args.input.dims →
        (ctx.backward ex' registry' g mask).ReturnsGradients mask args.input.dims
          [args.input.channels])
    ∧ (∀ (args : ForwardArgs α A) (running : ChannelStats α) (out : Tensor α)
        (ctx : InstanceNormContext α A),
      (InstanceNormContext.forward ex registry enabled args running).result = .ok (out, ctx) →
      ctx.backend = .native → ∀ g : Tensor α, g.dims = args.input.dims →
        (ctx.backward ex' registry' g mask).ReturnsGradients mask args.input.dims
          [args.input.channels])
    ∧ (∀ (input : Tensor α) (row : List Nat) (weight bias : Option (Tensor α)) (eps : A)
        (out : Tensor α) (ctx : LayerNormContext α A),
      (LayerNormContext.forward ex registry enabled input row weight bias eps).result
        = .ok (out, ctx) →
      ∀ g : Tensor α, g.dims = input.dims →
        (ctx.backward ex' registry' g mask).ReturnsGradients
          (mask.present weight.isSome bias.isSome) input.dims row)
    ∧ ∀ (input : Tensor α) (numGroups : Nat) (weight bias : Option (Tensor α)) (eps : A)
        (out : Tensor α) (ctx : GroupNormContext α A),
      (GroupNormContext.forward ex registry enabled input numGroups weight bias eps).result
        = .ok (out, ctx) →
      let asked := mask.present weight.isSome bias.isSome
      ∀ g : Tensor α, g.dims = input.dims →
        (ctx.backward ex' registry' g mask).AnswersWhen
          (asked.params = true → 0 < input.channels) asked input.dims [input.channels] := by
  refine ⟨?batch, ?folded, ?layer, ?group⟩
  case batch =>
    intro args running out ctx hok hnative g hg
    exact BatchNormContext.returns_of_dims hok hnative hg
  case folded =>
    intro args running out ctx hok hnative g hg
    exact InstanceNormContext.returns_of_numel hok hnative (congrArg volume hg)
  case layer =>
    intro input row weight bias eps out ctx hok g hg
    obtain ⟨_, folded, hrecords⟩ := LayerNormContext.records_of_forward hok
    have hanswers := hrecords.answersWhen ex' registry' mask (.inr (congrArg volume hg))
    exact hanswers.1 (hrecords.admits_of_dims mask hg fun _ => trivial)
  case group =>
    intro input numGroups weight bias eps out ctx hok asked g hg
    obtain ⟨_, folded, hrecords⟩ := GroupNormContext.records_of_forward hok
    have hanswers := hrecords.answersWhen ex' registry' mask (.inr (congrArg volume hg))
    exact ⟨fun hsums => hanswers.1 (hrecords.admits_of_dims mask hg hsums),
      fun hstuck => hanswers.2 fun hadmitted => hstuck hadmitted.sums⟩

/-- An input without channels. -/
def noChannels : Tensor Float32 :=
  .fewRows 1 0 0

/-- A parameter of such an input. -/
def noValues : Tensor Float32 :=
  .few 0 0

/-- A training call on it. -/
def channellessCall : ForwardArgs Float32 Float where
  input := noChannels
  weight := some noValues
  bias := none
  training := true
  momentum := 0
  eps := 1

/-- Without channels the other normalizations return parameter gradients, which
are empty, and a group normalization fails on them. -/
theorem recorded_calls_answered_channelless :
    let ex : Executor := ⟨.standard, 4⟩
    (∃ out ctx, (BatchNormContext.forward ex .empty false channellessCall .none).result
        = .ok (out, ctx)
      ∧ (ctx.backward ex .empty noChannels .all).ReturnsGradients .all [1, 0] [0])
    ∧ (∃ out ctx, (InstanceNormContext.forward ex .empty false channellessCall .none).result
        = .ok (out, ctx)
      ∧ (ctx.backward ex .empty noChannels .all).ReturnsGradients .all [1, 0] [0])
    ∧ (∃ out ctx, (LayerNormContext.forward ex .empty false noChannels [0] (some noValues) none
          (1 : Float)).result = .ok (out, ctx)
      ∧ (ctx.backward ex .empty noChannels .all).ReturnsGradients ⟨true, true, false⟩ [1, 0] [0])
    ∧ ∃ out ctx, (GroupNormContext.forward ex .empty false noChannels 1 (some noValues) none
          (1 : Float)).result = .ok (out, ctx)
      ∧ (ctx.backward ex .empty noChannels ⟨true, false, true⟩).ReturnsGradients
        ⟨true, false, false⟩ [1, 0] [0]
      ∧ ∃ e, (ctx.backward ex .empty noChannels .all).result = .error e := by
  intro ex
  refine ⟨?batch, ?folded, ?layer, ?group⟩
  case batch =>
    obtain ⟨out, ctx, hok, hnative⟩ := exists_of_recorded (f := BatchNormContext.backend)
      (show (BatchNormContext.forward ex .empty false channellessCall .none).result.toOption.map
        _ = some .native from rfl)
    exact ⟨out, ctx, hok, (recorded_calls_answered ex ex .empty .empty false .all).1 _ _ out ctx hok
      hnative noChannels rfl⟩
  case folded =>
    obtain ⟨out, ctx, hok, hnative⟩ := exists_of_recorded (f := InstanceNormContext.backend)
      (show (InstanceNormContext.forward ex .empty false channellessCall .none).result.toOption.map
        _ = some .native from rfl)
    exact ⟨out, ctx, hok, (recorded_calls_answered ex ex .empty .empty false .all).2.1 _ _ out ctx
      hok hnative noChannels rfl⟩
  case layer =>
    obtain ⟨out, ctx, hok, _⟩ := exists_of_recorded (f := LayerNormContext.backend)
      (show (LayerNormContext.forward ex .empty false noChannels [0] (some noValues) none
          (1 : Float)).result.toOption.map _ = some .native from rfl)
    exact ⟨out, ctx, hok, (recorded_calls_answered ex ex .empty .empty false .all).2.2.1 _ _ _ _ _
      out ctx hok noChannels rfl⟩
  case group =>
    obtain ⟨out, ctx, hok, _⟩ := exists_of_recorded (f := GroupNormContext.backend)
      (show (GroupNormContext.forward ex .empty false noChannels 1 (some noValues) none
          (1 : Float)).result.toOption.map _ = some .native from rfl)
    refine ⟨out, ctx, hok, ?_, ?_⟩
    · exact ((recorded_calls_answered ex ex .empty .empty false ⟨true, false, true⟩).2.2.2 _ _ _ _ _
        out ctx hok noChannels rfl).1 nofun
    · exact ((recorded_calls_answered ex ex .empty .empty false .all).2.2.2 _ _ _ _ _
        out ctx hok noChannels rfl).2 fun h => absurd (h rfl) (Nat.lt_irrefl 0)

end ChannelNorm

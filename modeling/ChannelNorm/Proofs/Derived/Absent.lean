/-
  ChannelNorm.Proofs.Derived.Absent
  ─────────────────────────────────
  **FILLING IN ABSENT PARAMETERS OF RECORDED CALLS.**

  What `Proofs.BatchNorm.Absent` says of the native call holds of every call
  that puts no accelerator to work.

      batch, instance   the same result, and contexts that answer alike
      layer, group      the same result where one and zero are neutral

  The last two leave the affine part out when there are no parameters, so that
  here filling in adds steps: a product, a sum, and in the backward a product and
  two reductions.  A step that is added can fail, and what the backward answers
  with the parameters filled in it answers without them, but not conversely.
-/
import Mathlib
import ChannelNorm.Proofs.BatchNorm.Absent
import ChannelNorm.Proofs.InstanceNorm.Failure
import ChannelNorm.Proofs.Replay.Mask

namespace ChannelNorm

variable {α A : Type}

/-! ## §1. Calls with selection. -/

/-- Calls that go on alike from related checks. -/
theorem OutcomeRel.lift_bind_eq {ρ σ : Type} {R : ρ → ρ → Prop} {x y : Except TensorError ρ}
    (h : OutcomeRel R x y) {f g : ρ → Logged α A σ} (hfg : ∀ r s, R r s → f r = g s) :
    (liftM x : Logged α A ρ) >>= f = (liftM y : Logged α A ρ) >>= g := by
  cases h with
  | error e => rfl
  | @ok r s h =>
      show Logged.bind ⟨.ok r, []⟩ f = Logged.bind ⟨.ok s, []⟩ g
      unfold Logged.bind
      dsimp only
      rw [hfg r s h]

/-- Two calls return the same and leave the same running statistics, and where
they return it is the native implementation that ran. -/
structure Run.SameNative (call call' : Run α A (Forward α)) : Prop where
  result : call.result = call'.result
  running : call.running = call'.running
  native : ∀ f, call.result = .ok f → f.backend = .native

theorem Run.SameNative.of_refused (e : TensorError) (running : ChannelStats α) :
    (Run.refused e running : Run α A (Forward α)).SameNative (.refused e running) :=
  ⟨rfl, rfl, nofun⟩

variable [OrderedArith A] [Element α A]

section
variable {args args' : ForwardArgs α A} (h : args.FillsIn args')
include h

/-- One has the faults of the other. -/
theorem ForwardArgs.FillsIn.head?_faults (operation : String) (running : ChannelStats α) :
    (args.faults operation running).head? = (args'.faults operation running).head? := by
  obtain ⟨hweight, hbias, hrest⟩ := h
  have hagree := checkForward_fillsIn operation running hweight hbias
  rw [hrest]
  exact hagree.head?_faults (checkForward_reports _ _ _) (checkForward_reports _ _ _)

/-- One is accepted where the other is. -/
theorem ForwardArgs.FillsIn.accepted_iff (running : ChannelStats α) :
    args.Accepted running ↔ args'.Accepted running := by
  have hnone : ∀ call : ForwardArgs α A,
      call.Accepted running ↔ (call.faults "batch_norm" running).head? = none := fun call => by
    rw [List.head?_eq_none_iff, ForwardArgs.faults_eq_nil]
  rw [hnone args, hnone args', h.head?_faults]

/-- **A call with selection that puts no accelerator to work does not tell an
absent parameter from one filled in.** -/
theorem ForwardArgs.FillsIn.batchNormForward_same (ex : Executor) (registry : Registry α A)
    (enabled : Bool) (running : ChannelStats α)
    (hspares : (batchNormForward ex registry enabled args' running).toLogged.SparesAccelerators) :
    (batchNormForward ex registry enabled args running).SameNative
      (batchNormForward ex registry enabled args' running) := by
  cases hfaults : (args'.faults "batch_norm" running).head? with
  | some e =>
      have hrefused := batchNormForward_refused ex registry enabled args' running hfaults
      rw [← h.head?_faults] at hfaults
      rw [batchNormForward_refused ex registry enabled args running hfaults, hrefused]
      exact .of_refused e running
  | none =>
      have haccepted' := ForwardArgs.faults_eq_nil.1 (List.head?_eq_none_iff.1 hfaults)
      have haccepted := (h.accepted_iff running).2 haccepted'
      obtain ⟨_, hrunning', f, hnative', hresult'⟩ :=
        native_of_sparesAccelerators ex haccepted' hspares
      -- an accelerator would have taken both parameters, and then the calls are one
      obtain ⟨_, hrunning, g, hnative, hresult⟩ : Implementation.native.Ran ex args running
          (batchNormForward ex registry enabled args running) := by
        have hran := batchNormForward_ran ex registry enabled args running haccepted
        generalize Implementation.ofSelection _ = impl at hran
        cases impl with
        | native => exact hran
        | accelerator slot a =>
            obtain ⟨weight, bias, hweight, hbias, _⟩ := hran
            obtain rfl : args' = args :=
              h.eq_of_isSome (by rw [hweight]; rfl) (by rw [hbias]; rfl)
            exact native_of_sparesAccelerators ex haccepted' hspares
      rw [h.nativeBatchNorm_eq ex running] at hrunning hnative
      obtain rfl : f = g := Except.ok.inj (hnative'.symm.trans hnative)
      refine ⟨hresult.trans hresult'.symm, hrunning.trans hrunning'.symm, fun k hk => ?_⟩
      obtain rfl : f = k := Except.ok.inj (hresult.symm.trans hk)
      exact backend_nativeBatchNorm hnative

end

/-- Two backwards answer alike: every incoming gradient, under every mask. -/
def AnswerAlike (answer answer' : Tensor α → GradMask → Logged α A (Gradients α)) : Prop :=
  ∀ g mask, (answer g mask).result = (answer' g mask).result

/-- **Recorded batch normalizations without and with the parameters answer
alike.** -/
theorem ForwardArgs.FillsIn.batchContexts {args args' : ForwardArgs α A} (h : args.FillsIn args')
    (ex ex' : Executor) (registry registry' : Registry α A) (enabled : Bool)
    (running : ChannelStats α)
    (hspares : (batchNormForward ex registry enabled args' running).toLogged.SparesAccelerators) :
    OutcomeRel (fun r r' => r.1 = r'.1
        ∧ AnswerAlike (r.2.backward ex' registry') (r'.2.backward ex' registry'))
      (BatchNormContext.forward ex registry enabled args running).result
      (BatchNormContext.forward ex registry enabled args' running).result := by
  have hsame := h.batchNormForward_same ex registry enabled running hspares
  obtain ⟨hweight, hbias, hrest⟩ := h
  unfold BatchNormContext.forward
  refine OutcomeRel.map (R := fun f f' => f = f' ∧ f.backend = .native) ?_ ?_
  · rw [← hsame.result]
    cases hcall : (batchNormForward ex registry enabled args running).result with
    | error e => exact .error e
    | ok f => exact .ok ⟨rfl, hsame.native f hcall⟩
  · rintro f _ ⟨rfl, hnative⟩
    refine ⟨rfl, fun g mask => ?_⟩
    unfold BatchNormContext.backward
    dsimp only
    rw [hnative, hsame.running, hrest]
    exact FillsIn.nativeBatchNormBackward_eq hweight ex'

/-! ## §2. Instance normalization. -/

namespace InstanceNormPlan

variable {p : InstanceNormPlan}

/-- Finishing looks at the result of the folded call and the statistics it left. -/
theorem finish_same (running : ChannelStats α) {call call' : Run α A (Forward α)}
    (h : call.SameNative call') :
    (p.finish running call).SameNative (p.finish running call') := by
  have hboth : (p.finish running call).result = (p.finish running call').result
      ∧ (p.finish running call).running = (p.finish running call').running := by
    unfold finish
    rw [h.result, h.running]
    cases call'.result with
    | error e => exact ⟨rfl, rfl⟩
    | ok f =>
        cases p.writeBack running.mean call'.running.mean with
        | error e => exact ⟨rfl, rfl⟩
        | ok mean =>
            cases p.writeBack running.var call'.running.var with
            | error e => exact ⟨rfl, rfl⟩
            | ok var => exact ⟨rfl, rfl⟩
  refine ⟨hboth.1, hboth.2, fun f hf => ?_⟩
  obtain ⟨folded, hfolded, hbackend⟩ := result_finish hf
  rw [← hbackend]
  exact h.native folded hfolded

omit [OrderedArith A] [Element α A] in
/-- One value per channel tiled is one value per sample and channel. -/
theorem repeatParam_fillsIn {value : α} {param param' : Option (Tensor α)}
    (h : FillsIn (volume · = p.channels) value param param') :
    OutcomeRel (FillsIn (volume · = p.batch * p.channels) value) (p.repeatParam param)
      (p.repeatParam param') := by
  refine h.mapOptional fun t hfits hconst => ?_
  have hnumel : t.numel = p.channels := hfits
  obtain ⟨r, hr⟩ := tileParam_ok hnumel
  refine ⟨r, hr, ?_, ?_⟩
  · show r.numel = _
    rw [(tileParam_eq hr).1, hnumel]
  · obtain ⟨flat, hflat, htile⟩ := bind_eq_ok.1 hr
    exact (hconst.reshape hflat).tile htile

/-- **A call folds without the parameters as it does with them.** -/
theorem foldCall_fillsIn {args args' : ForwardArgs α A} (h : args.FillsIn args')
    (hdims : args.input.dims = p.inputDims) (running : ChannelStats α) :
    OutcomeRel (fun call call' => call.1.FillsIn call'.1 ∧ call.2 = call'.2)
      (p.foldCall args running) (p.foldCall args' running) := by
  obtain ⟨hweight, hbias, hrest⟩ := h
  rw [channels_of_dims hdims] at hweight hbias
  unfold foldCall
  rw [hrest]
  refine (repeatParam_fillsIn hweight).bind fun weight weight' hw => ?_
  refine (repeatParam_fillsIn hbias).bind fun bias bias' hb => ?_
  refine .bind_self _ fun mean _ => .bind_self _ fun var _ => .bind_self _ fun input hinput => ?_
  have hchannels : input.channels = p.batch * p.channels :=
    Tensor.channels_of_cons (Tensor.dims_reshape hinput)
  rw [← hchannels] at hw hb
  exact .ok ⟨⟨hw, hb, rfl⟩, rfl⟩

end InstanceNormPlan

section
variable {args args' : ForwardArgs α A} (h : args.FillsIn args') (ex : Executor)
  (registry : Registry α A) (enabled : Bool) (running : ChannelStats α)
  (hspares : (instanceNormForward ex registry enabled args' running).toLogged.SparesAccelerators)
include h hspares

/-- **An instance normalization that puts no accelerator to work does not tell an
absent parameter from one filled in.** -/
theorem ForwardArgs.FillsIn.instanceNormForward_same :
    (instanceNormForward ex registry enabled args running).SameNative
      (instanceNormForward ex registry enabled args' running) := by
  have htraining : args'.training = args.training := by rw [h.rest]
  have hinput : args'.input = args.input := by rw [h.rest]
  unfold instanceNormForward at hspares ⊢
  rw [htraining, hinput] at hspares ⊢
  cases hstatistics : !args.training && (running.mean.isNone || running.var.isNone) with
  | true => exact .of_refused _ running
  | false =>
      cases hplan : InstanceNormPlan.ofInput args.input with
      | error e => exact .of_refused e running
      | ok p =>
          have hfold := InstanceNormPlan.foldCall_fillsIn h
            (InstanceNormPlan.dims_of_ofInput hplan) running
          rw [hstatistics, hplan] at hspares
          dsimp only at hspares ⊢
          generalize p.foldCall args running = folded at hfold ⊢
          generalize p.foldCall args' running = folded' at hfold hspares ⊢
          cases hfold with
          | error e => exact .of_refused e running
          | @ok call call' hcalls =>
              obtain ⟨hcall, htiled⟩ := hcalls
              have hfinished : (p.finish running
                  (batchNormForward ex registry enabled call'.1
                    call'.2)).toLogged.SparesAccelerators := hspares
              unfold Logged.SparesAccelerators at hfinished
              rw [InstanceNormPlan.invocations_finish] at hfinished
              dsimp only
              rw [htiled]
              exact InstanceNormPlan.finish_same running
                (hcall.batchNormForward_same ex registry enabled call'.2 hfinished)

/-- **Recorded instance normalizations without and with the parameters answer
alike.** -/
theorem ForwardArgs.FillsIn.instanceContexts (ex' : Executor) (registry' : Registry α A) :
    OutcomeRel (fun r r' => r.1 = r'.1
        ∧ AnswerAlike (r.2.backward ex' registry') (r'.2.backward ex' registry'))
      (InstanceNormContext.forward ex registry enabled args running).result
      (InstanceNormContext.forward ex registry enabled args' running).result := by
  have hsame := h.instanceNormForward_same ex registry enabled running hspares
  obtain ⟨hweight, hbias, hrest⟩ := h
  have hinput : args'.input = args.input := by rw [hrest]
  unfold InstanceNormContext.forward
  rw [hinput]
  cases hplan : InstanceNormPlan.ofInput args.input with
  | error e => exact .error e
  | ok p =>
      rw [InstanceNormPlan.channels_of_dims (InstanceNormPlan.dims_of_ofInput hplan)] at hweight
      dsimp only
      rw [← hsame.result, ← hsame.running]
      refine .bind_self _ fun f hf => ?_
      unfold InstanceNormContext.capture
      rw [hrest]
      refine .bind_self _ fun folded hfold => ?_
      refine (InstanceNormPlan.repeatParam_fillsIn hweight).bind fun weight weight' hw => ?_
      refine .bind_self _ fun mean _ => .bind_self _ fun var _ => .ok ⟨rfl, ?_⟩
      intro g mask
      have hchannels : folded.channels = p.batch * p.channels :=
        Tensor.channels_of_cons (Tensor.dims_reshape hfold)
      rw [← hchannels] at hw
      unfold InstanceNormContext.backward
      dsimp only
      rw [hsame.native f hf]
      simp only [Logged.result_of_bind]
      congr 1
      funext foldedGrad
      congr 1
      exact FillsIn.nativeBatchNormBackward_eq hw ex'

end

/-! ## §3. The affine part of a block normalization. -/

namespace FillsIn

variable {fits fits' : List Nat → Prop} {value : α} {p q : Option (Tensor α)}

theorem mono (h : FillsIn fits value p q) (hfits : ∀ dims, fits dims → fits' dims) :
    FillsIn fits' value p q := by
  cases h with
  | kept p => exact .kept p
  | filled hdims hconst => exact .filled (hfits _ hdims) hconst

/-- Combining with what was filled in changes nothing. -/
theorem combine_eq {t : Tensor α} {f : α → α → α} (hneutral : ∀ x, f x value = x)
    (h : FillsIn (Broadcastable · t.dims) value p q) : t.combine f p = t.combine f q := by
  cases h with
  | kept p => rfl
  | filled hdims hconst => exact (hconst.combine_eq_self hneutral hdims).symm

/-- What scaling by the parameters filled in returns, it returns without them. -/
theorem affine_of_ok (hone : ∀ x : α, x * 1 = x) (h : FillsIn fits 1 p q) {g r : Tensor α}
    (hok : g.affine q none = .ok r) : g.affine p none = .ok r := by
  cases h with
  | kept p => exact hok
  | @filled t _ hconst =>
      have hstretch : Broadcastable t.dims g.contiguous.dims := by
        rw [g.dims_contiguous]
        exact (Tensor.exists_affine_iff.1 ⟨r, hok⟩).1 t rfl
      have hcombine : g.contiguous.combine (· * ·) none = g.contiguous.combine (· * ·) (some t) :=
        combine_eq hone (.filled hstretch hconst)
      unfold Tensor.affine at hok ⊢
      rw [hcombine]
      exact hok

end FillsIn

/-- **Where one and zero are neutral, the affine part does not tell an absent
parameter from one filled in**, whether it is carried out or left out. -/
theorem applyAffine_fillsIn (hone : ∀ x : α, x * 1 = x) (hzero : ∀ x : α, x + 0 = x)
    {t : Tensor α} (hcontiguous : t.isContiguous = true)
    {weight weight' bias bias' : Option (Tensor α)}
    (hweight : FillsIn (Broadcastable · t.dims) 1 weight weight')
    (hbias : FillsIn (Broadcastable · t.dims) 0 bias bias') :
    applyAffine t weight bias = applyAffine t weight' bias' := by
  -- without parameters a contiguous tensor is its own copy
  have hcarried : ∀ w b : Option (Tensor α), applyAffine t w b = t.affine w b := by
    intro w b
    unfold applyAffine
    split
    · unfold Tensor.affine
      rw [Tensor.contiguous_eq_self hcontiguous]
      rfl
    · rfl
  have hscaled : t.contiguous.combine (· * ·) weight = t.contiguous.combine (· * ·) weight' := by
    refine FillsIn.combine_eq hone ?_
    rwa [t.dims_contiguous]
  rw [hcarried, hcarried]
  unfold Tensor.affine
  rw [← hscaled]
  cases hcombine : t.contiguous.combine (· * ·) weight with
  | error e => rfl
  | ok scaled =>
      refine FillsIn.combine_eq (t := scaled) hzero ?_
      rwa [Tensor.dims_combine hcombine, t.dims_contiguous]

/-! ## §4. Plans. -/

/-- A row of parameters filled in passes the check. -/
theorem LayerNormPlan.ofInput_fillsIn {input : Tensor α} {row : List Nat}
    {weight weight' bias bias' : Option (Tensor α)} (hweight : FillsIn (· = row) 1 weight weight')
    (hbias : FillsIn (· = row) 0 bias bias') :
    ofInput input row weight bias = ofInput input row weight' bias' := by
  have hparam : ∀ (name : String) {value : α} {p q : Option (Tensor α)},
      FillsIn (· = row) value p q → checkParam name row p = checkParam name row q := by
    intro name value p q h
    cases h with
    | kept p => rfl
    | filled hdims _ => exact (if_pos hdims).symm
  unfold ofInput
  rw [hparam "weight" hweight, hparam "bias" hbias]

/-- So does a vector of one value per channel. -/
theorem GroupNormPlan.ofInput_fillsIn {input : Tensor α} {numGroups : Nat}
    {weight weight' bias bias' : Option (Tensor α)}
    (hweight : FillsIn (· = [input.channels]) 1 weight weight')
    (hbias : FillsIn (· = [input.channels]) 0 bias bias') :
    ofInput input numGroups weight bias = ofInput input numGroups weight' bias' := by
  have hparam : ∀ (name : String) {channels : Nat} {value : α} {p q : Option (Tensor α)},
      FillsIn (· = [channels]) value p q →
        checkParam name channels p = checkParam name channels q := by
    intro name channels value p q h
    cases h with
    | kept p => rfl
    | @filled t hdims _ =>
        exact (if_pos ⟨congrArg List.length hdims, Tensor.numel_of_dims_singleton hdims⟩).symm
  unfold ofInput
  split
  · next N C spatial hdims =>
      rw [Tensor.channels_of_cons hdims] at hweight hbias
      rw [hparam "weight" hweight, hparam "bias" hbias]
  · rfl

/-- A parameter filled in is stretched over its channels like any other. -/
theorem GroupNormPlan.broadcastParam_fillsIn [Zero α] {N C G : Nat} {spatial : List Nat}
    {value : α} {param param' : Option (Tensor α)} (h : FillsIn (· = [C]) value param param') :
    OutcomeRel (FillsIn (Broadcastable · (N :: C :: spatial)) value)
      (broadcastParam ⟨N, C, spatial, G⟩ param) (broadcastParam ⟨N, C, spatial, G⟩ param') := by
  refine h.mapOptional fun t hdims hconst => ?_
  have hparam : ∀ u, some t = some u → u.dims = [C] := fun u hu => Option.some.inj hu ▸ hdims
  obtain ⟨q, hq, _, _, hstretch⟩ := broadcastParam_ok N G spatial hparam
  replace hq : (t.reshape (affineShape ⟨N, C, spatial, G⟩)).map some = .ok q := hq
  cases hr : t.reshape (affineShape ⟨N, C, spatial, G⟩) with
  | error e =>
      rw [hr] at hq
      cases hq
  | ok r =>
      rw [hr] at hq
      cases hq
      exact ⟨r, rfl, (hstretch r rfl).broadcastable, hconst.reshape hr⟩

/-! ## §5. Block normalizations. -/

section
variable (hone : ∀ x : α, x * 1 = x) (hzero : ∀ x : α, x + 0 = x) (ex : Executor)
  (registry : Registry α A) (enabled : Bool) (input : Tensor α) (eps : A)
include hone hzero

/-- **Layer normalization does not tell an absent parameter from one filled in.** -/
theorem layerNormForward_fillsIn {row : List Nat} {weight weight' bias bias' : Option (Tensor α)}
    (hweight : FillsIn (· = row) 1 weight weight') (hbias : FillsIn (· = row) 0 bias bias') :
    layerNormForward ex registry enabled input row weight bias eps
      = layerNormForward ex registry enabled input row weight' bias' eps := by
  unfold layerNormForward
  rw [← LayerNormPlan.ofInput_fillsIn hweight hbias]
  refine Logged.bind_congr fun plan hplan => Logged.bind_congr fun folded _ =>
    Logged.bind_congr fun forward _ => Logged.bind_congr fun normalized hunfold => ?_
  obtain ⟨_, _, _, leading, _, rfl⟩ := LayerNormPlan.ofInput_eq_ok.1 hplan
  have hreshape : forward.output.reshape (leading ++ row) = .ok normalized := hunfold
  have hrow : Broadcastable row normalized.dims := by
    rw [Tensor.dims_reshape hreshape]
    exact broadcastable_append leading row
  rw [applyAffine_fillsIn hone hzero (Tensor.isContiguous_reshape hreshape)
    (hweight.mono fun _ hdims => hdims ▸ hrow) (hbias.mono fun _ hdims => hdims ▸ hrow)]

/-- **Nor does group normalization.** -/
theorem groupNormForward_fillsIn {numGroups : Nat} {weight weight' bias bias' : Option (Tensor α)}
    (hweight : FillsIn (· = [input.channels]) 1 weight weight')
    (hbias : FillsIn (· = [input.channels]) 0 bias bias') :
    groupNormForward ex registry enabled input numGroups weight bias eps
      = groupNormForward ex registry enabled input numGroups weight' bias' eps := by
  unfold groupNormForward
  rw [← GroupNormPlan.ofInput_fillsIn hweight hbias]
  refine Logged.bind_congr fun plan hplan => Logged.bind_congr fun folded _ =>
    Logged.bind_congr fun forward _ => Logged.bind_congr fun normalized hunfold => ?_
  obtain ⟨N, C, spatial, hdims, rfl, _⟩ := GroupNormPlan.ofInput_eq_ok.1 hplan
  rw [Tensor.channels_of_cons hdims] at hweight hbias
  have hreshape : forward.output.reshape (N :: C :: spatial) = .ok normalized := hunfold
  refine (GroupNormPlan.broadcastParam_fillsIn hweight).lift_bind_eq fun w w' hw =>
    (GroupNormPlan.broadcastParam_fillsIn hbias).lift_bind_eq fun b b' hb => ?_
  rw [← Tensor.dims_reshape hreshape] at hw hb
  rw [applyAffine_fillsIn hone hzero (Tensor.isContiguous_reshape hreshape) hw hb]

end

/-- A recorded state with its absent parameters filled in. -/
structure BlockState.FillsIn (s s' : BlockState α A) : Prop where
  weight : ∃ fits, ChannelNorm.FillsIn fits 1 s.weight s'.weight
  hasBias : s.hasBias = true → s'.hasBias = true
  rest : s' = { s with weight := s'.weight, hasBias := s'.hasBias }

/-- **What a recorded state answers with the parameters filled in it answers
without them**, the gradients of those that were absent left out. -/
theorem BlockState.FillsIn.backward_eq_ok {s s' : BlockState α A} (h : s.FillsIn s')
    (hone : ∀ x : α, x * 1 = x) {ex : Executor} {registry : Registry α A} {plan : BlockPlan α}
    {g : Tensor α} {mask : GradMask} {grads : Gradients α}
    (hok : (s'.backward ex registry plan g mask).result = .ok grads) :
    (s.backward ex registry plan g mask).result
      = .ok (grads.masked ⟨true, s.weight.isSome, s.hasBias⟩) := by
  obtain ⟨⟨fits, hweight⟩, hbias, hrest⟩ := h
  obtain ⟨hinput, hdweight, hdbias⟩ := BlockState.backward_eq_ok_iff.1 hok
  rw [Gradients.masked_eq]
  refine BlockState.backward_eq_ok_iff.2 ⟨?input, ?weight, ?bias⟩
  case input =>
    show _ = Except.ok grads.input
    cases hasked : mask.input with
    | false =>
        rw [hasked, if_neg Bool.false_ne_true] at hinput
        rw [if_neg Bool.false_ne_true]
        exact hinput
    | true =>
        rw [hasked] at hinput
        replace hinput : (s'.inputGradient ex registry plan g).result = .ok grads.input := hinput
        show (s.inputGradient ex registry plan g).result = .ok grads.input
        rw [hrest] at hinput
        unfold BlockState.inputGradient at hinput ⊢
        obtain ⟨weighted, hweighted, hinput⟩ := Logged.lift_bind_eq_ok.1 hinput
        exact Logged.lift_bind_eq_ok.2 ⟨weighted, hweight.affine_of_ok hone hweighted, hinput⟩
  case weight =>
    show _ = Except.ok (if s.weight.isSome then grads.weight else none)
    unfold BlockState.asked GradMask.present at hdweight ⊢
    dsimp only at hdweight ⊢
    cases hsome : s.weight.isSome with
    | false =>
        rw [Bool.and_false]
        rfl
    | true =>
        -- a weight that was there is the same in both
        rw [hweight.eq_of_isSome hsome, hsome, hrest] at hdweight
        exact hdweight
  case bias =>
    show _ = Except.ok (if s.hasBias then grads.bias else none)
    unfold BlockState.asked GradMask.present at hdbias ⊢
    dsimp only at hdbias ⊢
    cases hsome : s.hasBias with
    | false =>
        rw [Bool.and_false]
        rfl
    | true =>
        rw [hbias hsome] at hdbias
        exact hdbias

/-- How a backward without parameters compares with the one that has them filled
in, for an input of dimensions `dims`: it answers what that one answers, less the
gradients of what is absent, and that one answers the gradients of the input's
shape exactly where the parameter gradients asked for can be summed. -/
structure AnswersLess (answer answer' : Tensor α → GradMask → Logged α A (Gradients α))
    (weight weight' bias bias' : Option (Tensor α)) (dims : List Nat) (sums : Prop) : Prop where
  less : ∀ g mask grads, (answer' g mask).result = .ok grads →
    (answer g mask).result = .ok (grads.masked ⟨true, weight.isSome, bias.isSome⟩)
  answered : ∀ g mask, g.dims = dims →
    ((∃ grads, (answer' g mask).result = .ok grads)
      ↔ ((mask.present weight'.isSome bias'.isSome).params = true → sums))

section
variable {s s' : BlockState α A} {plan : BlockPlan α} {input : Tensor α}
  {weight weight' bias bias' : Option (Tensor α)} {folded folded' param : List Nat} {sums : Prop}

/-- Which gradients of the input's shape a recorded state answers. -/
theorem BlockState.Records.exists_backward_iff
    (h : s.Records plan input weight bias folded param sums) (ex : Executor)
    (registry : Registry α A) {g : Tensor α} {mask : GradMask} (hg : g.dims = input.dims) :
    (∃ grads, (s.backward ex registry plan g mask).result = .ok grads)
      ↔ ((mask.present weight.isSome bias.isSome).params = true → sums) := by
  have hnumel : g.numel = volume input.dims := congrArg volume hg
  rw [BlockState.exists_backward_iff h.fits h.replayable ex registry (.inr hnumel), h.asked_eq]
  exact ⟨fun hadmitted => hadmitted.sums, h.admits_of_dims mask hg⟩

theorem BlockState.FillsIn.answersLess (h : s.FillsIn s') (hone : ∀ x : α, x * 1 = x)
    (hs : s.Records plan input weight bias folded param sums)
    (hs' : s'.Records plan input weight' bias' folded' param sums) (ex : Executor)
    (registry : Registry α A) :
    AnswersLess (s.backward ex registry plan) (s'.backward ex registry plan) weight weight' bias
      bias' input.dims sums := by
  refine ⟨fun g mask grads hok => ?_, fun g mask hg => hs'.exists_backward_iff ex registry hg⟩
  rw [← hs.weight, ← hs.hasBias]
  exact h.backward_eq_ok hone hok

end

section
variable (hone : ∀ x : α, x * 1 = x) (hzero : ∀ x : α, x + 0 = x) (ex ex' : Executor)
  (registry registry' : Registry α A) (enabled : Bool) (input : Tensor α) (eps : A)
include hone hzero

/-- **Recorded layer normalizations without and with the parameters.** -/
theorem layerContexts_fillsIn {row : List Nat} {weight weight' bias bias' : Option (Tensor α)}
    (hweight : FillsIn (· = row) 1 weight weight') (hbias : FillsIn (· = row) 0 bias bias') :
    OutcomeRel (fun r r' => r.1 = r'.1
        ∧ AnswersLess (r.2.backward ex' registry') (r'.2.backward ex' registry') weight weight' bias
          bias' input.dims True)
      (LayerNormContext.forward ex registry enabled input row weight bias eps).result
      (LayerNormContext.forward ex registry enabled input row weight' bias' eps).result := by
  have hstates : OutcomeRel (fun r r' : Tensor α × LayerNormContext α A =>
        r.1 = r'.1 ∧ r.2.plan = r'.2.plan ∧ r.2.state.FillsIn r'.2.state)
      (LayerNormContext.forward ex registry enabled input row weight bias eps).result
      (LayerNormContext.forward ex registry enabled input row weight' bias' eps).result := by
    unfold LayerNormContext.forward
    rw [← LayerNormPlan.ofInput_fillsIn hweight hbias,
      ← layerNormForward_fillsIn hone hzero ex registry enabled input eps hweight hbias]
    simp only [Logged.result_of_bind]
    exact .bind_self _ fun plan _ => .bind_self _ fun f _ =>
      .ok ⟨rfl, rfl, ⟨_, hweight⟩, hbias.isSome, rfl⟩
  refine hstates.mono fun r r' hok hok' hfills => ?_
  obtain ⟨hout, hplan, hstate⟩ := hfills
  obtain ⟨_, _, hs⟩ := LayerNormContext.records_of_forward hok
  obtain ⟨_, _, hs'⟩ := LayerNormContext.records_of_forward hok'
  rw [← hplan] at hs'
  refine ⟨hout, ?_⟩
  unfold LayerNormContext.backward
  rw [← hplan]
  exact hstate.answersLess hone hs hs' ex' registry'

/-- **Recorded group normalizations without and with the parameters.** -/
theorem groupContexts_fillsIn {numGroups : Nat} {weight weight' bias bias' : Option (Tensor α)}
    (hweight : FillsIn (· = [input.channels]) 1 weight weight')
    (hbias : FillsIn (· = [input.channels]) 0 bias bias') :
    OutcomeRel (fun r r' => r.1 = r'.1
        ∧ AnswersLess (r.2.backward ex' registry') (r'.2.backward ex' registry') weight weight' bias
          bias' input.dims (0 < input.channels))
      (GroupNormContext.forward ex registry enabled input numGroups weight bias eps).result
      (GroupNormContext.forward ex registry enabled input numGroups weight' bias' eps).result := by
  have hstates : OutcomeRel (fun r r' : Tensor α × GroupNormContext α A =>
        r.1 = r'.1 ∧ r.2.plan = r'.2.plan ∧ r.2.state.FillsIn r'.2.state)
      (GroupNormContext.forward ex registry enabled input numGroups weight bias eps).result
      (GroupNormContext.forward ex registry enabled input numGroups weight' bias' eps).result := by
    unfold GroupNormContext.forward
    rw [← GroupNormPlan.ofInput_fillsIn hweight hbias,
      ← groupNormForward_fillsIn hone hzero ex registry enabled input eps hweight hbias]
    simp only [Logged.result_of_bind]
    refine .bind_self _ fun plan hplan => .bind_self _ fun f _ => ?_
    obtain ⟨N, C, spatial, hdims, rfl, _⟩ := GroupNormPlan.ofInput_eq_ok.1 hplan
    rw [Tensor.channels_of_cons hdims] at hweight
    exact (GroupNormPlan.broadcastParam_fillsIn hweight).bind fun w w' hw =>
      .ok ⟨rfl, rfl, ⟨_, hw⟩, hbias.isSome, rfl⟩
  refine hstates.mono fun r r' hok hok' hfills => ?_
  obtain ⟨hout, hplan, hstate⟩ := hfills
  obtain ⟨_, _, hs⟩ := GroupNormContext.records_of_forward hok
  obtain ⟨_, _, hs'⟩ := GroupNormContext.records_of_forward hok'
  rw [← hplan] at hs'
  refine ⟨hout, ?_⟩
  unfold GroupNormContext.backward
  rw [← hplan]
  exact hstate.answersLess hone hs hs' ex' registry'

end

/-! ## §6. All calls. -/

/-- **A missing affine parameter is an identity parameter.**  Constant contiguous
tensors, of ones for an absent weight and of zeros for an absent bias, change
neither result nor running statistics of any call, whatever is absent.

Batch and instance normalization need no law of arithmetic for this where no
accelerator is put to work, and their contexts answer every gradient alike.
Layer and group normalization need that one and zero are neutral on the right.
Their contexts answer without the parameters whatever they answer with them, the
same gradients less those of what is absent; and with them every gradient of the
input's shape, except that a group normalization without channels has no
parameter gradient. -/
theorem absent_parameters_are_identities (ex ex' : Executor) (registry registry' : Registry α A)
    (enabled : Bool) :
    (∀ (args args' : ForwardArgs α A) (running : ChannelStats α), args.FillsIn args' →
      nativeBatchNorm ex args running = nativeBatchNorm ex args' running
      ∧ ((batchNormForward ex registry enabled args' running).toLogged.SparesAccelerators →
        (batchNormForward ex registry enabled args running).SameNative
            (batchNormForward ex registry enabled args' running)
          ∧ OutcomeRel (fun r r' => r.1 = r'.1
              ∧ AnswerAlike (r.2.backward ex' registry') (r'.2.backward ex' registry'))
            (BatchNormContext.forward ex registry enabled args running).result
            (BatchNormContext.forward ex registry enabled args' running).result)
      ∧ ((instanceNormForward ex registry enabled args' running).toLogged.SparesAccelerators →
        (instanceNormForward ex registry enabled args running).SameNative
            (instanceNormForward ex registry enabled args' running)
          ∧ OutcomeRel (fun r r' => r.1 = r'.1
              ∧ AnswerAlike (r.2.backward ex' registry') (r'.2.backward ex' registry'))
            (InstanceNormContext.forward ex registry enabled args running).result
            (InstanceNormContext.forward ex registry enabled args' running).result))
    ∧ ((∀ x : α, x * 1 = x) → (∀ x : α, x + 0 = x) →
      ∀ (input : Tensor α) (weight weight' bias bias' : Option (Tensor α)) (eps : A),
        (∀ row, FillsIn (· = row) 1 weight weight' → FillsIn (· = row) 0 bias bias' →
          layerNormForward ex registry enabled input row weight bias eps
              = layerNormForward ex registry enabled input row weight' bias' eps
            ∧ OutcomeRel (fun r r' => r.1 = r'.1
                ∧ AnswersLess (r.2.backward ex' registry') (r'.2.backward ex' registry')
                  weight weight' bias bias' input.dims True)
              (LayerNormContext.forward ex registry enabled input row weight bias eps).result
              (LayerNormContext.forward ex registry enabled input row weight' bias' eps).result)
        ∧ ∀ numGroups, FillsIn (· = [input.channels]) 1 weight weight' →
          FillsIn (· = [input.channels]) 0 bias bias' →
          groupNormForward ex registry enabled input numGroups weight bias eps
              = groupNormForward ex registry enabled input numGroups weight' bias' eps
            ∧ OutcomeRel (fun r r' => r.1 = r'.1
                ∧ AnswersLess (r.2.backward ex' registry') (r'.2.backward ex' registry')
                  weight weight' bias bias' input.dims (0 < input.channels))
              (GroupNormContext.forward ex registry enabled input numGroups weight bias eps).result
              (GroupNormContext.forward ex registry enabled input numGroups weight' bias'
                eps).result) := by
  refine ⟨fun args args' running h => ⟨h.nativeBatchNorm_eq ex running, ?batch, ?folded⟩,
    fun hone hzero input weight weight' bias bias' eps => ⟨?layer, ?group⟩⟩
  case batch =>
    intro hspares
    exact ⟨h.batchNormForward_same ex registry enabled running hspares,
      h.batchContexts ex ex' registry registry' enabled running hspares⟩
  case folded =>
    intro hspares
    exact ⟨h.instanceNormForward_same ex registry enabled running hspares,
      h.instanceContexts ex registry enabled running hspares ex' registry'⟩
  case layer =>
    intro row hweight hbias
    exact ⟨layerNormForward_fillsIn hone hzero ex registry enabled input eps hweight hbias,
      layerContexts_fillsIn hone hzero ex ex' registry registry' enabled input eps hweight hbias⟩
  case group =>
    intro numGroups hweight hbias
    exact ⟨groupNormForward_fillsIn hone hzero ex registry enabled input eps hweight hbias,
      groupContexts_fillsIn hone hzero ex ex' registry registry' enabled input eps hweight hbias⟩

/-- A vector of copies fills in for a parameter of its length. -/
theorem fillsIn_few {n : Nat} (hn : n ≤ 8) (value : α) :
    FillsIn (· = [n]) value none (some (.few n value)) := by
  have hdims : (Tensor.few n value).dims = [n] :=
    (show (Tensor.few n value).dims = [min n 8] from rfl).trans (by rw [Nat.min_eq_left hn])
  exact .filled hdims (Tensor.constant_full _ _ value)

/-- The sample call, with its missing bias filled in. -/
noncomputable def sampleFilled (training : Bool) : ForwardArgs ℝ ℝ :=
  { sampleCall training with bias := some (.few 2 0) }

theorem absent_parameters_are_identities_sample :
    let ex : Executor := ⟨.standard, 4⟩
    let ones : Option (Tensor ℝ) := some (.few 2 1)
    let zeros : Option (Tensor ℝ) := some (.few 2 0)
    (∀ training, (sampleCall training).bias = none
      ∧ (batchNormForward ex .empty false (sampleFilled training)
          sampleRunning).toLogged.SparesAccelerators
      ∧ (instanceNormForward ex .empty false (sampleFilled training)
          sampleRunning).toLogged.SparesAccelerators
      ∧ nativeBatchNorm ex (sampleCall training) sampleRunning
          = nativeBatchNorm ex (sampleFilled training) sampleRunning
      ∧ (batchNormForward ex .empty false (sampleCall training) sampleRunning).SameNative
          (batchNormForward ex .empty false (sampleFilled training) sampleRunning)
      ∧ (instanceNormForward ex .empty false (sampleCall training) sampleRunning).SameNative
          (instanceNormForward ex .empty false (sampleFilled training) sampleRunning))
    ∧ (∀ x : ℝ, x * 1 = x) ∧ (∀ x : ℝ, x + 0 = x)
    ∧ (∃ out ctx ctx',
        (LayerNormContext.forward ex .empty false sampleBatch [2] none none (1 : ℝ)).result
          = .ok (out, ctx)
        ∧ (LayerNormContext.forward ex .empty false sampleBatch [2] ones zeros (1 : ℝ)).result
          = .ok (out, ctx')
        ∧ AnswersLess (ctx.backward ex .empty) (ctx'.backward ex .empty) none ones none zeros
          [2, 2] True)
    ∧ ∃ out ctx ctx',
        (GroupNormContext.forward ex .empty false sampleBatch 1 none none (1 : ℝ)).result
          = .ok (out, ctx)
        ∧ (GroupNormContext.forward ex .empty false sampleBatch 1 ones zeros (1 : ℝ)).result
          = .ok (out, ctx')
        ∧ AnswersLess (ctx.backward ex .empty) (ctx'.backward ex .empty) none ones none zeros
          [2, 2] (0 < 2) := by
  intro ex ones zeros
  have hones : FillsIn (· = [2]) 1 none ones := fillsIn_few (by decide) 1
  have hzeros : FillsIn (· = [2]) 0 none zeros := fillsIn_few (by decide) 0
  have hnone : ∀ t : Tensor ℝ, none = some t → t.dims = [2] := nofun
  obtain ⟨hcalls, hblocks⟩ :=
    absent_parameters_are_identities (α := ℝ) (A := ℝ) ex ex .empty .empty false
  obtain ⟨hlayer, hgroup⟩ := hblocks mul_one add_zero sampleBatch none ones none zeros 1
  refine ⟨fun training => ?calls, mul_one, add_zero, ?layer, ?group⟩
  case calls =>
    have hfills : (sampleCall training).FillsIn (sampleFilled training) :=
      ⟨.kept _, hzeros.mono fun dims hdims => by rw [hdims]; rfl, rfl⟩
    have hbatch : (batchNormForward ex .empty false (sampleFilled training)
        sampleRunning).toLogged.SparesAccelerators := by
      apply (batchNormForward_switchedOff ex .empty false (.inl rfl) (sampleFilled training)
        sampleRunning).spares_iff.2
      rintro a ⟨_, heligible⟩
      cases heligible.installed
    have hfolded : (instanceNormForward ex .empty false (sampleFilled training)
        sampleRunning).toLogged.SparesAccelerators := by
      apply (instanceNormForward_switchedOff ex .empty false (.inl rfl) (sampleFilled training)
        sampleRunning).spares_iff.2
      rintro a ⟨_, heligible⟩
      cases heligible.installed
    obtain ⟨hnative, hsame, hsameFolded⟩ := hcalls _ _ sampleRunning hfills
    exact ⟨rfl, hbatch, hfolded, hnative, (hsame hbatch).1, (hsameFolded hfolded).1⟩
  case layer =>
    obtain ⟨out, s, hok, _⟩ := LayerNormContext.forward_ok ex .empty false 1
      (show sampleBatch.dims = [2] ++ [2] from rfl) (List.cons_ne_nil _ _) hnone hnone
    have hrelated := (hlayer [2] hones hzeros).2
    rw [hok] at hrelated
    obtain ⟨⟨out', ctx'⟩, hok', hout, hless⟩ := hrelated.exists_of_ok
    obtain rfl : out = out' := hout
    exact ⟨out, _, ctx', hok, hok', hless⟩
  case group =>
    obtain ⟨out, s, hok, _⟩ := GroupNormContext.forward_ok ex .empty false 1
      (show sampleBatch.dims = [2, 2] from rfl) (by decide) (by decide) (one_dvd 2) hnone hnone
    have hrelated := (hgroup 1 hones hzeros).2
    rw [hok] at hrelated
    obtain ⟨⟨out', ctx'⟩, hok', hout, hless⟩ := hrelated.exists_of_ok
    obtain rfl : out = out' := hout
    exact ⟨out, _, ctx', hok, hok', hless⟩

end ChannelNorm

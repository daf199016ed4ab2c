/-
  ChannelNorm.Proofs.Backend.Handover
  ───────────────────────────────────
  **WHAT ACCELERATORS ARE HANDED.**

  An accelerator reads raw memory, so it is meant to get tensors in row-major
  order.  A forward copies all three; a backward copies two, and passes the
  weight on as it is:

      forward     input, weight, bias       contiguous copies
      backward    input, output gradient    contiguous copies
                  weight                    the tensor of the call itself

  The weight of a backward is therefore contiguous exactly as long as the call's
  is.  Instance normalization tiles its weight afresh, so there it always is.
  Layer and group normalization reach no accelerator, forward or backward.
-/
import ChannelNorm.Proofs.Backend.Switch
import ChannelNorm.Proofs.Tensor.Alike
import ChannelNorm.Proofs.Tensor.Buffer
import ChannelNorm.Replay.Batch
import ChannelNorm.Replay.Group
import ChannelNorm.Replay.Layer

namespace ChannelNorm

variable {α A : Type}

/-! ## §1. Contiguous copies. -/

namespace Tensor

/-- A tensor in row-major order, with the shape, device and contents of another. -/
structure ContiguousCopy (copy original : Tensor α) : Prop where
  contiguous : copy.isContiguous = true
  alike : copy.Alike original

/-- Asking for a contiguous tensor gives a contiguous copy. -/
theorem contiguousCopy_contiguous (t : Tensor α) : t.contiguous.ContiguousCopy t := by
  refine ⟨?_, t.dims_contiguous, t.device_contiguous, t.toList_contiguous⟩
  unfold contiguous
  split
  next h => exact h
  next => exact isContiguous_build

end Tensor

/-- A tiled parameter is laid out afresh. -/
theorem InstanceNormPlan.isContiguous_of_repeatParam {p : InstanceNormPlan}
    {param : Option (Tensor α)} {t : Tensor α} (h : p.repeatParam param = .ok (some t)) :
    t.isContiguous = true := by
  rcases repeatParam_cases h with ⟨_, hnone⟩ | ⟨original, _, rfl, hsome, htile⟩
  · cases hnone
  · cases hsome
    obtain ⟨flat, _, htile⟩ := bind_eq_ok.1 htile
    obtain ⟨_, _, rfl⟩ := Tensor.tile_eq_build htile
    exact Tensor.isContiguous_build

/-! ## §2. What a call hands over. -/

/-- Contiguous copies of the tensors of a forward call. -/
structure AcceleratedForward.Copies (handed : AcceleratedForward α A) (args : ForwardArgs α A) :
    Prop where
  input : handed.input.ContiguousCopy args.input
  weight : ∃ weight, args.weight = some weight ∧ handed.weight.ContiguousCopy weight
  bias : ∃ bias, args.bias = some bias ∧ handed.bias.ContiguousCopy bias

/-- Contiguous copies of the input and the output gradient of a backward call,
and its weight itself. -/
structure AcceleratedBackward.Copies (handed : AcceleratedBackward α A)
    (input gradOutput : Tensor α) (weight : Option (Tensor α)) : Prop where
  input : handed.input.ContiguousCopy input
  gradOutput : handed.gradOutput.ContiguousCopy gradOutput
  weight : weight = some handed.weight

namespace Logged

variable {ρ σ : Type} {x : Logged α A ρ} {y : Logged α A σ} {registry : Registry α A}

/-- A call puts no accelerator to work, or the forward of an installed one, on
contiguous copies. -/
def HandsForward (x : Logged α A ρ) (registry : Registry α A) (args : ForwardArgs α A)
    (running : ChannelStats α) : Prop :=
  x.SparesAccelerators ∨ ∃ slot a handed, registry.get slot = some a
    ∧ x.invocations
      = .acceleratorForward slot a.handle handed :: (a.forward handed running).invocations
    ∧ handed.Copies args

/-- A call puts no accelerator to work, or the backward of an installed one, on
contiguous copies and the weight. -/
def HandsBackward (x : Logged α A ρ) (registry : Registry α A) (input gradOutput : Tensor α)
    (weight : Option (Tensor α)) : Prop :=
  x.SparesAccelerators ∨ ∃ slot a handed, registry.get slot = some a
    ∧ x.invocations = .acceleratorBackward slot a.handle handed :: (a.backward handed).invocations
    ∧ handed.Copies input gradOutput weight

/-- The same for the folded call of an instance normalization. -/
def HandsFolded (x : Logged α A ρ) (registry : Registry α A) (args : ForwardArgs α A)
    (running : ChannelStats α) : Prop :=
  x.SparesAccelerators ∨ ∃ p folded tiled, args.input.dims = InstanceNormPlan.inputDims p
    ∧ p.FoldsTo args running folded tiled ∧ x.HandsForward registry folded tiled

/-- The same for the folded backward of an instance normalization, whose weight
is contiguous. -/
def HandsFoldedBackward (x : Logged α A ρ) (registry : Registry α A) (input gradOutput : Tensor α)
    (weight : Option (Tensor α)) : Prop :=
  x.SparesAccelerators ∨ ∃ (p : InstanceNormPlan) (folded foldedGrad : Tensor α)
      (tiled : Option (Tensor α)), input.dims = p.inputDims
    ∧ p.fold input = .ok folded ∧ p.fold gradOutput = .ok foldedGrad
    ∧ p.repeatParam weight = .ok tiled ∧ (∀ t, tiled = some t → t.isContiguous = true)
    ∧ x.HandsBackward registry folded foldedGrad tiled

/-! ### Only what is put to work matters. -/

theorem HandsForward.congr {args : ForwardArgs α A} {running : ChannelStats α}
    (h : y.HandsForward registry args running) (hsame : x.invocations = y.invocations) :
    x.HandsForward registry args running := by
  unfold HandsForward SparesAccelerators at h ⊢
  rwa [hsame]

theorem HandsBackward.congr {input gradOutput : Tensor α} {weight : Option (Tensor α)}
    (h : y.HandsBackward registry input gradOutput weight)
    (hsame : x.invocations = y.invocations) :
    x.HandsBackward registry input gradOutput weight := by
  unfold HandsBackward SparesAccelerators at h ⊢
  rwa [hsame]

theorem HandsFolded.congr {args : ForwardArgs α A} {running : ChannelStats α}
    (h : y.HandsFolded registry args running) (hsame : x.invocations = y.invocations) :
    x.HandsFolded registry args running := by
  unfold HandsFolded HandsForward SparesAccelerators at h ⊢
  rwa [hsame]

/-! ### Calls in sequence. -/

theorem sparesAccelerators_of_nativeBackward {args : BackwardArgs α A}
    (h : x.invocations = [.nativeBackward args]) : x.SparesAccelerators := by
  intro i hi
  rw [h, List.mem_singleton] at hi
  rw [hi]
  rfl

theorem invocations_bind {f : ρ → Logged α A σ} :
    (x >>= f).invocations
      = x.invocations ++ (match x.result with
        | .error _ => []
        | .ok r => (f r).invocations) := by
  show (Logged.bind x f).events.filterMap Event.invocation? = _
  unfold Logged.bind
  cases x.result with
  | error e => exact (List.append_nil _).symm
  | ok r => exact List.filterMap_append

/-- A check that comes after a call puts nothing to work. -/
theorem invocations_bind_lift {f : ρ → Except TensorError σ} :
    (x >>= fun r => (liftM (f r) : Logged α A σ)).invocations = x.invocations := by
  rw [invocations_bind]
  cases x.result <;> exact List.append_nil _

theorem SparesAccelerators.bind {f : ρ → Logged α A σ} (h : x.SparesAccelerators)
    (hf : ∀ r, (f r).SparesAccelerators) : (x >>= f).SparesAccelerators := by
  intro i hi
  rw [invocations_bind, List.mem_append] at hi
  rcases hi with hi | hi
  · exact h i hi
  · cases hresult : x.result with
    | error e =>
        rw [hresult] at hi
        cases hi
    | ok r =>
        rw [hresult] at hi
        exact hf r i hi

/-- A step that is taken one way or another, before what follows. -/
theorem SparesAccelerators.ite_bind {c : Prop} [Decidable c] {y : Logged α A ρ}
    {f : ρ → Logged α A σ} (hx : x.SparesAccelerators) (hy : y.SparesAccelerators)
    (hf : ∀ r, (f r).SparesAccelerators) :
    (if c then x >>= f else y >>= f).SparesAccelerators := by
  split
  · exact hx.bind hf
  · exact hy.bind hf

theorem SparesAccelerators.lift_bind {x : Except TensorError ρ} {f : ρ → Logged α A σ}
    (hf : ∀ r, (f r).SparesAccelerators) :
    ((liftM x : Logged α A ρ) >>= f).SparesAccelerators :=
  bind (sparesAccelerators_of_nil rfl) hf

end Logged

/-! ## §3. Batch normalization. -/

section
variable [OrderedArith A] [Element α A] (ex : Executor) (registry : Registry α A) (enabled : Bool)

/-- **A forward call hands over contiguous copies.** -/
theorem batchNormForward_handsForward (args : ForwardArgs α A) (running : ChannelStats α) :
    (batchNormForward ex registry enabled args running).toLogged.HandsForward registry args
      running := by
  by_cases haccepted : args.Accepted running
  · have hran := batchNormForward_ran ex registry enabled args running haccepted
    cases hselect : selectAccelerator ex.config registry enabled args running with
    | none =>
        rw [hselect] at hran
        exact .inl (Logged.sparesAccelerators_of_native hran.1)
    | some found =>
        obtain ⟨slot, a⟩ := found
        rw [hselect] at hran
        obtain ⟨weight, bias, hweight, hbias, hinvoked, _⟩ := hran
        exact .inr ⟨slot, a, args.handed weight bias, get_of_selectAccelerator hselect, hinvoked,
          Tensor.contiguousCopy_contiguous _, ⟨weight, hweight, Tensor.contiguousCopy_contiguous _⟩,
          ⟨bias, hbias, Tensor.contiguousCopy_contiguous _⟩⟩
  · obtain ⟨e, he⟩ := batchNormForward_of_not_accepted ex registry enabled haccepted
    rw [he]
    exact .inl (Logged.sparesAccelerators_of_nil rfl)

/-- **A backward call hands over contiguous copies, and its weight.** -/
theorem batchNormBackward_handsBackward (tag : BackendTag) (args : BackwardArgs α A) :
    (batchNormBackward ex registry tag args).HandsBackward registry args.input args.gradOutput
      args.weight := by
  unfold batchNormBackward
  cases hslot : tag.slot? with
  | none => exact .inl (Logged.sparesAccelerators_of_nativeBackward rfl)
  | some slot =>
      dsimp only
      cases hget : registry.get slot with
      | none => exact .inl (Logged.sparesAccelerators_of_nil rfl)
      | some a =>
          cases hweight : args.weight with
          | none => exact .inl (Logged.sparesAccelerators_of_nil rfl)
          | some weight =>
              exact .inr ⟨slot, a, _, hget, rfl, Tensor.contiguousCopy_contiguous _,
                Tensor.contiguousCopy_contiguous _, rfl⟩

/-! ## §4. Instance normalization. -/

/-- The folded call hands over contiguous copies. -/
theorem instanceNormForward_handsFolded (args : ForwardArgs α A) (running : ChannelStats α) :
    (instanceNormForward ex registry enabled args running).toLogged.HandsFolded registry args
      running := by
  rcases instanceNormForward_cases ex registry enabled args running with
    ⟨_, e, he⟩ | ⟨_, p, folded, tiled, hdims, hf, _, hcall⟩
  · rw [he]
    exact .inl (Logged.sparesAccelerators_of_nil rfl)
  · refine .inr ⟨p, folded, tiled, hdims, hf, ?_⟩
    apply (batchNormForward_handsForward ex registry enabled folded tiled).congr
    rw [hcall, InstanceNormPlan.invocations_finish]

/-- **The backward of a recorded call hands over contiguous tensors only.** -/
theorem InstanceNormContext.backward_handsFolded {args : ForwardArgs α A}
    {ctx : InstanceNormContext α A} (hdims : args.input.dims = ctx.plan.inputDims)
    (hinput : ctx.plan.fold args.input = .ok ctx.foldedInput)
    (hweight : ctx.plan.repeatParam args.weight = .ok ctx.weightTiled) (gradOutput : Tensor α)
    (mask : GradMask) :
    (ctx.backward ex registry gradOutput mask).HandsFoldedBackward registry args.input gradOutput
      args.weight := by
  unfold backward
  cases hfold : ctx.plan.fold gradOutput with
  | error e => exact .inl (Logged.sparesAccelerators_of_nil rfl)
  | ok foldedGrad =>
      refine .inr ⟨ctx.plan, ctx.foldedInput, foldedGrad, ctx.weightTiled, hdims, hinput, hfold,
        hweight, ?_, ?_⟩
      · intro t ht
        rw [ht] at hweight
        exact InstanceNormPlan.isContiguous_of_repeatParam hweight
      · have hreplay := batchNormBackward_handsBackward ex registry ctx.backend
          (ctx.backwardArgs foldedGrad mask)
        exact hreplay.congr Logged.invocations_bind_lift

/-! ## §5. Layer and group normalization. -/

/-- The backward of a block normalization recorded as native puts no accelerator
to work. -/
theorem BlockState.backward_spares {s : BlockState α A} (hbackend : s.backend = .native)
    (plan : BlockPlan α) (gradOutput : Tensor α) (mask : GradMask) :
    (s.backward ex registry plan gradOutput mask).SparesAccelerators := by
  have hquiet : ∀ {σ : Type} (r : Except TensorError σ),
      (liftM r : Logged α A σ).SparesAccelerators := fun _ => Logged.sparesAccelerators_of_nil rfl
  have hinput : (s.inputGradient ex registry plan gradOutput).SparesAccelerators := by
    unfold inputGradient
    refine .lift_bind fun _ => .lift_bind fun foldedInput => .lift_bind fun foldedGrad => ?_
    refine .bind ?_ fun grads => hquiet _
    rw [hbackend]
    exact Logged.sparesAccelerators_of_nativeBackward rfl
  unfold backward
  dsimp only
  refine .ite_bind hinput (hquiet (.ok none)) fun dx => ?_
  refine .ite_bind (hquiet _) (hquiet (.ok none)) fun dw => ?_
  exact .ite_bind (hquiet _) (hquiet (.ok none)) fun db => hquiet (.ok _)

variable {ex registry enabled} {input : Tensor α} {weight bias : Option (Tensor α)} {eps : A}

/-- A recorded layer normalization is native. -/
theorem LayerNormContext.forward_runsNatively {normalizedShape : List Nat} :
    (LayerNormContext.forward ex registry enabled input normalizedShape weight bias
      eps).RunsNatively fun recorded => recorded.2.state.backend = .native := by
  have hcall := layerNormForward_runsNatively ex registry enabled input weight bias eps
    normalizedShape
  unfold LayerNormContext.forward
  refine .lift_bind fun plan => hcall.bind fun f hf => ⟨rfl, ?_⟩
  intro recorded hok
  cases hok
  exact hf

/-- A recorded group normalization is native. -/
theorem GroupNormContext.forward_runsNatively {numGroups : Nat} :
    (GroupNormContext.forward ex registry enabled input numGroups weight bias
      eps).RunsNatively fun recorded => recorded.2.state.backend = .native := by
  have hcall := groupNormForward_runsNatively ex registry enabled input weight bias eps numGroups
  unfold GroupNormContext.forward
  refine .lift_bind fun plan => hcall.bind fun f hf => .lift_bind fun stretched => ⟨rfl, ?_⟩
  intro recorded hok
  cases hok
  exact hf

end

/-! ## §6. Every call. -/

/-- **What accelerators are handed.**  A forward call that reaches an installed
accelerator hands it contiguous copies of its input, weight and bias.  A backward
call hands it contiguous copies of its input and output gradient, and the weight
as it is: of a recorded batch normalization, the very tensor that its forward was
called with.  Instance normalization hands over its folded input and gradient and
its tiled parameters, contiguous all of them.  Layer and group normalization
reach no accelerator. -/
theorem handed_to_accelerators [OrderedArith A] [Element α A] (ex : Executor)
    (registry : Registry α A) (enabled : Bool) :
    (∀ (args : ForwardArgs α A) (running : ChannelStats α),
      (batchNormForward ex registry enabled args running).toLogged.HandsForward registry args
          running
        ∧ (batchNorm ex registry enabled args running).toLogged.HandsForward registry args running
        ∧ (BatchNormContext.forward ex registry enabled args running).toLogged.HandsForward
          registry args running
        ∧ ∀ out ctx,
          (BatchNormContext.forward ex registry enabled args running).result = .ok (out, ctx) →
          ∀ ex' registry' gradOutput mask,
            (BatchNormContext.backward ex' registry' ctx gradOutput mask).HandsBackward registry'
              args.input gradOutput args.weight)
    ∧ (∀ (tag : BackendTag) (args : BackwardArgs α A),
      (batchNormBackward ex registry tag args).HandsBackward registry args.input args.gradOutput
        args.weight)
    ∧ (∀ (args : ForwardArgs α A) (running : ChannelStats α),
      (instanceNormForward ex registry enabled args running).toLogged.HandsFolded registry args
          running
        ∧ (instanceNorm ex registry enabled args running).toLogged.HandsFolded registry args
          running
        ∧ (InstanceNormContext.forward ex registry enabled args running).toLogged.HandsFolded
          registry args running
        ∧ ∀ out ctx,
          (InstanceNormContext.forward ex registry enabled args running).result = .ok (out, ctx) →
          ∀ ex' registry' gradOutput mask,
            (InstanceNormContext.backward ex' registry' ctx gradOutput mask).HandsFoldedBackward
              registry' args.input gradOutput args.weight)
    ∧ (∀ (input : Tensor α) (normalizedShape : List Nat) (weight bias : Option (Tensor α))
        (eps : A),
      let recorded :=
        LayerNormContext.forward ex registry enabled input normalizedShape weight bias eps
      recorded.SparesAccelerators ∧ ∀ out ctx, recorded.result = .ok (out, ctx) →
        ∀ ex' registry' gradOutput mask,
          (LayerNormContext.backward ex' registry' ctx gradOutput mask).SparesAccelerators)
    ∧ ∀ (input : Tensor α) (numGroups : Nat) (weight bias : Option (Tensor α)) (eps : A),
      let recorded := GroupNormContext.forward ex registry enabled input numGroups weight bias eps
      recorded.SparesAccelerators ∧ ∀ out ctx, recorded.result = .ok (out, ctx) →
        ∀ ex' registry' gradOutput mask,
          (GroupNormContext.backward ex' registry' ctx gradOutput mask).SparesAccelerators := by
  refine ⟨?_, ?_, ?_, ?_, ?_⟩
  · intro args running
    have h := batchNormForward_handsForward ex registry enabled args running
    refine ⟨h, h.congr rfl, h.congr rfl, ?_⟩
    intro out ctx hok ex' registry' gradOutput mask
    obtain ⟨_, _, _, hinput, hweight⟩ := BatchNormContext.keeps hok
    rw [← hinput, ← hweight]
    have hreplay := batchNormBackward_handsBackward ex' registry' ctx.backend
      (ctx.backwardArgs gradOutput mask)
    exact hreplay.congr rfl
  · exact batchNormBackward_handsBackward ex registry
  · intro args running
    have h := instanceNormForward_handsFolded ex registry enabled args running
    have hrecorded := (InstanceNormContext.run_forward ex registry enabled args running).1
    refine ⟨h, h.congr rfl, h.congr (congrArg (·.filterMap Event.invocation?) hrecorded), ?_⟩
    intro out ctx hok ex' registry' gradOutput mask
    obtain ⟨_, _, _, hdims, hinput, hweight⟩ := InstanceNormContext.keeps hok
    exact InstanceNormContext.backward_handsFolded ex' registry' hdims hinput hweight gradOutput
      mask
  · intro input normalizedShape weight bias eps recorded
    have hnative : recorded.RunsNatively fun kept => kept.2.state.backend = .native :=
      LayerNormContext.forward_runsNatively
    refine ⟨hnative.sparesAccelerators, ?_⟩
    intro out ctx hok ex' registry' gradOutput mask
    exact BlockState.backward_spares ex' registry' (hnative.returned hok) _ gradOutput mask
  · intro input numGroups weight bias eps recorded
    have hnative : recorded.RunsNatively fun kept => kept.2.state.backend = .native :=
      GroupNormContext.forward_runsNatively
    refine ⟨hnative.sparesAccelerators, ?_⟩
    intro out ctx hok ex' registry' gradOutput mask
    exact BlockState.backward_spares ex' registry' (hnative.returned hok) _ gradOutput mask

namespace Session

/-- Every second of four values. -/
def stridedWeight : Tensor (DType.Host .float32) :=
  (Tensor.few 4 (1 : Float32)).everyNth 0 2 Nat.zero_lt_two

/-- A training call with a weight that is not contiguous. -/
def stridedCall : ForwardArgs (DType.Host .float32) Float where
  input := .build [1, 2] (by decide) ([1, 3] : List Float32) rfl (.gpu 0)
  weight := some stridedWeight
  bias := some (Tensor.few 2 (0 : Float32))
  training := true
  momentum := 0
  eps := 1

/-- The forward is handed a contiguous weight, and the backward the one that the
call was made with. -/
theorem handed_to_accelerators_strided :
    let registry : Registry (DType.Host .float32) Float := ⟨none, some (echoAccelerator 0)⟩
    let recorded := BatchNormContext.forward ⟨.standard, 4⟩ registry true stridedCall .none
    ∃ out ctx, recorded.result = .ok (out, ctx)
      ∧ (∃ handed, recorded.invocations = [.acceleratorForward .miopen 0 handed]
        ∧ handed.weight.isContiguous = true)
      ∧ ∃ handed, (ctx.backward ⟨.standard, 4⟩ registry stridedCall.input .all).invocations
          = [.acceleratorBackward .miopen 0 handed]
        ∧ handed.weight.isContiguous = false := by
  intro registry recorded
  obtain ⟨hcalls, _⟩ := handed_to_accelerators ⟨.standard, 4⟩ registry true
  obtain ⟨_, _, hforward, hbackward⟩ := hcalls stridedCall .none
  refine ⟨_, _, rfl, ⟨_, rfl, ?_⟩, ⟨_, rfl, ?_⟩⟩
  · rcases hforward with hspared | ⟨slot, a, handed, _, hinvoked, hcopies⟩
    · exact absurd (hspared _ (List.mem_singleton_self _)) nofun
    · injection hinvoked with hhead
      injection hhead with _ _ hhanded
      obtain ⟨_, _, hcopy⟩ := hcopies.weight
      rw [hhanded]
      exact hcopy.contiguous
  · rcases hbackward _ _ rfl ⟨.standard, 4⟩ registry stridedCall.input .all with
      hspared | ⟨slot, a, handed, _, hinvoked, hcopies⟩
    · exact absurd (hspared _ (List.mem_singleton_self _)) nofun
    · injection hinvoked with hhead
      injection hhead with _ _ hhanded
      have hweight : some stridedWeight = some handed.weight := hcopies.weight
      rw [hhanded, ← Option.some.inj hweight]
      rfl

end Session

end ChannelNorm

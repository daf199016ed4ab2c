/-
  ChannelNorm.Proofs.Replay.Mask
  ──────────────────────────────
  **THE GRADIENT MASK ONLY SELECTS.**

  A mask is applied in three places: the native kernel skips what is not asked
  for, the results of an accelerator are dropped after it ran, and a layer or
  group normalization leaves out whole branches, its inner call asking for the
  input gradient alone.  In each the answer to a mask is that to the full mask,
  less what the mask leaves out:

      backward g all  =  ok grads   →   backward g m  =  ok (grads.masked m)

  A branch that is left out cannot fail, so the converse does not hold.
-/
import ChannelNorm.Proofs.Backend.Faithful
import ChannelNorm.Proofs.BatchNorm.Schedule
import ChannelNorm.Proofs.Replay.Mismatch

namespace ChannelNorm

variable {α A : Type}

/-- What a mask leaves of each gradient. -/
theorem Gradients.masked_eq (g : Gradients α) (mask : GradMask) :
    g.masked mask
      = { input := if mask.input then g.input else none
          weight := if mask.weight then g.weight else none
          bias := if mask.bias then g.bias else none } := by
  have hkeep : ∀ (o : Option (Tensor α)) (keep : Bool),
      (o.filter fun _ => keep) = if keep then o else none := by
    intro o keep
    cases o <;> cases keep <;> rfl
  unfold Gradients.masked
  rw [hkeep, hkeep, hkeep]

variable [OrderedArith A] [Element α A] {ex : Executor} {registry : Registry α A}
  {grads : Gradients α}

/-! ## §1. Batch normalization. -/

/-- A replay that returned found an accelerator, and had a weight for it. -/
theorem exists_of_replayed {slot : AcceleratorSlot} {args : BackwardArgs α A}
    (h : (batchNormBackward ex registry slot.tag args).result = .ok grads) :
    ∃ a weight, registry.get slot = some a ∧ args.weight = some weight := by
  unfold batchNormBackward at h
  rw [slot?_tag] at h
  dsimp only at h
  cases hget : registry.get slot with
  | none =>
      rw [hget] at h
      cases h
  | some a =>
      cases hweight : args.weight with
      | none =>
          rw [hget, hweight] at h
          cases h
      | some weight => exact ⟨a, weight, rfl, rfl⟩

section
variable {args : BackwardArgs α A} (hall : args.mask = .all) (ex' : Executor) (mask : GradMask)
include hall

/-- The native kernel skips what is not asked for. -/
theorem nativeBatchNormBackward_masked (h : nativeBatchNormBackward ex args = .ok grads) :
    nativeBatchNormBackward ex' { args with mask } = .ok (grads.masked mask) := by
  have haccepted : args.Accepted := by
    unfold nativeBatchNormBackward Schedule.nativeBatchNormBackward at h
    cases hcheck : checkBackward "native_batch_norm_backward" args with
    | error e =>
        rw [hcheck] at h
        cases h
    | ok params => exact accepted_of_checkBackward hcheck
  -- the check does not look at the mask
  have hmasked : ({ args with mask } : BackwardArgs α A).Accepted :=
    ⟨haccepted.rank, haccepted.gradient, haccepted.weight, haccepted.mean, haccepted.var,
      haccepted.hasMean, haccepted.hasVar⟩
  rw [nativeBatchNormBackward_ok ex haccepted, hall, Gradients.masked_all] at h
  obtain rfl : args.gradients = grads := Except.ok.inj h
  exact nativeBatchNormBackward_ok ex' hmasked

/-- The results of an accelerator are dropped after it ran. -/
theorem batchNormBackward_slot_masked (slot : AcceleratorSlot)
    (h : (batchNormBackward ex registry slot.tag args).result = .ok grads) :
    (batchNormBackward ex' registry slot.tag { args with mask }).result
      = .ok (grads.masked mask) := by
  obtain ⟨a, weight, hget, hweight⟩ := exists_of_replayed h
  rw [result_batchNormBackward_slot hget hweight, hall] at h
  have hmasked : ({ args with mask } : BackwardArgs α A).weight = some weight := hweight
  refine (result_batchNormBackward_slot hget hmasked).trans ?_
  -- whatever the mask, the accelerator is handed the same
  show ((a.backward (args.handed weight)).result.mapError _).map _ = _
  cases hraw : (a.backward (args.handed weight)).result with
  | error e =>
      rw [hraw] at h
      cases h
  | ok raw =>
      rw [hraw] at h
      obtain rfl : raw.unmasked.masked .all = grads := Except.ok.inj h
      rw [Gradients.masked_all]
      rfl

/-- Whichever implementation answers. -/
theorem batchNormBackward_masked {tag : BackendTag}
    (h : (batchNormBackward ex registry tag args).result = .ok grads) :
    (batchNormBackward ex' registry tag { args with mask }).result
      = .ok (grads.masked mask) := by
  cases tag with
  | native => exact nativeBatchNormBackward_masked hall ex' mask h
  | cudnn => exact batchNormBackward_slot_masked hall ex' mask .cudnn h
  | miopen => exact batchNormBackward_slot_masked hall ex' mask .miopen h

end

/-- A replay is the same under every executor. -/
theorem batchNormBackward_executor (ex ex' : Executor) (registry : Registry α A)
    (tag : BackendTag) (args : BackwardArgs α A) :
    batchNormBackward ex registry tag args = batchNormBackward ex' registry tag args := by
  unfold batchNormBackward
  rw [nativeBatchNormBackward_executor ex ex']

/-! ## §2. Blocks. -/

/-- A gradient that is computed where it is asked for, when it is asked for with
all others. -/
theorem when_masked {x : Except TensorError (Option (Tensor α))} {o : Option (Tensor α)}
    (present : Bool) (h : (if present then x else .ok none) = .ok o) (asked : Bool) :
    (if asked && present then x else .ok none) = .ok (if asked then o else none) := by
  cases asked with
  | false => rfl
  | true => exact h

/-- The branches of a block normalization are taken one by one. -/
theorem BlockState.backward_masked {plan : BlockPlan α} {s : BlockState α A} {g : Tensor α}
    (h : (s.backward ex registry plan g .all).result = .ok grads) (ex' : Executor)
    (mask : GradMask) :
    (s.backward ex' registry plan g mask).result = .ok (grads.masked mask) := by
  obtain ⟨hinput, hweight, hbias⟩ := BlockState.backward_eq_ok_iff.1 h
  rw [Gradients.masked_eq]
  refine BlockState.backward_eq_ok_iff.2 ⟨?_, when_masked _ hweight mask.weight,
    when_masked _ hbias mask.bias⟩
  have hexecutor : s.inputGradient ex' registry plan g = s.inputGradient ex registry plan g := by
    unfold BlockState.inputGradient
    simp only [batchNormBackward_executor ex' ex]
  rw [hexecutor]
  have hmasked := when_masked true hinput mask.input
  rwa [Bool.and_true] at hmasked

/-! ## §3. Contexts. -/

section
variable {g : Tensor α} (ex' : Executor) (mask : GradMask)

theorem BatchNormContext.backward_masked {ctx : BatchNormContext α A}
    (h : (ctx.backward ex registry g .all).result = .ok grads) :
    (ctx.backward ex' registry g mask).result = .ok (grads.masked mask) := by
  have hcall : (batchNormBackward ex registry ctx.backend (ctx.backwardArgs g .all)).result
      = .ok grads := h
  exact batchNormBackward_masked rfl ex' mask hcall

theorem InstanceNormContext.backward_masked {ctx : InstanceNormContext α A}
    (h : (ctx.backward ex registry g .all).result = .ok grads) :
    (ctx.backward ex' registry g mask).result = .ok (grads.masked mask) := by
  unfold InstanceNormContext.backward at h ⊢
  obtain ⟨foldedGrad, hfold, h⟩ := Logged.lift_bind_eq_ok.1 h
  obtain ⟨folded, hfolded, hunfold⟩ := Logged.bind_eq_ok.1 h
  have hreplay : (batchNormBackward ex' registry ctx.backend
      (ctx.backwardArgs foldedGrad mask)).result = .ok (folded.masked mask) :=
    batchNormBackward_masked rfl ex' mask hfolded
  have hmasked := InstanceNormContext.unfoldGradients_masked hunfold mask
  exact Logged.lift_bind_eq_ok.2
    ⟨foldedGrad, hfold, Logged.bind_eq_ok.2 ⟨_, hreplay, hmasked⟩⟩

end

/-- **The gradient mask only selects.**  For every recorded state, whichever
implementation it names, and every incoming gradient: where the backward returns
all gradients, it returns for each mask those of them that the mask asks for and
nothing else. -/
theorem gradient_mask_selects (ex ex' : Executor) (registry : Registry α A) (g : Tensor α)
    (mask : GradMask) (grads : Gradients α) :
    (∀ ctx : BatchNormContext α A, (ctx.backward ex registry g .all).result = .ok grads →
      (ctx.backward ex' registry g mask).result = .ok (grads.masked mask))
    ∧ (∀ ctx : InstanceNormContext α A, (ctx.backward ex registry g .all).result = .ok grads →
      (ctx.backward ex' registry g mask).result = .ok (grads.masked mask))
    ∧ (∀ ctx : LayerNormContext α A, (ctx.backward ex registry g .all).result = .ok grads →
      (ctx.backward ex' registry g mask).result = .ok (grads.masked mask))
    ∧ (∀ ctx : GroupNormContext α A, (ctx.backward ex registry g .all).result = .ok grads →
      (ctx.backward ex' registry g mask).result = .ok (grads.masked mask))
    ∧ grads.masked mask
      = { input := if mask.input then grads.input else none
          weight := if mask.weight then grads.weight else none
          bias := if mask.bias then grads.bias else none } := by
  refine ⟨?batch, ?folded, ?layer, ?group, grads.masked_eq mask⟩
  case batch => exact fun ctx h => ctx.backward_masked ex' mask h
  case folded => exact fun ctx h => ctx.backward_masked ex' mask h
  case layer => exact fun ctx h => BlockState.backward_masked h ex' mask
  case group => exact fun ctx h => BlockState.backward_masked h ex' mask

/-- A training call with both parameters. -/
def twoByThreeAffine : ForwardArgs Float32 Float where
  input := twoByThree
  weight := some (.few 3 1)
  bias := some (.few 3 0)
  training := true
  momentum := 0
  eps := 1

/-- A state recorded by an accelerator. -/
def acceleratedContext : BatchNormContext Float32 Float where
  input := twoByThree
  weight := some (.few 3 1)
  running := .none
  saved := .none
  backend := .miopen
  training := true
  eps := 1

/-- A mask that leaves out the weight gradient: on an accelerator, and for each
recorded call. -/
theorem gradient_mask_selects_sample :
    let ex : Executor := ⟨.standard, 4⟩
    let registry : Registry Float32 Float := ⟨none, some (Session.echoAccelerator 0)⟩
    let mask : GradMask := ⟨true, false, true⟩
    (∃ grads, (acceleratedContext.backward ex registry twoByThree .all).result = .ok grads
      ∧ (acceleratedContext.backward ex registry twoByThree mask).result
        = .ok (grads.masked mask))
    ∧ (∃ out ctx grads, (BatchNormContext.forward ex .empty false twoByThreeAffine .none).result
        = .ok (out, ctx)
      ∧ (ctx.backward ex registry twoByThree .all).result = .ok grads
      ∧ (ctx.backward ex registry twoByThree mask).result = .ok (grads.masked mask))
    ∧ (∃ out ctx grads, (InstanceNormContext.forward ex .empty false twoByThreeAffine .none).result
        = .ok (out, ctx)
      ∧ (ctx.backward ex registry twoByThree .all).result = .ok grads
      ∧ (ctx.backward ex registry twoByThree mask).result = .ok (grads.masked mask))
    ∧ (∃ out ctx grads, (LayerNormContext.forward ex .empty false twoByThree [3]
          (some (.few 3 1)) (some (.few 3 0)) (1 : Float)).result = .ok (out, ctx)
      ∧ (ctx.backward ex registry twoByThree .all).result = .ok grads
      ∧ (ctx.backward ex registry twoByThree mask).result = .ok (grads.masked mask))
    ∧ ∃ out ctx grads, (GroupNormContext.forward ex .empty false twoByThree 3
          (some (.few 3 1)) (some (.few 3 0)) (1 : Float)).result = .ok (out, ctx)
      ∧ (ctx.backward ex registry twoByThree .all).result = .ok grads
      ∧ (ctx.backward ex registry twoByThree mask).result = .ok (grads.masked mask) := by
  intro ex registry mask
  have hselects := gradient_mask_selects ex ex registry twoByThree mask
  refine ⟨?accelerator, ?batch, ?folded, ?layer, ?group⟩
  case accelerator => exact ⟨_, rfl, (hselects _).1 _ rfl⟩
  case batch =>
    obtain ⟨out, ctx, hok, hnative⟩ := exists_of_recorded (f := BatchNormContext.backend)
      (show (BatchNormContext.forward ex .empty false twoByThreeAffine .none).result.toOption.map
        _ = some .native from rfl)
    have hreturns : (ctx.backward ex registry twoByThree .all).ReturnsGradients .all [2, 3] [3] :=
      BatchNormContext.returns_of_dims hok hnative rfl
    obtain ⟨grads, hgrads, _⟩ := hreturns
    exact ⟨out, ctx, grads, hok, hgrads, (hselects grads).1 ctx hgrads⟩
  case folded =>
    obtain ⟨out, ctx, hok, hnative⟩ := exists_of_recorded (f := InstanceNormContext.backend)
      (show (InstanceNormContext.forward ex .empty false twoByThreeAffine
        .none).result.toOption.map _ = some .native from rfl)
    have hreturns : (ctx.backward ex registry twoByThree .all).ReturnsGradients .all [2, 3] [3] :=
      InstanceNormContext.returns_of_numel hok hnative rfl
    obtain ⟨grads, hgrads, _⟩ := hreturns
    exact ⟨out, ctx, grads, hok, hgrads, (hselects grads).2.1 ctx hgrads⟩
  case layer =>
    obtain ⟨out, ctx, hok, _⟩ := exists_of_recorded (f := LayerNormContext.backend)
      (show (LayerNormContext.forward ex .empty false twoByThree [3] (some (.few 3 1))
        (some (.few 3 0)) (1 : Float)).result.toOption.map _ = some .native from rfl)
    obtain ⟨_, folded, hrecords⟩ := LayerNormContext.records_of_forward hok
    obtain ⟨grads, hgrads, _⟩ := (hrecords.answersWhen ex registry .all (.inl rfl)).1
      (hrecords.admits_of_dims .all (show twoByThree.dims = [2, 3] from rfl) fun _ => trivial)
    exact ⟨out, ctx, grads, hok, hgrads, (hselects grads).2.2.1 ctx hgrads⟩
  case group =>
    obtain ⟨out, ctx, hok, _⟩ := exists_of_recorded (f := GroupNormContext.backend)
      (show (GroupNormContext.forward ex .empty false twoByThree 3 (some (.few 3 1))
        (some (.few 3 0)) (1 : Float)).result.toOption.map _ = some .native from rfl)
    obtain ⟨_, folded, hrecords⟩ := GroupNormContext.records_of_forward hok
    obtain ⟨grads, hgrads, _⟩ := (hrecords.answersWhen ex registry .all (.inl rfl)).1
      (hrecords.admits_of_dims .all (show twoByThree.dims = [2, 3] from rfl)
        fun _ => Nat.succ_pos 2)
    exact ⟨out, ctx, grads, hok, hgrads, (hselects grads).2.2.2.1 ctx hgrads⟩

end ChannelNorm

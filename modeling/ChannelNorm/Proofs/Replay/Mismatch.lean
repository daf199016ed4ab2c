/-
  ChannelNorm.Proofs.Replay.Mismatch
  ──────────────────────────────────
  **GRADIENTS OF ANOTHER SHAPE THAN THE INPUT'S.**

  The one comparison of shapes stands in the native backward.  A batch
  normalization hands it the incoming gradient as it is; the other three fold
  the gradient first, and folding goes by the number of elements:

      batch      every other shape is refused, naming both shapes
      instance   every shape of the input's size is answered
      layer      so is every one that the weight stretches to, and with a weight
                 gradient asked for, the input
      group      likewise

  so a transposed gradient is refused by the first and read in row-major order
  by the others.
-/
import ChannelNorm.Proofs.Replay.Answered

namespace ChannelNorm

variable {α A : Type}

/-- **Which gradients of other shapes are answered**, for a mask that asks for the
input gradient.  A batch normalization refuses them all.  The others answer
those that fit once folded, with gradients of the shapes of input and
parameters, and fail on the rest. -/
theorem gradients_of_other_shapes [OrderedArith A] [Element α A] (ex ex' : Executor)
    (registry registry' : Registry α A) (enabled : Bool) (mask : GradMask)
    (hmask : mask.input = true) :
    (∀ (args : ForwardArgs α A) (running : ChannelStats α) (out : Tensor α)
        (ctx : BatchNormContext α A),
      (BatchNormContext.forward ex registry enabled args running).result = .ok (out, ctx) →
      ctx.backend = .native → ∀ g : Tensor α, g.dims ≠ args.input.dims →
        (ctx.backward ex' registry' g mask).result
          = .error (.gradientShape "native_batch_norm_backward" args.input.shape g.shape))
    ∧ (∀ (args : ForwardArgs α A) (running : ChannelStats α) (out : Tensor α)
        (ctx : InstanceNormContext α A),
      (InstanceNormContext.forward ex registry enabled args running).result = .ok (out, ctx) →
      ctx.backend = .native → ∀ g : Tensor α,
        (ctx.backward ex' registry' g mask).AnswersWhen (g.numel = args.input.numel) mask
            args.input.dims [args.input.channels]
          ∧ ∀ read, g.reshape args.input.dims = .ok read →
            ctx.backward ex' registry' g mask = ctx.backward ex' registry' read mask)
    ∧ (∀ (input : Tensor α) (row : List Nat) (weight bias : Option (Tensor α)) (eps : A)
        (out : Tensor α) (ctx : LayerNormContext α A),
      (LayerNormContext.forward ex registry enabled input row weight bias eps).result
        = .ok (out, ctx) →
      let asked := mask.present weight.isSome bias.isSome
      ∀ g : Tensor α,
        (ctx.backward ex' registry' g mask).AnswersWhen
          (g.AdmittedFor asked weight input.dims True) asked input.dims row)
    ∧ ∀ (input : Tensor α) (numGroups : Nat) (weight bias : Option (Tensor α)) (eps : A)
        (out : Tensor α) (ctx : GroupNormContext α A),
      (GroupNormContext.forward ex registry enabled input numGroups weight bias eps).result
        = .ok (out, ctx) →
      let asked := mask.present weight.isSome bias.isSome
      ∃ stretched, ctx.plan.broadcastParam weight = .ok stretched ∧ ∀ g : Tensor α,
        (ctx.backward ex' registry' g mask).AnswersWhen
          (g.AdmittedFor asked stretched input.dims (0 < input.channels)) asked input.dims
          [input.channels] := by
  refine ⟨?batch, ?folded, ?layer, ?group⟩
  case batch =>
    intro args running out ctx hok hnative g hg
    exact BatchNormContext.refused_of_dims hok hnative hg
  case folded =>
    intro args running out ctx hok hnative g
    refine ⟨⟨InstanceNormContext.returns_of_numel hok hnative, fun hg => ?_⟩, fun read hread => ?_⟩
    · exact ⟨_, InstanceNormContext.refused_of_numel hok hnative hg⟩
    · exact InstanceNormContext.backward_reshape hok hnative hread
  case layer =>
    intro input row weight bias eps out ctx hok asked g
    obtain ⟨hweight, folded, hrecords⟩ := LayerNormContext.records_of_forward hok
    have hanswers := hrecords.answersWhen ex' registry' mask (g := g) (.inl hmask)
    rw [hweight] at hanswers
    exact hanswers
  case group =>
    intro input numGroups weight bias eps out ctx hok asked
    obtain ⟨hweight, folded, hrecords⟩ := GroupNormContext.records_of_forward hok
    refine ⟨ctx.state.weight, hweight, fun g => ?_⟩
    exact hrecords.answersWhen ex' registry' mask (.inl hmask)

/-- Two samples of three channels. -/
def twoByThree : Tensor Float32 :=
  .fewRows 2 3 1

/-- As many values, three by two. -/
def threeByTwo : Tensor Float32 :=
  .fewRows 3 2 1

/-- A training call without parameters. -/
def twoByThreeCall : ForwardArgs Float32 Float :=
  .plain twoByThree 1

/-- A gradient of the transposed shape is refused by a batch normalization and
answered by the other three. -/
theorem gradients_of_other_shapes_transposed :
    let ex : Executor := ⟨.standard, 4⟩
    (∃ out ctx, (BatchNormContext.forward ex .empty false twoByThreeCall .none).result
        = .ok (out, ctx)
      ∧ (ctx.backward ex .empty threeByTwo .all).result
        = .error (.gradientShape "native_batch_norm_backward" ⟨[2, 3]⟩ ⟨[3, 2]⟩))
    ∧ (∃ out ctx, (InstanceNormContext.forward ex .empty false twoByThreeCall .none).result
        = .ok (out, ctx)
      ∧ (ctx.backward ex .empty threeByTwo .all).ReturnsGradients .all [2, 3] [3])
    ∧ (∃ out ctx, (LayerNormContext.forward ex .empty false twoByThree [3] none none
          (1 : Float)).result = .ok (out, ctx)
      ∧ (ctx.backward ex .empty threeByTwo .all).ReturnsGradients ⟨true, false, false⟩ [2, 3] [3])
    ∧ ∃ out ctx, (GroupNormContext.forward ex .empty false twoByThree 3 none none
          (1 : Float)).result = .ok (out, ctx)
      ∧ (ctx.backward ex .empty threeByTwo .all).ReturnsGradients ⟨true, false, false⟩ [2, 3]
        [3] := by
  intro ex
  refine ⟨?batch, ?folded, ?layer, ?group⟩
  case batch =>
    obtain ⟨out, ctx, hok, hnative⟩ := exists_of_recorded (f := BatchNormContext.backend)
      (show (BatchNormContext.forward ex .empty false twoByThreeCall .none).result.toOption.map
        _ = some .native from rfl)
    exact ⟨out, ctx, hok, (gradients_of_other_shapes ex ex .empty .empty false .all rfl).1 _ _ out
      ctx hok hnative threeByTwo (by decide)⟩
  case folded =>
    obtain ⟨out, ctx, hok, hnative⟩ := exists_of_recorded (f := InstanceNormContext.backend)
      (show (InstanceNormContext.forward ex .empty false twoByThreeCall .none).result.toOption.map
        _ = some .native from rfl)
    exact ⟨out, ctx, hok, ((gradients_of_other_shapes ex ex .empty .empty false .all rfl).2.1 _ _
      out ctx hok hnative threeByTwo).1.1 rfl⟩
  case layer =>
    obtain ⟨out, ctx, hok, _⟩ := exists_of_recorded (f := LayerNormContext.backend)
      (show (LayerNormContext.forward ex .empty false twoByThree [3] none none
          (1 : Float)).result.toOption.map _ = some .native from rfl)
    exact ⟨out, ctx, hok, ((gradients_of_other_shapes ex ex .empty .empty false .all rfl).2.2.1 _ _
      _ _ _ out ctx hok threeByTwo).1 ⟨rfl, nofun, nofun, nofun⟩⟩
  case group =>
    obtain ⟨out, ctx, hok, _⟩ := exists_of_recorded (f := GroupNormContext.backend)
      (show (GroupNormContext.forward ex .empty false twoByThree 3 none none
          (1 : Float)).result.toOption.map _ = some .native from rfl)
    obtain ⟨stretched, hstretched, hanswers⟩ :=
      (gradients_of_other_shapes ex ex .empty .empty false .all rfl).2.2.2 _ _ _ _ _ out ctx hok
    cases hstretched
    exact ⟨out, ctx, hok, (hanswers threeByTwo).1 ⟨rfl, nofun, nofun, nofun⟩⟩

end ChannelNorm

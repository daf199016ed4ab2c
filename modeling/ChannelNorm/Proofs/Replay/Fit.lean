/-
  ChannelNorm.Proofs.Replay.Fit
  ─────────────────────────────
  **WHETHER A GRADIENT FITS THE TENSOR IT IS FOR.**

  The input gradient of a recorded call always has the input's shape.  The
  parameter gradients of a recorded call all have one shape, fixed by its input:

      batch, instance   [channels]
      layer             the row
      group             [channels]

  Layer and group normalization accept parameters of that shape only, so their
  gradients fit.  Batch and instance normalization count the values of a
  parameter and leave its shape alone: a gradient fits a vector, and no
  parameter of another rank.
-/
import ChannelNorm.Proofs.Replay.Mismatch

namespace ChannelNorm

variable {α A : Type}

/-! ## §1. Gradients and the tensors they are for. -/

/-- A gradient, where there is one, has the shape of the parameter it is for,
where there is one. -/
def FitsParam (gradient param : Option (Tensor α)) : Prop :=
  ∀ g p, gradient = some g → param = some p → g.dims = p.dims

/-- Every gradient that is there fits the tensor it is for. -/
structure Gradients.Fit (g : Gradients α) (input : Tensor α) (weight bias : Option (Tensor α)) :
    Prop where
  input : FitsParam g.input (some input)
  weight : FitsParam g.weight weight
  bias : FitsParam g.bias bias

/-- Every parameter whose gradient is asked for has a property. -/
def ParamsAsked (asked : GradMask) (weight bias : Option (Tensor α)) (holds : Tensor α → Prop) :
    Prop :=
  (asked.weight = true → ∀ w, weight = some w → holds w)
    ∧ (asked.bias = true → ∀ b, bias = some b → holds b)

/-- A gradient that is there when it is asked for fits by its dimensions. -/
theorem fitsParam_iff {gradient param : Option (Tensor α)} {asked : Bool} {dims : List Nat}
    (h : gradient.map Tensor.dims = if asked then some dims else none) :
    FitsParam gradient param ↔ (asked = true → ∀ p, param = some p → p.dims = dims) := by
  cases asked with
  | false =>
      -- nothing to fit
      have hnone : gradient = none := Option.map_eq_none_iff.1 h
      subst hnone
      exact iff_of_true nofun nofun
  | true =>
      obtain ⟨g, rfl, hdims⟩ := Option.map_eq_some_iff.1 h
      constructor
      · intro hfits _ p hp
        rw [← hdims]
        exact (hfits g p rfl hp).symm
      · intro hshaped g' p hg hp
        cases hg
        rw [hdims]
        exact (hshaped rfl p hp).symm

/-- **Gradients of known shapes fit where the parameters have theirs.** -/
theorem Gradients.HasShapes.fit_iff {g : Gradients α} {asked : GradMask} {input : Tensor α}
    {dims : List Nat} (h : g.HasShapes asked input.dims dims) (weight bias : Option (Tensor α)) :
    g.Fit input weight bias ↔ ParamsAsked asked weight bias (·.dims = dims) := by
  have hinput : FitsParam g.input (some input) :=
    (fitsParam_iff h.input).2 fun _ t ht => congrArg Tensor.dims (Option.some.inj ht).symm
  constructor
  · intro hfit
    exact ⟨(fitsParam_iff h.weight).1 hfit.weight, (fitsParam_iff h.bias).1 hfit.bias⟩
  · intro hshaped
    exact ⟨hinput, (fitsParam_iff h.weight).2 hshaped.1, (fitsParam_iff h.bias).2 hshaped.2⟩

/-- A parameter with one value per channel has the dimensions of a parameter
gradient when it is a vector. -/
theorem dims_eq_singleton_iff {t : Tensor α} {channels : Nat} (h : t.numel = channels) :
    t.dims = [channels] ↔ t.rank = 1 := by
  constructor
  · intro hdims
    unfold Tensor.rank
    rw [hdims]
    rfl
  · intro hrank
    obtain ⟨n, hn⟩ := List.length_eq_one_iff.1 hrank
    rw [hn, ← h, Tensor.numel_of_dims_singleton hn]

/-- **So where every parameter has one value per channel, the vectors fit.** -/
theorem paramsAsked_dims_iff {weight bias : Option (Tensor α)} {channels : Nat}
    (hweight : OnePerChannel channels weight) (hbias : OnePerChannel channels bias)
    (asked : GradMask) :
    ParamsAsked asked weight bias (·.dims = [channels])
      ↔ ParamsAsked asked weight bias (·.rank = 1) := by
  unfold ParamsAsked
  refine and_congr (forall_congr' fun _ => ?_) (forall_congr' fun _ => ?_)
  · exact forall₂_congr fun w hw => dims_eq_singleton_iff (hweight w hw)
  · exact forall₂_congr fun b hb => dims_eq_singleton_iff (hbias b hb)

/-! ## §2. Parameters that were accepted. -/

section
variable [OrderedArith A] [Element α A] {ex : Executor} {registry : Registry α A} {enabled : Bool}
  {args : ForwardArgs α A} {running : ChannelStats α} {out : Tensor α}

/-- A recorded batch normalization has parameters of one value per channel. -/
theorem BatchNormContext.onePerChannel_of_forward {ctx : BatchNormContext α A}
    (hok : (BatchNormContext.forward ex registry enabled args running).result = .ok (out, ctx)) :
    OnePerChannel args.input.channels args.weight
      ∧ OnePerChannel args.input.channels args.bias := by
  obtain ⟨f, hf, _⟩ := BatchNormContext.eq_of_forward hok
  have haccepted := accepted_of_batchNormForward hf
  exact ⟨haccepted.weight, haccepted.bias⟩

/-- So has a recorded instance normalization with a sample. -/
theorem InstanceNormContext.onePerChannel_of_forward {ctx : InstanceNormContext α A}
    (hok : (InstanceNormContext.forward ex registry enabled args running).result = .ok (out, ctx))
    (hnative : ctx.backend = .native) (hsample : 0 < args.input.dims.headD 0) :
    OnePerChannel args.input.channels args.weight
      ∧ OnePerChannel args.input.channels args.bias := by
  obtain ⟨f, hf, hrecords⟩ := InstanceNormContext.records_of_forward hok
  obtain ⟨hfoldable, _⟩ := exists_foldedCall hf (hrecords.backend.symm.trans hnative)
  have haccepted := hfoldable.sizes hsample
  exact ⟨haccepted.weight, haccepted.bias⟩

variable {input : Tensor α} {weight bias : Option (Tensor α)} {eps : A}

/-- A recorded layer normalization has parameters of the dimensions of the row. -/
theorem LayerNormContext.paramsAsked_of_forward {row : List Nat} {ctx : LayerNormContext α A}
    (hok : (LayerNormContext.forward ex registry enabled input row weight bias eps).result
      = .ok (out, ctx)) (asked : GradMask) :
    ParamsAsked asked weight bias (·.dims = row) := by
  unfold LayerNormContext.forward at hok
  obtain ⟨plan, hplan, _⟩ := Logged.lift_bind_eq_ok.1 hok
  obtain ⟨_, hweight, hbias, _⟩ := LayerNormPlan.ofInput_eq_ok.1 hplan
  exact ⟨fun _ => hweight, fun _ => hbias⟩

/-- A recorded group normalization has vectors of one value per channel. -/
theorem GroupNormContext.paramsAsked_of_forward {numGroups : Nat} {ctx : GroupNormContext α A}
    (hok : (GroupNormContext.forward ex registry enabled input numGroups weight bias eps).result
      = .ok (out, ctx)) (asked : GradMask) :
    ParamsAsked asked weight bias (·.dims = [input.channels]) := by
  unfold GroupNormContext.forward at hok
  obtain ⟨plan, hplan, _⟩ := Logged.lift_bind_eq_ok.1 hok
  obtain ⟨N, C, spatial, hdims, _, _, _, hweight, hbias⟩ := GroupNormPlan.ofInput_eq_ok.1 hplan
  rw [Tensor.channels_of_cons hdims]
  exact ⟨fun _ => hweight, fun _ => hbias⟩

/-- What a block normalization returns for a gradient of its input's shape. -/
theorem BlockState.Records.hasShapes {s : BlockState α A} {plan : BlockPlan α}
    {folded param : List Nat} {sums : Prop} {g : Tensor α} {mask : GradMask}
    {grads : Gradients α} (h : s.Records plan input weight bias folded param sums)
    (hg : g.dims = input.dims) (hok : (s.backward ex registry plan g mask).result = .ok grads) :
    grads.HasShapes (mask.present weight.isSome bias.isSome) input.dims param := by
  rw [← h.asked_eq]
  exact hasShapes_backward h.fits h.replayable ex registry (congrArg volume hg) hok

end

/-! ## §3. Every successful backward. -/

/-- **Input gradients fit, and so do the parameter gradients of layer and group
normalization; those of batch and instance normalization fit vectors only.**

Every parameter gradient of a batch or instance normalization has the dimensions
`[channels]`, whatever the shape of the parameter it was accepted with.  Without
a sample an instance normalization counts nothing, and its gradients fit the
parameters that happen to have these dimensions. -/
theorem gradients_fit_iff [OrderedArith A] [Element α A] (ex ex' : Executor)
    (registry registry' : Registry α A) (enabled : Bool) (mask : GradMask) :
    (∀ (args : ForwardArgs α A) (running : ChannelStats α) (out : Tensor α)
        (ctx : BatchNormContext α A),
      (BatchNormContext.forward ex registry enabled args running).result = .ok (out, ctx) →
      ctx.backend = .native → ∀ g : Tensor α, g.dims = args.input.dims →
      ∀ grads, (ctx.backward ex' registry' g mask).result = .ok grads →
        grads.HasShapes mask args.input.dims [args.input.channels]
          ∧ (grads.Fit args.input args.weight args.bias
            ↔ ParamsAsked mask args.weight args.bias (·.rank = 1)))
    ∧ (∀ (args : ForwardArgs α A) (running : ChannelStats α) (out : Tensor α)
        (ctx : InstanceNormContext α A),
      (InstanceNormContext.forward ex registry enabled args running).result = .ok (out, ctx) →
      ctx.backend = .native → ∀ g : Tensor α, g.dims = args.input.dims →
      ∀ grads, (ctx.backward ex' registry' g mask).result = .ok grads →
        grads.HasShapes mask args.input.dims [args.input.channels]
          ∧ (grads.Fit args.input args.weight args.bias
            ↔ ParamsAsked mask args.weight args.bias (·.dims = [args.input.channels]))
          ∧ (0 < args.input.dims.headD 0 → (grads.Fit args.input args.weight args.bias
            ↔ ParamsAsked mask args.weight args.bias (·.rank = 1))))
    ∧ (∀ (input : Tensor α) (row : List Nat) (weight bias : Option (Tensor α)) (eps : A)
        (out : Tensor α) (ctx : LayerNormContext α A),
      (LayerNormContext.forward ex registry enabled input row weight bias eps).result
        = .ok (out, ctx) →
      ∀ g : Tensor α, g.dims = input.dims →
      ∀ grads, (ctx.backward ex' registry' g mask).result = .ok grads →
        grads.HasShapes (mask.present weight.isSome bias.isSome) input.dims row
          ∧ grads.Fit input weight bias)
    ∧ ∀ (input : Tensor α) (numGroups : Nat) (weight bias : Option (Tensor α)) (eps : A)
        (out : Tensor α) (ctx : GroupNormContext α A),
      (GroupNormContext.forward ex registry enabled input numGroups weight bias eps).result
        = .ok (out, ctx) →
      ∀ g : Tensor α, g.dims = input.dims →
      ∀ grads, (ctx.backward ex' registry' g mask).result = .ok grads →
        grads.HasShapes (mask.present weight.isSome bias.isSome) input.dims [input.channels]
          ∧ grads.Fit input weight bias := by
  refine ⟨?batch, ?folded, ?layer, ?group⟩
  case batch =>
    intro args running out ctx hok hnative g hg grads hgrads
    obtain ⟨_, hreturned, hshapes⟩ :
        (ctx.backward ex' registry' g mask).ReturnsGradients mask _ _ :=
      BatchNormContext.returns_of_dims hok hnative hg
    obtain rfl := Except.ok.inj (hreturned.symm.trans hgrads)
    obtain ⟨hweight, hbias⟩ := BatchNormContext.onePerChannel_of_forward hok
    exact ⟨hshapes, (hshapes.fit_iff _ _).trans (paramsAsked_dims_iff hweight hbias mask)⟩
  case folded =>
    intro args running out ctx hok hnative g hg grads hgrads
    obtain ⟨_, hreturned, hshapes⟩ :
        (ctx.backward ex' registry' g mask).ReturnsGradients mask _ _ :=
      InstanceNormContext.returns_of_numel hok hnative (congrArg volume hg)
    obtain rfl := Except.ok.inj (hreturned.symm.trans hgrads)
    refine ⟨hshapes, hshapes.fit_iff _ _, fun hsample => ?_⟩
    obtain ⟨hweight, hbias⟩ := InstanceNormContext.onePerChannel_of_forward hok hnative hsample
    exact (hshapes.fit_iff _ _).trans (paramsAsked_dims_iff hweight hbias mask)
  case layer =>
    intro input row weight bias eps out ctx hok g hg grads hgrads
    obtain ⟨_, folded, hrecords⟩ := LayerNormContext.records_of_forward hok
    have hshapes := hrecords.hasShapes hg hgrads
    exact ⟨hshapes, (hshapes.fit_iff _ _).2 (LayerNormContext.paramsAsked_of_forward hok _)⟩
  case group =>
    intro input numGroups weight bias eps out ctx hok g hg grads hgrads
    obtain ⟨_, folded, hrecords⟩ := GroupNormContext.records_of_forward hok
    have hshapes := hrecords.hasShapes hg hgrads
    exact ⟨hshapes, (hshapes.fit_iff _ _).2 (GroupNormContext.paramsAsked_of_forward hok _)⟩

/-- One sample of two channels. -/
def oneRow : Tensor Float32 :=
  .fewRows 1 2 1

/-- A training call whose weight is a row, and whose bias is a vector. -/
def rowWeightCall : ForwardArgs Float32 Float where
  input := oneRow
  weight := some (.fewRows 1 2 1)
  bias := some (.few 2 0)
  training := true
  momentum := 0
  eps := 1

/-- A batch or an instance normalization accepts a row as its weight and returns a
vector as its gradient; a layer normalization of the same row returns a row. -/
theorem gradients_fit_iff_row :
    let ex : Executor := ⟨.standard, 4⟩
    (∃ out ctx grads, (BatchNormContext.forward ex .empty false rowWeightCall .none).result
        = .ok (out, ctx)
      ∧ (ctx.backward ex .empty oneRow .all).result = .ok grads
      ∧ grads.weight.map Tensor.dims = some [2]
      ∧ ¬ grads.Fit oneRow rowWeightCall.weight rowWeightCall.bias)
    ∧ (∃ out ctx grads, (InstanceNormContext.forward ex .empty false rowWeightCall .none).result
        = .ok (out, ctx)
      ∧ (ctx.backward ex .empty oneRow .all).result = .ok grads
      ∧ grads.weight.map Tensor.dims = some [2]
      ∧ ¬ grads.Fit oneRow rowWeightCall.weight rowWeightCall.bias)
    ∧ (∃ out ctx grads, (LayerNormContext.forward ex .empty false oneRow [1, 2]
          rowWeightCall.weight none (1 : Float)).result = .ok (out, ctx)
      ∧ (ctx.backward ex .empty oneRow .all).result = .ok grads
      ∧ grads.weight.map Tensor.dims = some [1, 2]
      ∧ grads.Fit oneRow rowWeightCall.weight none)
    ∧ ∃ out ctx grads, (GroupNormContext.forward ex .empty false oneRow 1 rowWeightCall.bias none
          (1 : Float)).result = .ok (out, ctx)
      ∧ (ctx.backward ex .empty oneRow .all).result = .ok grads
      ∧ grads.weight.map Tensor.dims = some [2]
      ∧ grads.Fit oneRow rowWeightCall.bias none := by
  intro ex
  -- the weight is a row, not a vector
  have hrow : ¬ ParamsAsked .all rowWeightCall.weight rowWeightCall.bias (·.rank = 1) :=
    fun hranks => absurd (hranks.1 rfl _ rfl) (by decide)
  have hfit := gradients_fit_iff (α := Float32) (A := Float) ex ex .empty .empty false .all
  refine ⟨?batch, ?folded, ?layer, ?group⟩
  case batch =>
    obtain ⟨out, ctx, hok, hnative⟩ := exists_of_recorded (f := BatchNormContext.backend)
      (show (BatchNormContext.forward ex .empty false rowWeightCall .none).result.toOption.map
        _ = some .native from rfl)
    obtain ⟨grads, hgrads, _⟩ : (ctx.backward ex .empty oneRow .all).ReturnsGradients .all _ _ :=
      BatchNormContext.returns_of_dims hok hnative rfl
    obtain ⟨hshapes, hiff⟩ := hfit.1 _ _ out ctx hok hnative oneRow rfl grads hgrads
    exact ⟨out, ctx, grads, hok, hgrads, hshapes.weight, fun h => hrow (hiff.1 h)⟩
  case folded =>
    obtain ⟨out, ctx, hok, hnative⟩ := exists_of_recorded (f := InstanceNormContext.backend)
      (show (InstanceNormContext.forward ex .empty false rowWeightCall .none).result.toOption.map
        _ = some .native from rfl)
    obtain ⟨grads, hgrads, _⟩ : (ctx.backward ex .empty oneRow .all).ReturnsGradients .all _ _ :=
      InstanceNormContext.returns_of_numel hok hnative rfl
    obtain ⟨hshapes, _, hiff⟩ := hfit.2.1 _ _ out ctx hok hnative oneRow rfl grads hgrads
    exact ⟨out, ctx, grads, hok, hgrads, hshapes.weight,
      fun h => hrow ((hiff (by decide)).1 h)⟩
  case layer =>
    obtain ⟨out, ctx, hok, _⟩ := exists_of_recorded (f := LayerNormContext.backend)
      (show (LayerNormContext.forward ex .empty false oneRow [1, 2] rowWeightCall.weight none
          (1 : Float)).result.toOption.map _ = some .native from rfl)
    obtain ⟨_, _, hrecords⟩ := LayerNormContext.records_of_forward hok
    obtain ⟨grads, hgrads, _⟩ := (hrecords.answersWhen ex .empty .all (g := oneRow) (.inl rfl)).1
      (hrecords.admits_of_dims .all rfl fun _ => trivial)
    obtain ⟨hshapes, hfits⟩ := hfit.2.2.1 _ _ _ _ _ out ctx hok oneRow rfl grads hgrads
    exact ⟨out, ctx, grads, hok, hgrads, hshapes.weight, hfits⟩
  case group =>
    obtain ⟨out, ctx, hok, _⟩ := exists_of_recorded (f := GroupNormContext.backend)
      (show (GroupNormContext.forward ex .empty false oneRow 1 rowWeightCall.bias none
          (1 : Float)).result.toOption.map _ = some .native from rfl)
    obtain ⟨_, _, hrecords⟩ := GroupNormContext.records_of_forward hok
    obtain ⟨grads, hgrads, _⟩ := (hrecords.answersWhen ex .empty .all (g := oneRow) (.inl rfl)).1
      (hrecords.admits_of_dims .all rfl fun _ => by decide)
    obtain ⟨hshapes, hfits⟩ := hfit.2.2.2 _ _ _ _ _ out ctx hok oneRow rfl grads hgrads
    exact ⟨out, ctx, grads, hok, hgrads, hshapes.weight, hfits⟩

end ChannelNorm

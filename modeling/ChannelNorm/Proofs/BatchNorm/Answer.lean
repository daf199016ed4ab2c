/-
  ChannelNorm.Proofs.BatchNorm.Answer
  ───────────────────────────────────
  **BACKWARD CALLS THAT ANSWER A FORWARD CALL.**

  A backward call that has all it reads but a gradient of the right shape awaits
  one.  It is answered or refused by that shape alone:

      same shape as the input   gradients, each asked for of its own shape
      any other shape           the shape mismatch, naming both shapes

  A call that reads what a native forward call left awaits a gradient, in
  training mode because of the saved statistics, in evaluation mode because the
  forward call had running ones.
-/
import ChannelNorm.Proofs.BatchNorm.Backward
import ChannelNorm.Proofs.BatchNorm.Totality

namespace ChannelNorm

variable {α A : Type}

/-! ## §1. Parameters that are there. -/

/-- A parameter is there and holds one value per channel. -/
def Supplied (channels : Nat) (p : Option (Tensor α)) : Prop :=
  ∃ t, p = some t ∧ t.numel = channels

section
variable {channels : Nat} {p : Option (Tensor α)}

theorem Supplied.onePerChannel (h : Supplied channels p) : OnePerChannel channels p := by
  obtain ⟨t, rfl, ht⟩ := h
  intro u hu
  cases hu
  exact ht

theorem Supplied.isSome (h : Supplied channels p) : p.isSome = true := by
  obtain ⟨t, rfl, _⟩ := h
  rfl

theorem OnePerChannel.supplied (h : OnePerChannel channels p) (hsome : p.isSome = true) :
    Supplied channels p := by
  obtain ⟨t, rfl⟩ := Option.isSome_iff_exists.1 hsome
  exact ⟨t, rfl, h t rfl⟩

end

/-! ## §2. Shapes of gradients. -/

/-- The gradients asked for are there, and no others: the input gradient of
dimensions `input`, those of the parameters of dimensions `param`. -/
structure Gradients.HasShapes (g : Gradients α) (asked : GradMask) (input param : List Nat) :
    Prop where
  input : g.input.map Tensor.dims = if asked.input then some input else none
  weight : g.weight.map Tensor.dims = if asked.weight then some param else none
  bias : g.bias.map Tensor.dims = if asked.bias then some param else none

/-- A mask drops a gradient whatever it holds. -/
theorem map_filter_const {β γ : Type} (o : Option β) (f : β → γ) (b : Bool) :
    (o.filter fun _ => b).map f = (o.map f).filter fun _ => b := by
  cases o <;> cases b <;> rfl

/-- A mask leaves the gradients it asks for. -/
theorem Gradients.HasShapes.masked {g : Gradients α} {input param : List Nat}
    (h : g.HasShapes .all input param) (mask : GradMask) :
    (g.masked mask).HasShapes mask input param := by
  have hinput : g.input.map Tensor.dims = some input := h.input
  have hweight : g.weight.map Tensor.dims = some param := h.weight
  have hbias : g.bias.map Tensor.dims = some param := h.bias
  refine ⟨?_, ?_, ?_⟩
  all_goals
    unfold Gradients.masked
    dsimp only
    rw [map_filter_const]
  · rw [hinput]
    cases mask.input <;> rfl
  · rw [hweight]
    cases mask.weight <;> rfl
  · rw [hbias]
    cases mask.bias <;> rfl

/-! ## §3. Calls that await a gradient. -/

/-- A backward call with all it reads, the incoming gradient apart. -/
structure BackwardArgs.Awaits (args : BackwardArgs α A) : Prop where
  rank : 2 ≤ args.input.rank
  weight : OnePerChannel args.input.channels args.weight
  mean : Supplied args.input.channels args.statistics.mean
  var : Supplied args.input.channels args.statistics.var

/-- With a gradient of the input's shape it is accepted. -/
theorem BackwardArgs.Awaits.accepted {args : BackwardArgs α A} (h : args.Awaits)
    (hdims : args.gradOutput.dims = args.input.dims) : args.Accepted :=
  ⟨h.rank, hdims, h.weight, h.mean.onePerChannel, h.var.onePerChannel, h.mean.isSome,
    h.var.isSome⟩

section
variable [OrderedArith A] [Element α A]

theorem BackwardArgs.hasShapes_gradients (args : BackwardArgs α A) :
    args.gradients.HasShapes .all args.input.dims [args.input.channels] := by
  refine ⟨?_, ?_, ?_⟩
  · exact congrArg some Tensor.dims_withContents
  · exact congrArg some (args.input.dims_perChannel _)
  · exact congrArg some (args.input.dims_perChannel _)

/-- **A gradient of the input's shape is answered**, with gradients of the shapes
of input and parameters. -/
theorem BackwardArgs.Awaits.answered {args : BackwardArgs α A} (h : args.Awaits)
    (hdims : args.gradOutput.dims = args.input.dims) (ex : Executor) :
    ∃ g, nativeBatchNormBackward ex args = .ok g
      ∧ g.HasShapes args.mask args.input.dims [args.input.channels] :=
  ⟨_, nativeBatchNormBackward_ok ex (h.accepted hdims),
    args.hasShapes_gradients.masked args.mask⟩

/-- **A gradient of another shape is refused.** -/
theorem nativeBatchNormBackward_refused {args : BackwardArgs α A} (hrank : 2 ≤ args.input.rank)
    (hdims : args.gradOutput.dims ≠ args.input.dims) (ex : Executor) :
    nativeBatchNormBackward ex args
      = .error (.gradientShape "native_batch_norm_backward" args.input.shape
          args.gradOutput.shape) := by
  have hsame : args.gradOutput.sameShape args.input = false := by
    unfold Tensor.sameShape
    exact beq_eq_false_iff_ne.2 hdims
  have hcheck : checkBackward "native_batch_norm_backward" args
      = .error (.gradientShape "native_batch_norm_backward" args.input.shape
          args.gradOutput.shape) := by
    unfold checkBackward
    rw [if_neg (Nat.not_lt.2 hrank), hsame]
    rfl
  exact nativeBatchNormBackward_of_error ex hcheck

/-! ## §4. Calls that answer a forward call. -/

/-- A native training call saves both statistics, one value per channel. -/
theorem supplied_saved_nativeBatchNorm {ex : Executor} {args : ForwardArgs α A}
    {running : ChannelStats α} {f : Forward α} (h : args.Accepted running)
    (ht : args.training = true) (hok : (nativeBatchNorm ex args running).result = .ok f) :
    Supplied args.input.channels f.saved.mean ∧ Supplied args.input.channels f.saved.var := by
  rw [nativeBatchNorm_training ex h ht] at hok
  cases hok
  exact ⟨⟨_, rfl, args.input.numel_perChannel _⟩, ⟨_, rfl, args.input.numel_perChannel _⟩⟩

/-- **A backward call that reads what a native forward call left awaits a
gradient.** -/
theorem BackwardArgs.Awaits.of_forward {ex : Executor} {args : ForwardArgs α A}
    {running : ChannelStats α} {f : Forward α} {back : BackwardArgs α A}
    (h : args.Accepted running) (hok : (nativeBatchNorm ex args running).result = .ok f)
    (hinput : back.input = args.input) (hweight : back.weight = args.weight)
    (htraining : back.training = args.training) (hsaved : back.saved = f.saved)
    (hrunning : args.training = false → Supplied args.input.channels back.running.mean
      ∧ Supplied args.input.channels back.running.var) :
    back.Awaits := by
  have hstatistics : Supplied args.input.channels back.statistics.mean
      ∧ Supplied args.input.channels back.statistics.var := by
    unfold BackwardArgs.statistics
    rw [htraining, hsaved]
    cases ht : args.training with
    | true => exact supplied_saved_nativeBatchNorm h ht hok
    | false => exact hrunning ht
  rw [← hinput] at hstatistics
  refine ⟨?_, ?_, hstatistics.1, hstatistics.2⟩
  · rw [hinput]
    exact h.rank
  · rw [hinput, hweight]
    exact h.weight

end

end ChannelNorm

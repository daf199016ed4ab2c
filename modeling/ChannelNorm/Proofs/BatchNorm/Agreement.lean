/-
  ChannelNorm.Proofs.BatchNorm.Agreement
  ──────────────────────────────────────
  **TRAINING AND EVALUATION WITH THE BATCH'S OWN STATISTICS AGREE.**

  An update without running statistics returns the mean and the biased variance
  of a batch.  Evaluating the batch with them reads, in channel `c`,

      training      narrow (if var = 0 and eps = 0 then 0 else 1 / sqrt (var + eps))
      evaluation    narrow (1 / sqrt (widen (narrow var) + eps))

  These are one value where storage keeps the variance as it is and the guard of
  training does not apply.  The rest of the arithmetic is the same when the
  evaluation runs the general kernel; the flat kernel computes it in another
  order, which in exact arithmetic makes no difference.
-/
import Mathlib
import ChannelNorm.Proofs.BatchNorm.Outcome
import ChannelNorm.Proofs.Tensor.Alike
import ChannelNorm.Scalar.Binary

namespace ChannelNorm

/-! ## §1. Storage that rounds nothing. -/

/-- Storage that holds every value of the accumulator. -/
class Lossless (α A : Type) [OrderedArith A] [Element α A] : Prop where
  widen_narrow (a : A) : widen (narrow a : α) = a

/-- Exact arithmetic: nothing is rounded, sums and products obey the laws of a
commutative ring, and only zero counts as zero. -/
class ExactArith (α A : Type) [OrderedArith A] [Element α A] : Prop extends Lossless α A where
  storage : LawfulArith α
  accumulator : LawfulArith A
  eq_zero_of_isZero (a : A) : isZero a = true → a = 0

/-- Double precision accumulates in itself. -/
instance : Lossless Float Float where
  widen_narrow _ := rfl

instance : ExactArith ℝ ℝ where
  widen_narrow _ := rfl
  storage := inferInstance
  accumulator := inferInstance
  eq_zero_of_isZero _ := of_decide_eq_true

variable {α A : Type} [OrderedArith A] [Element α A]

/-- Values with a sum other than zero are not both zero. -/
theorem not_both_isZero [ExactArith α A] {a b : A} (h : a + b ≠ 0) :
    ¬ (isZero a = true ∧ isZero b = true) := by
  rintro ⟨ha, hb⟩
  have _ : LawfulArith A := ExactArith.accumulator α
  have hsum : a + b = 0 + 0 := congrArg₂ (· + ·)
    (ExactArith.eq_zero_of_isZero (α := α) a ha) (ExactArith.eq_zero_of_isZero (α := α) b hb)
  exact h (hsum.trans (LawfulArith.zero_add 0))

/-! ## §2. One channel. -/

namespace Tensor

/-- Biased variance of one channel, as it is stored. -/
def batchVariance (input : Tensor α) (c : Nat) : α :=
  input.batchSpread .rawVariance (0 : A) c

/-- Over the reals it is an average of squares. -/
theorem batchVariance_nonneg (input : Tensor ℝ) (c : Nat) : 0 ≤ input.batchVariance c := by
  show 0 ≤ sumInOrder ((input.plane c).map (squaredDeviation (input.batchMean c)))
    / (input.elementsPerChannel : ℝ)
  rw [sumInOrder_real]
  refine div_nonneg (List.sum_nonneg fun y hy => ?_) (Nat.cast_nonneg _)
  obtain ⟨x, _, rfl⟩ := List.mem_map.1 hy
  exact mul_self_nonneg _

/-- **Where storage rounds nothing and the guard does not apply, the inverse
standard deviation of training is that of the stored variance.** -/
theorem batchInvstd_eq_running [Lossless α A] (input : Tensor α) (eps : A) (c : Nat)
    (h : ¬ (isZero (widen (input.batchVariance c)) = true ∧ isZero eps = true)) :
    input.batchInvstd eps c = runningInverseStd (input.batchVariance c) eps := by
  have hstored : widen (input.batchVariance c)
      = (input.momentsAt c).varSum / ofCount input.elementsPerChannel :=
    Lossless.widen_narrow _
  rw [hstored, ← Bool.and_eq_true_iff] at h
  unfold batchInvstd runningInverseStd VarTransform.apply
  dsimp only
  rw [hstored, if_neg h]

end Tensor

/-! ## §3. The two calls. -/

/-- The output of a call made in the given mode. -/
def ForwardArgs.outputIn (args : ForwardArgs α A) (training : Bool) (ex : Executor)
    (running : ChannelStats α) : Except TensorError (Tensor α) :=
  (nativeBatchNorm ex { args with training } running).result.map (·.output)

/-- Mean and biased variance of every channel, as an update returns them. -/
def Tensor.ownStats (input : Tensor α) : ChannelStats α where
  mean := some (input.perChannel (.ofFn fun c => input.batchMean c))
  var := some (input.perChannel (.ofFn fun c => input.batchVariance c))

/-- An update without running statistics returns them. -/
theorem batchNormUpdateStats_alone (ex : Executor) {input : Tensor α} (momentum : A)
    (hrank : 2 ≤ input.rank) :
    (batchNormUpdateStats ex input .none momentum).1
      = .ok (input.perChannel (.ofFn fun c => input.batchMean c),
          input.perChannel (.ofFn fun c => input.batchVariance c)) := by
  have hfaults : updateFaults input .none = [] := updateFaults_eq_nil.2 ⟨hrank, nofun, nofun⟩
  rw [batchNormUpdateStats_ok ex momentum hfaults]
  rfl

/-- They are statistics to evaluate with. -/
theorem Tensor.statisticFaults_ownStats (input : Tensor α) (operation name : String) :
    statisticFaults operation name false input.channels input.ownStats.mean = []
      ∧ statisticFaults operation name false input.channels input.ownStats.var = [] := by
  have hstored : ∀ v : Vector α input.channels,
      statisticFaults operation name false input.channels (some (input.perChannel v)) = [] := by
    intro v
    refine statisticFaults_eq_nil.2 ⟨?_, fun _ => rfl⟩
    rintro t ⟨⟩
    exact input.numel_perChannel v
  exact ⟨hstored _, hstored _⟩

section
variable {args : ForwardArgs α A} {running : ChannelStats α}

/-- Training with any running statistics and evaluation with the batch's own have
the same faults: those of the input and of the affine parameters. -/
theorem ForwardArgs.faults_modes (hmean : OnePerChannel args.input.channels running.mean)
    (hvar : OnePerChannel args.input.channels running.var) (operation : String) :
    { args with training := true }.faults operation running
      = { args with training := false }.faults operation args.input.ownStats := by
  have htrain : ∀ {name : String} {p : Option (Tensor α)}, OnePerChannel args.input.channels p →
      statisticFaults operation name true args.input.channels p = [] := fun h =>
    statisticFaults_eq_nil.2 ⟨h, nofun⟩
  unfold faults
  dsimp only
  rw [htrain hmean, htrain hvar, (args.input.statisticFaults_ownStats operation _).1,
    (args.input.statisticFaults_ownStats operation _).2]

/-- Read in a channel, they are its mean and its biased variance. -/
theorem Tensor.paramAt_ownStats (input : Tensor α) {c : Nat} (hc : c < input.channels) :
    paramAt input.ownStats.mean 0 c = input.batchMean c
      ∧ paramAt input.ownStats.var 0 c = input.batchVariance c :=
  ⟨input.elem_perChannel_ofFn _ hc, input.elem_perChannel_ofFn _ hc⟩

/-- Evaluating with the batch's own statistics puts at every place what training
puts there, where their inverse standard deviations are the same. -/
theorem ForwardArgs.evaluationAt_ownStats (hrank : 2 ≤ args.input.rank)
    (hinvstd : ∀ c < args.input.channels, args.input.batchInvstd args.eps c
      = runningInverseStd (args.input.batchVariance c) args.eps)
    {k : Nat} (hk : k < args.input.numel) :
    args.evaluationAt args.input.ownStats k = args.trainingAt k := by
  have hc : channelOf args.input.dims k < args.input.channels := channelOf_lt hrank hk
  obtain ⟨hmean, hvar⟩ := args.input.paramAt_ownStats hc
  unfold evaluationAt trainingAt
  dsimp only
  rw [hmean, hvar, hinvstd _ hc]

/-- **Both modes return the same output, or refuse with the same error**, where
the inverse standard deviations agree and so does the kernel that evaluates. -/
theorem ForwardArgs.outputIn_eq (ex ex' : Executor) (hrank : 2 ≤ args.input.rank)
    (hmean : OnePerChannel args.input.channels running.mean)
    (hvar : OnePerChannel args.input.channels running.var)
    (hinvstd : ∀ c < args.input.channels, args.input.batchInvstd args.eps c
      = runningInverseStd (args.input.batchVariance c) args.eps)
    (hkernel : { args with training := false }.inferredAt args.input.ownStats
      = args.evaluationAt args.input.ownStats) :
    args.outputIn true ex running
      = args.outputIn false ex' args.input.ownStats := by
  unfold outputIn
  obtain ⟨e, hrefused, hrefused'⟩ | ⟨haccepted, haccepted'⟩ :=
    nativeBatchNorm_refused_alike ex ex' (args.faults_modes hmean hvar "native_batch_norm")
  · rw [hrefused, hrefused']
    rfl
  · have hplace : ∀ k < args.input.numel, args.trainingAt k
        = { args with training := false }.inferredAt args.input.ownStats k := by
      intro k hk
      rw [hkernel]
      exact (evaluationAt_ownStats hrank hinvstd hk).symm
    rw [nativeBatchNorm_training ex haccepted rfl, (nativeBatchNorm_inferred ex' haccepted' rfl).1]
    exact congrArg Except.ok ((Tensor.Alike.refl args.input).withContents_range_eq hplace)

/-- The flat kernel does not run on a strided input. -/
theorem ForwardArgs.inferredAt_of_strided (stats : ChannelStats α)
    (h : args.input.isContiguous = false) :
    args.inferredAt stats = args.evaluationAt stats := by
  have hgeneral : contiguousInference args stats = false := by
    unfold contiguousInference
    rw [h, Bool.and_false]
    simp only [Bool.false_and]
  unfold inferredAt
  rw [hgeneral]
  exact if_neg Bool.false_ne_true

/-- In exact arithmetic both kernels put the same at every place. -/
theorem ForwardArgs.inferredAt_of_lawful [LawfulArith α] (stats : ChannelStats α) :
    args.inferredAt stats = args.evaluationAt stats := by
  unfold inferredAt
  split
  · funext k
    exact hoisted_eq _ _ _ _ _
  · rfl

end

/-! ## §4. Both modes. -/

/-- **Training and evaluation agree.**  Whatever the affine parameters, epsilon,
momentum and executors, an update without running statistics returns a mean and
a variance, and a call in training mode, with whatever running statistics, and a
call in evaluation mode with that mean and variance return the same output, or
refuse the affine parameters alike: in exact arithmetic if no channel has
`var + eps = 0`, and for storage that rounds nothing, whatever else arithmetic
is, if the input is strided and no channel has `var = 0` together with
`eps = 0`. -/
theorem training_agrees_with_evaluation [Lossless α A] (ex ex' ex'' : Executor)
    (args : ForwardArgs α A) (running : ChannelStats α) (momentum : A)
    (hrank : 2 ≤ args.input.rank)
    (hmean : OnePerChannel args.input.channels running.mean)
    (hvar : OnePerChannel args.input.channels running.var) :
    ∃ mean var : Tensor α,
      (batchNormUpdateStats ex args.input .none momentum).1 = .ok (mean, var)
      ∧ (ExactArith α A →
          (∀ c < args.input.channels, widen (var.elem c) + args.eps ≠ 0) →
            args.outputIn true ex' running = args.outputIn false ex'' ⟨some mean, some var⟩)
      ∧ (args.input.isContiguous = false →
          (∀ c < args.input.channels,
            ¬ (isZero (widen (var.elem c)) = true ∧ isZero args.eps = true)) →
            args.outputIn true ex' running = args.outputIn false ex'' ⟨some mean, some var⟩)
      ∧ (OnePerChannel args.input.channels args.weight →
          OnePerChannel args.input.channels args.bias →
            ∃ output, args.outputIn true ex' running = .ok output
              ∧ output.dims = args.input.dims) := by
  have hvariance : ∀ c < args.input.channels,
      (args.input.perChannel (.ofFn fun c => args.input.batchVariance c)).elem c
        = args.input.batchVariance c := fun c hc =>
    args.input.elem_perChannel_ofFn _ hc
  refine ⟨_, _, batchNormUpdateStats_alone ex momentum hrank, ?exact, ?strided, ?returns⟩
  case exact =>
    intro _ hne
    have _ : LawfulArith α := ExactArith.storage
    refine args.outputIn_eq ex' ex'' hrank hmean hvar (fun c hc => ?_)
      (ForwardArgs.inferredAt_of_lawful _)
    have hsum := hne c hc
    rw [hvariance c hc] at hsum
    exact args.input.batchInvstd_eq_running args.eps c (not_both_isZero (α := α) hsum)
  case strided =>
    intro hstrided hguard
    refine args.outputIn_eq ex' ex'' hrank hmean hvar (fun c hc => ?_)
      (ForwardArgs.inferredAt_of_strided _ hstrided)
    have hzero := hguard c hc
    rw [hvariance c hc] at hzero
    exact args.input.batchInvstd_eq_running args.eps c hzero
  case returns =>
    intro hweight hbias
    have haccepted : { args with training := true }.Accepted running :=
      ⟨hrank, hweight, hbias, hmean, hvar, nofun⟩
    unfold ForwardArgs.outputIn
    rw [nativeBatchNorm_training ex' haccepted rfl]
    exact ⟨_, rfl, by rw [Tensor.dims_withContents]⟩

/-- A double-precision batch with its columns laid end to end. -/
def stridedDoubles : Tensor Float :=
  .buildIn .columns [3, 2] (by decide) [1, 3, 5, 2, 4, 6] rfl .cpu

/-- A call on it. -/
def stridedDoublesCall : ForwardArgs Float Float where
  input := stridedDoubles
  weight := none
  bias := some (stridedDoubles.perChannel #v[5, 6])
  training := true
  momentum := 0
  eps := 1

/-- Over the reals on a contiguous batch, where evaluation runs the flat kernel,
and in double precision on a strided one. -/
theorem training_agrees_with_evaluation_sample :
    (∃ mean var,
      (batchNormUpdateStats ⟨.standard, 4⟩ sampleBatch .none (1 : ℝ)).1 = .ok (mean, var)
      ∧ contiguousInference (sampleCall false) ⟨some mean, some var⟩ = true
      ∧ (∀ c < 2, var.elem c + 1 ≠ 0)
      ∧ (sampleCall true).outputIn true ⟨.standard, 1⟩ sampleRunning
          = (sampleCall true).outputIn false ⟨.standard, 2⟩ ⟨some mean, some var⟩)
    ∧ ∃ mean var,
      (batchNormUpdateStats ⟨.standard, 4⟩ stridedDoubles .none (1 : Float)).1 = .ok (mean, var)
      ∧ stridedDoubles.isContiguous = false
      ∧ stridedDoublesCall.outputIn true ⟨.standard, 1⟩ .none
          = stridedDoublesCall.outputIn false ⟨.standard, 2⟩ ⟨some mean, some var⟩ := by
  have hpair : ∀ x y : ℝ, OnePerChannel 2 (some (samplePair x y)) := by
    rintro x y _ ⟨⟩
    rfl
  constructor
  · have hrank : 2 ≤ sampleBatch.rank := by decide
    obtain ⟨mean, var, hupdate, hexact, _⟩ := training_agrees_with_evaluation ⟨.standard, 4⟩
      ⟨.standard, 1⟩ ⟨.standard, 2⟩ (sampleCall true) sampleRunning 1 hrank (hpair 0 1) (hpair 3 8)
    have hstats := hupdate.symm.trans (batchNormUpdateStats_alone _ _ hrank)
    obtain ⟨rfl, rfl⟩ := Prod.mk.inj (Except.ok.inj hstats)
    have hne : ∀ c < 2,
        (sampleBatch.perChannel (.ofFn fun c => sampleBatch.batchVariance c)).elem c + 1 ≠ 0 := by
      intro c hc
      have hnonneg := sampleBatch.batchVariance_nonneg c
      rw [sampleBatch.elem_perChannel_ofFn (fun c => sampleBatch.batchVariance c) hc]
      linarith
    exact ⟨_, _, hupdate, rfl, hne, hexact inferInstance hne⟩
  · obtain ⟨mean, var, hupdate, _, hstrided, _⟩ := training_agrees_with_evaluation ⟨.standard, 4⟩
      ⟨.standard, 1⟩ ⟨.standard, 2⟩ stridedDoublesCall .none 1 (by decide) nofun nofun
    have hone : isZero (1 : Float) = false := by decide
    have hguard : ∀ c < stridedDoublesCall.input.channels,
        ¬ (isZero (widen (var.elem c)) = true ∧ isZero stridedDoublesCall.eps = true) :=
      fun c _ h => Bool.false_ne_true (hone.symm.trans h.2)
    exact ⟨mean, var, hupdate, rfl, hstrided rfl hguard⟩

end ChannelNorm

/-
  ChannelNorm.Proofs.BatchNorm.Inference
  ──────────────────────────────────────
  **EVALUATION MODE: WHICH KERNEL RAN IS NOT VISIBLE IN THE RESULT.**

  A call in evaluation mode takes the flat kernel when every tensor it reads is
  contiguous and the general one otherwise.  In exact arithmetic the result is
  the same tensor either way, namely that of the general kernel:

      output[k]  =  (x[k] - mean c) * invstd c * weight c + bias c

  and the running statistics are left as they were.
-/
import Mathlib
import ChannelNorm.Proofs.BatchNorm.Transform
import ChannelNorm.Proofs.Scalar.Real

namespace ChannelNorm

variable {α A : Type} [OrderedArith A] [Element α A]

/-! ## §1. A checked call. -/

/-- In exact arithmetic a checked evaluation returns what the general kernel
computes, whichever kernel it ran. -/
theorem nativeBatchNorm_of_evaluation [LawfulArith α] (ex : Executor) {args : ForwardArgs α A}
    {running : ChannelStats α} {params : ForwardParams α args.input.channels}
    {mean var : Vector α args.input.channels}
    (hcheck : checkForward "native_batch_norm" args running = .ok params)
    (hmode : params.mode = .evaluation mean var) :
    (nativeBatchNorm ex args running).result = .ok
        { output := transformGeneral ex args.input params.weight params.bias mean
            (var.map (runningInverseStd · args.eps))
          saved := .none
          backend := .native }
      ∧ (nativeBatchNorm ex args running).running = running := by
  have hrank : 2 ≤ args.input.rank := rank_of_checkForward hcheck
  unfold nativeBatchNorm Schedule.nativeBatchNorm
  rw [hcheck]
  dsimp only
  rw [hmode]
  dsimp only
  unfold Schedule.evaluateForward
  dsimp only
  split
  · rw [transformContiguous_eq_transformGeneral ex args.input hrank]
    exact ⟨rfl, rfl⟩
  · exact ⟨rfl, rfl⟩

/-! ## §2. An accepted call, element by element. -/

/-- What an evaluation puts at a place. -/
def ForwardArgs.evaluationAt (args : ForwardArgs α A) (running : ChannelStats α) (k : Nat) : α :=
  let c := channelOf args.input.dims k
  normalizeElement (paramAt running.mean 0 c) (runningInverseStd (paramAt running.var 0 c) args.eps)
    (paramAt args.weight 1 c) (paramAt args.bias 0 c) (args.input.elem k)

/-- **An accepted evaluation, element by element.** -/
theorem nativeBatchNorm_evaluation [LawfulArith α] (ex : Executor) {args : ForwardArgs α A}
    {running : ChannelStats α} (h : args.Accepted running) (ht : args.training = false) :
    (nativeBatchNorm ex args running).result = .ok
        { output := args.input.withContents
            ((List.range args.input.numel).map (args.evaluationAt running)) (by simp)
          saved := .none
          backend := .native }
      ∧ (nativeBatchNorm ex args running).running = running := by
  obtain ⟨params, mean, var, hcheck, hmode, haffine, hstats⟩ :=
    checkForward_evaluation "native_batch_norm" h ht
  obtain ⟨hresult, hrunning⟩ := nativeBatchNorm_of_evaluation ex hcheck hmode
  refine ⟨?_, hrunning⟩
  rw [hresult]
  unfold transformGeneral
  rw [Schedule.transformGeneral_eq _ h.rank]
  congr 2
  refine args.input.withContents_congr (List.map_congr_left fun k hk => ?_)
  have hlt : channelOf args.input.dims k < args.input.channels :=
    channelOf_lt h.rank (List.mem_range.1 hk)
  obtain ⟨hmean, hvar⟩ := hstats _ hlt
  unfold generalAt ForwardArgs.evaluationAt
  dsimp only
  rw [channelValue_map _ _ hlt, hmean, hvar, (haffine _ hlt 1).1, (haffine _ hlt 0).2]

/-! ## §3. The kernels and the call. -/

/-- **An inference call does not depend on its kernel.**  In exact arithmetic
the two kernels return the same tensor on every input with a channel axis, and
every evaluation whose arguments pass their check returns that tensor, in the
shape of the input. -/
theorem evaluation_independent_of_kernel [LawfulArith α] :
    (∀ (ex : Executor) (input : Tensor α), 2 ≤ input.rank →
      ∀ (weight bias : Option (Vector α input.channels))
        (mean var : Vector α input.channels) (eps : A),
        transformContiguous input weight bias mean var eps
          = transformGeneral ex input weight bias mean (var.map (runningInverseStd · eps)))
    ∧ ∀ (ex : Executor) (args : ForwardArgs α A) (running : ChannelStats α)
        (params : ForwardParams α args.input.channels) (mean var : Vector α args.input.channels),
        checkForward "native_batch_norm" args running = .ok params →
        params.mode = .evaluation mean var →
        ∃ output : Tensor α,
          (nativeBatchNorm ex args running).result
              = .ok { output, saved := .none, backend := .native }
            ∧ output = transformContiguous args.input params.weight params.bias mean var args.eps
            ∧ output = transformGeneral ex args.input params.weight params.bias mean
                (var.map (runningInverseStd · args.eps))
            ∧ output.dims = args.input.dims := by
  refine ⟨fun ex input hrank weight bias mean var eps =>
    transformContiguous_eq_transformGeneral ex input hrank weight bias mean var eps, ?_⟩
  intro ex args running params mean var hcheck hmode
  have hrank : 2 ≤ args.input.rank := rank_of_checkForward hcheck
  refine ⟨_, (nativeBatchNorm_of_evaluation ex hcheck hmode).1, ?_, rfl, ?_⟩
  · exact (transformContiguous_eq_transformGeneral ex args.input hrank _ _ _ _ _).symm
  · unfold transformGeneral
    rw [Schedule.transformGeneral_eq _ hrank]
    exact Tensor.dims_withContents

/-- Two samples of two channels. -/
noncomputable def sampleBatch : Tensor ℝ :=
  .build [2, 2] (by decide) [1, 2, 3, 4] rfl .cpu

/-- One value for each channel of the sample. -/
noncomputable def samplePair (x y : ℝ) : Tensor ℝ :=
  .build [2] (by decide) [x, y] rfl .cpu

/-- A call on the sample, with a weight and no bias. -/
noncomputable def sampleCall (training : Bool) : ForwardArgs ℝ ℝ where
  input := sampleBatch
  weight := some (samplePair 2 3)
  bias := none
  training := training
  momentum := 0
  eps := 1

noncomputable def sampleRunning : ChannelStats ℝ :=
  ⟨some (samplePair 0 1), some (samplePair 3 8)⟩

theorem evaluation_independent_of_kernel_sample :
    2 ≤ sampleBatch.rank
      ∧ transformContiguous sampleBatch none none (#v[0, 1] : Vector ℝ 2) #v[3, 8] (1 : ℝ)
        = transformGeneral ⟨.standard, 4⟩ sampleBatch none none (#v[0, 1] : Vector ℝ 2)
            ((#v[3, 8] : Vector ℝ 2).map (runningInverseStd · 1))
      ∧ checkForward "native_batch_norm" (sampleCall false) sampleRunning
        = .ok ⟨.evaluation #v[0, 1] #v[3, 8], some #v[2, 3], none⟩
      ∧ ∃ output : Tensor ℝ,
          (nativeBatchNorm ⟨.standard, 4⟩ (sampleCall false) sampleRunning).result
              = .ok { output, saved := .none, backend := .native }
            ∧ output = transformContiguous sampleBatch (some #v[2, 3]) none
                (#v[0, 1] : Vector ℝ 2) #v[3, 8] (1 : ℝ)
            ∧ output.dims = [2, 2] := by
  have hrank : 2 ≤ sampleBatch.rank := by decide
  have hcheck : checkForward "native_batch_norm" (sampleCall false) sampleRunning
      = .ok ⟨.evaluation #v[0, 1] #v[3, 8], some #v[2, 3], none⟩ := rfl
  refine ⟨hrank, ?_, hcheck, ?_⟩
  · exact evaluation_independent_of_kernel.1 ⟨.standard, 4⟩ sampleBatch hrank none none _ _ 1
  · obtain ⟨output, hresult, hflat, _, hdims⟩ :=
      evaluation_independent_of_kernel.2 ⟨.standard, 4⟩ (sampleCall false) sampleRunning _ _ _
        hcheck rfl
    exact ⟨output, hresult, hflat, hdims⟩

end ChannelNorm

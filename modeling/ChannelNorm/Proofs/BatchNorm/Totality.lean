/-
  ChannelNorm.Proofs.BatchNorm.Totality
  ─────────────────────────────────────
  **EVERY CALL IS REFUSED FOR A REASON, OR RETURNS.**

  The forward and the update are refused exactly when the input has no channel
  axis, a parameter or statistic has the wrong size, or evaluation misses a
  statistic.  The first reason is the one reported, and a refused call leaves
  the running statistics alone.  Any other call returns, on empty inputs too,
  with an output of the input's shape and device and one statistic per channel;
  its guarded form meets no step that does not go through.
-/
import Mathlib
import ChannelNorm.Proofs.BatchNorm.Guarded

namespace ChannelNorm

/-! ## §1. The outcome of each call. -/

section
variable {α A : Type}

/-- Why a forward call is refused. -/
theorem ForwardArgs.not_accepted_iff {args : ForwardArgs α A} {running : ChannelStats α} :
    ¬ args.Accepted running
      ↔ args.input.rank < 2
        ∨ ¬ OnePerChannel args.input.channels running.mean
        ∨ ¬ OnePerChannel args.input.channels running.var
        ∨ ¬ OnePerChannel args.input.channels args.weight
        ∨ ¬ OnePerChannel args.input.channels args.bias
        ∨ args.training = false ∧ (running.mean = none ∨ running.var = none) := by
  have haccepted : args.Accepted running
      ↔ 2 ≤ args.input.rank
        ∧ OnePerChannel args.input.channels running.mean
        ∧ OnePerChannel args.input.channels running.var
        ∧ OnePerChannel args.input.channels args.weight
        ∧ OnePerChannel args.input.channels args.bias
        ∧ ¬ (args.training = false ∧ (running.mean = none ∨ running.var = none)) := by
    simp only [not_and, not_or, ← Ne.eq_def, ← Option.isSome_iff_ne_none]
    exact ⟨fun h => ⟨h.rank, h.mean, h.var, h.weight, h.bias, h.statistics⟩,
      fun ⟨hr, hm, hv, hw, hb, hs⟩ => ⟨hr, hw, hb, hm, hv, hs⟩⟩
  rw [haccepted, not_and_or, not_and_or, not_and_or, not_and_or, not_and_or, not_not, Nat.not_le]

end

section
variable {α A : Type} [OrderedArith A] [Element α A]

/-- A forward call is refused with its first fault, or accepted, and then
returns. -/
theorem nativeBatchNorm_outcome (ex : Executor) (args : ForwardArgs α A)
    (running : ChannelStats α) :
    (∃ e, (args.faults "native_batch_norm" running).head? = some e
        ∧ ¬ args.Accepted running ∧ nativeBatchNorm ex args running = .refused e running)
      ∨ args.Accepted running
        ∧ ∃ forward, (nativeBatchNorm ex args running).result = .ok forward
          ∧ forward.output.dims = args.input.dims
          ∧ forward.output.device = args.input.device
          ∧ (args.training = false → (nativeBatchNorm ex args running).running = running)
          ∧ (args.training = true → ∃ mean var, forward.saved = ⟨some mean, some var⟩
              ∧ mean.dims = [args.input.channels] ∧ var.dims = [args.input.channels]) := by
  cases hfaults : args.faults "native_batch_norm" running with
  | cons e more =>
      refine .inl ⟨e, rfl, ?_, nativeBatchNorm_refused ex (by rw [hfaults]; rfl)⟩
      rw [← @ForwardArgs.faults_eq_nil α A args "native_batch_norm" running, hfaults]
      exact List.cons_ne_nil e more
  | nil =>
      have h : args.Accepted running := ForwardArgs.faults_eq_nil.1 hfaults
      refine .inr ⟨h, ?_⟩
      cases ht : args.training with
      | true =>
          rw [nativeBatchNorm_training ex h ht]
          refine ⟨_, rfl, by rw [Tensor.dims_withContents], rfl, nofun, fun _ => ?_⟩
          exact ⟨_, _, rfl, Tensor.dims_perChannel _ _, Tensor.dims_perChannel _ _⟩
      | false =>
          obtain ⟨hok, hrunning⟩ := nativeBatchNorm_inferred ex h ht
          rw [hok]
          exact ⟨_, rfl, by rw [Tensor.dims_withContents], rfl, fun _ => hrunning, nofun⟩

/-- An update is refused with its first fault, or returns. -/
theorem batchNormUpdateStats_outcome (ex : Executor) (input : Tensor α)
    (running : ChannelStats α) (momentum : A) :
    (∃ e, (updateFaults input running).head? = some e ∧ updateFaults input running ≠ []
        ∧ batchNormUpdateStats ex input running momentum = (.error e, running))
      ∨ updateFaults input running = []
        ∧ ∃ mean var, (batchNormUpdateStats ex input running momentum).1 = .ok (mean, var)
          ∧ mean.dims = [input.channels] ∧ var.dims = [input.channels] := by
  cases hfaults : updateFaults input running with
  | cons e more =>
      exact .inl ⟨e, rfl, List.cons_ne_nil e more,
        batchNormUpdateStats_refused ex momentum (by rw [hfaults]; rfl)⟩
  | nil =>
      rw [batchNormUpdateStats_ok ex momentum hfaults]
      exact .inr ⟨rfl, _, _, rfl, Tensor.dims_perChannel _ _, Tensor.dims_perChannel _ _⟩

/-! ## §2. Both calls. -/

/-- **A forward and an update are refused at their checks or go through.**
Their guarded forms, which may halt at any index, slice, division, chunk or
constructor, halt with the first fault of the call, before anything is written,
or return what the plain forms return.  Memory is taken to be there: that a result
is returned says that no step refuses it, not that it can be allocated, and no
number of channels is so large that the capacity of a vector overflows. -/
theorem statistics_calls_outcome (ex : Executor) :
    (∀ (args : ForwardArgs α A) (running : ChannelStats α),
      let call := nativeBatchNorm ex args running
      let guarded := (Guarded.nativeBatchNorm ex args).after running
      let channels := args.input.channels
      ((∃ e, call.result = .error e)
        ↔ args.input.rank < 2
          ∨ ¬ OnePerChannel channels running.mean ∨ ¬ OnePerChannel channels running.var
          ∨ ¬ OnePerChannel channels args.weight ∨ ¬ OnePerChannel channels args.bias
          ∨ args.training = false ∧ (running.mean = none ∨ running.var = none))
      ∧ (∀ e, call.result = .error e →
          (args.faults "native_batch_norm" running).head? = some e
            ∧ e.IsArgumentFault args.input.rank (!args.training)
            ∧ guarded = (.error (.refused e), running) ∧ call.running = running)
      ∧ (∀ forward, call.result = .ok forward →
          guarded = (.ok forward, call.running)
            ∧ forward.output.dims = args.input.dims
            ∧ forward.output.device = args.input.device
            ∧ (args.training = false → call.running = running)
            ∧ (args.training = true → ∃ mean var, forward.saved = ⟨some mean, some var⟩
                ∧ mean.dims = [channels] ∧ var.dims = [channels])))
    ∧ (∀ (input : Tensor α) (running : ChannelStats α) (momentum : A),
      let call := batchNormUpdateStats ex input running momentum
      let guarded := (Guarded.batchNormUpdateStats ex input momentum).after running
      ((∃ e, call.1 = .error e)
        ↔ input.rank < 2
          ∨ ¬ OnePerChannel input.channels running.mean
          ∨ ¬ OnePerChannel input.channels running.var)
      ∧ (∀ e, call.1 = .error e →
          (updateFaults input running).head? = some e
            ∧ e.IsArgumentFault input.rank false
            ∧ guarded = (.error (.refused e), running) ∧ call.2 = running)
      ∧ (∀ mean var, call.1 = .ok (mean, var) →
          guarded = (.ok (mean, var), call.2)
            ∧ mean.dims = [input.channels] ∧ var.dims = [input.channels])) := by
  constructor
  · intro args running
    dsimp only
    rw [Guarded.after_nativeBatchNorm, ← ForwardArgs.not_accepted_iff]
    rcases nativeBatchNorm_outcome ex args running with
      ⟨e, hhead, hnot, hcall⟩ | ⟨haccepted, forward, hresult, hreturned⟩
    · rw [hcall]
      refine ⟨⟨fun _ => hnot, fun _ => ⟨e, rfl⟩⟩, ?_, nofun⟩
      rintro _ ⟨⟩
      have hmem := List.mem_of_mem_head? hhead
      exact ⟨hhead, (ForwardArgs.isArgumentFault_of_mem_faults hmem).2, rfl, rfl⟩
    · rw [hresult]
      refine ⟨⟨nofun, fun hnot => absurd haccepted hnot⟩, nofun, ?_⟩
      rintro _ ⟨⟩
      exact ⟨rfl, hreturned⟩
  · intro input running momentum
    dsimp only
    rw [Guarded.after_batchNormUpdateStats, ← Nat.not_le, ← not_and_or, ← not_and_or,
      ← updateFaults_eq_nil]
    rcases batchNormUpdateStats_outcome ex input running momentum with
      ⟨e, hhead, hfaults, hcall⟩ | ⟨hnone, mean, var, hresult, hreturned⟩
    · rw [hcall]
      refine ⟨⟨fun _ => hfaults, fun _ => ⟨e, rfl⟩⟩, ?_, nofun⟩
      rintro _ ⟨⟩
      have hmem := List.mem_of_mem_head? hhead
      exact ⟨hhead, (isArgumentFault_of_mem_updateFaults hmem).2, rfl, rfl⟩
    · rw [hresult]
      refine ⟨⟨nofun, fun hfaults => absurd hnone hfaults⟩, nofun, ?_⟩
      rintro _ _ ⟨⟩
      exact ⟨rfl, hreturned⟩

end

theorem statistics_calls_outcome_sample :
    (∃ e, (nativeBatchNorm ⟨.standard, 4⟩ (sampleCall false) ChannelStats.none).result = .error e)
      ∧ (∃ forward,
          (Guarded.nativeBatchNorm ⟨.standard, 4⟩ (sampleCall true)).after sampleRunning
            = (.ok forward,
                (nativeBatchNorm ⟨.standard, 4⟩ (sampleCall true) sampleRunning).running)
          ∧ forward.output.dims = [2, 2])
      ∧ ∃ mean var,
          (batchNormUpdateStats ⟨.standard, 4⟩ sampleBatch sampleRunning (0 : ℝ)).1
              = .ok (mean, var)
            ∧ mean.dims = [2] ∧ var.dims = [2] := by
  have hpair : ∀ x y : ℝ, OnePerChannel 2 (some (samplePair x y)) := by
    rintro x y _ ⟨⟩
    rfl
  obtain ⟨hcalls, hupdates⟩ := @statistics_calls_outcome ℝ ℝ _ _ ⟨.standard, 4⟩
  obtain ⟨hrefused, _, _⟩ := hcalls (sampleCall false) ChannelStats.none
  obtain ⟨haccepted, _, hreturned⟩ := hcalls (sampleCall true) sampleRunning
  obtain ⟨hupdated, _, hmoments⟩ := hupdates sampleBatch sampleRunning 0
  refine ⟨?_, ?_, ?_⟩
  · -- evaluation without running statistics
    exact hrefused.2 (.inr (.inr (.inr (.inr (.inr ⟨rfl, .inl rfl⟩)))))
  · cases hresult : (nativeBatchNorm ⟨.standard, 4⟩ (sampleCall true) sampleRunning).result with
    | ok forward =>
        obtain ⟨hguarded, hdims, _⟩ := hreturned forward hresult
        exact ⟨forward, hguarded, hdims⟩
    | error e =>
        rcases haccepted.1 ⟨e, hresult⟩ with hrank | hmean | hvar | hweight | hbias | ⟨hmode, _⟩
        · exact absurd hrank (by decide)
        · exact absurd (hpair 0 1) hmean
        · exact absurd (hpair 3 8) hvar
        · exact absurd (hpair 2 3) hweight
        · exact absurd nofun hbias
        · exact nomatch hmode
  · cases hresult : (batchNormUpdateStats ⟨.standard, 4⟩ sampleBatch sampleRunning (0 : ℝ)).1 with
    | ok stats => exact ⟨stats.1, stats.2, rfl, (hmoments _ _ hresult).2⟩
    | error e =>
        rcases hupdated.1 ⟨e, hresult⟩ with hrank | hmean | hvar
        · exact absurd hrank (by decide)
        · exact absurd (hpair 0 1) hmean
        · exact absurd (hpair 3 8) hvar

end ChannelNorm

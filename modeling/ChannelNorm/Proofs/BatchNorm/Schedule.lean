/-
  ChannelNorm.Proofs.BatchNorm.Schedule
  ─────────────────────────────────────
  **RESULTS DO NOT DEPEND ON THE SCHEDULE.**

  A schedule fixes the consecutive chunks the values of the channels are computed
  in and the order the tasks of a loop run in; an executor chooses one for each
  call.  A call returns the same under any two:

      map       chunks laid end to end are the channels in order
      loop      what a task puts at a place depends on its channel alone
      call      everything else does not look at the schedule

  No law of arithmetic is used.
-/
import ChannelNorm.Proofs.BatchNorm.Fault
import ChannelNorm.Proofs.BatchNorm.Outcome
import ChannelNorm.Proofs.BatchNorm.Backward
import ChannelNorm.Proofs.Tensor.Tasks
import ChannelNorm.Scalar.Binary
import ChannelNorm.Tensor.Reduce

namespace ChannelNorm

/-! ## §1. Two schedules. -/

namespace Schedule

variable {α A : Type} [OrderedArith A] [Element α A]

theorem batchNormUpdateStats_congr {input : Tensor α} (s s' : Schedule input.channels)
    (running : ChannelStats α) (momentum : A) :
    s.batchNormUpdateStats input running momentum
      = s'.batchNormUpdateStats input running momentum := by
  unfold batchNormUpdateStats
  rw [s.updateStats_eq, s'.updateStats_eq]

/-- The forward call under two schedules. -/
theorem nativeBatchNorm_congr {args : ForwardArgs α A} (s s' : Schedule args.input.channels)
    (running : ChannelStats α) :
    s.nativeBatchNorm args running = s'.nativeBatchNorm args running := by
  unfold nativeBatchNorm
  cases hcheck : checkForward "native_batch_norm" args running with
  | error e => rfl
  | ok params =>
      have hrank : 2 ≤ args.input.rank := rank_of_checkForward hcheck
      dsimp only
      cases params.mode with
      | training =>
          dsimp only
          unfold trainForward
          simp only [updateStats_eq, transformGeneral_eq _ hrank]
      | evaluation mean var =>
          dsimp only
          unfold evaluateForward
          simp only [transformGeneral_eq _ hrank]

/-- The backward call under two schedules. -/
theorem nativeBatchNormBackward_congr {args : BackwardArgs α A}
    (s s' : Schedule args.input.channels) :
    s.nativeBatchNormBackward args = s'.nativeBatchNormBackward args := by
  cases hcheck : checkBackward "native_batch_norm_backward" args with
  | error e =>
      unfold nativeBatchNormBackward
      rw [hcheck]
      rfl
  | ok params =>
      have h : args.Accepted := accepted_of_checkBackward hcheck
      rw [s.nativeBatchNormBackward_ok h, s'.nativeBatchNormBackward_ok h]

end Schedule

/-! ## §2. Any order, any chunks, any executor. -/

variable {α A : Type} [OrderedArith A] [Element α A]

/-- A backward call returns the same under every executor. -/
theorem nativeBatchNormBackward_executor (ex ex' : Executor) (args : BackwardArgs α A) :
    nativeBatchNormBackward ex args = nativeBatchNormBackward ex' args :=
  Schedule.nativeBatchNormBackward_congr _ _

/-- **Channel tasks may run in any order.**  Every element of a tensor with a
channel axis is in exactly one task's slice, and whatever the tasks do, running
them in any order leaves the tensor of the serial loop; values come in channel
order from any consecutive chunks.  So a call over a batch returns the same, bit
for bit, under every schedule and under every executor. -/
theorem channel_tasks_in_any_order :
    (∀ {β : Type} (t : Tensor β), 2 ≤ t.rank →
      (∀ p, p ∈ t.layout.offsets ↔ ∃! c : Fin t.channels, p ∈ t.planeOffsets c)
      ∧ ∀ (f : Nat → List β → List β) (order : List (Fin t.channels)),
          order.Perm (List.finRange t.channels) →
            t.runTasks (fun c => f c) order = t.runTasks (fun c => f c) (List.finRange t.channels)
              ∧ ∀ ex : Executor, ex.forEachChannel? t f = some (t.runTasks (fun c => f c) order))
    ∧ (∀ {β : Type} (n : Nat) (f : Fin n → β) (chunks : List (List (Fin n))),
        chunks.flatten = List.finRange n →
          (chunks.map (·.map f)).flatten = (List.finRange n).map f
            ∧ ∀ (ex : Executor) (numel : Nat),
                (ex.mapChannels n numel f).toList = (chunks.map (·.map f)).flatten)
    ∧ (∀ (ex ex' : Executor) (args : ForwardArgs α A) (s : Schedule args.input.channels)
        (running : ChannelStats α),
        s.nativeBatchNorm args running = nativeBatchNorm ex args running
          ∧ nativeBatchNorm ex args running = nativeBatchNorm ex' args running)
    ∧ (∀ (ex ex' : Executor) (input : Tensor α) (s : Schedule input.channels)
        (running : ChannelStats α) (momentum : A),
        s.batchNormUpdateStats input running momentum
            = batchNormUpdateStats ex input running momentum
          ∧ batchNormUpdateStats ex input running momentum
            = batchNormUpdateStats ex' input running momentum)
    ∧ ∀ (ex ex' : Executor) (args : BackwardArgs α A) (s : Schedule args.input.channels),
        s.nativeBatchNormBackward args = nativeBatchNormBackward ex args
          ∧ nativeBatchNormBackward ex args = nativeBatchNormBackward ex' args := by
  refine ⟨?_, ?_, ?_, ?_, ?_⟩
  · intro β t hrank
    refine ⟨fun p => t.mem_offsets_iff_existsUnique hrank, fun f order horder => ?_⟩
    refine ⟨Tensor.runTasks_perm _ horder t hrank rfl, fun ex => ?_⟩
    unfold Executor.forEachChannel?
    rw [if_neg (Nat.not_lt.2 hrank), ex.forEachChannel_eq_runTasks t hrank rfl _ horder]
  · intro β n f chunks hchunks
    refine ⟨?_, fun ex numel => ex.mapChannels_eq_chunks numel f hchunks⟩
    rw [← List.map_flatten, hchunks]
  -- an executor runs one schedule among them
  · intro ex ex' args s running
    exact ⟨s.nativeBatchNorm_congr _ running, Schedule.nativeBatchNorm_congr _ _ running⟩
  · intro ex ex' input s running momentum
    exact ⟨s.batchNormUpdateStats_congr _ running momentum,
      Schedule.batchNormUpdateStats_congr _ _ running momentum⟩
  · intro ex ex' args s
    exact ⟨s.nativeBatchNormBackward_congr _, nativeBatchNormBackward_executor ex ex' args⟩

/-- Two samples of two channels with one element each, the first axis fastest. -/
def sampleColumns : Tensor Nat :=
  .buildIn .columns [2, 2, 1] (by decide) [10, 30, 20, 40] rfl .cpu

/-- A task that marks the elements of its channel. -/
def markChannel (c : Nat) (xs : List Nat) : List Nat :=
  xs.map (· + c)

theorem channel_tasks_in_any_order_reversed :
    2 ≤ sampleColumns.rank
      ∧ ([1, 0] : List (Fin 2)).Perm (List.finRange 2)
      ∧ (sampleColumns.runTasks (n := 2) (fun c => markChannel c) [1, 0]).toList = [10, 21, 30, 41]
      ∧ (∀ ex : Executor, ex.forEachChannel? sampleColumns markChannel
          = some (sampleColumns.runTasks (n := 2) (fun c => markChannel c) [1, 0]))
      ∧ [[0, 1], [2]].flatten = List.finRange 3
      ∧ (Executor.mapChannels ⟨.standard, 4⟩ 3 0 fun c : Fin 3 => (c : Nat) + 1).toList
          = [1, 2, 3] := by
  obtain ⟨htasks, hchunks, _⟩ := @channel_tasks_in_any_order Float32 Float _ _
  have hrank : 2 ≤ sampleColumns.rank := by decide
  have horder : ([1, 0] : List (Fin 2)).Perm (List.finRange 2) := by decide
  have hcut : [[0, 1], [2]].flatten = List.finRange 3 := by decide
  refine ⟨hrank, horder, rfl, ?_, hcut, ?_⟩
  · exact ((htasks sampleColumns hrank).2 markChannel _ horder).2
  · exact (hchunks 3 (fun c => (c : Nat) + 1) _ hcut).2 ⟨.standard, 4⟩ 0

end ChannelNorm

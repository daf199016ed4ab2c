/-
  ChannelNorm.Proofs.BatchNorm.Training
  ─────────────────────────────────────
  **TRAINING MODE, ELEMENT BY ELEMENT.**

  An accepted call in training mode succeeds.  Its output is a row-major tensor
  of the input's shape and device that holds at place `k`, in channel `c`,

      (x - batchMean c) * batchInvstd c * weight c + bias c

  and what it saves are those means and inverse standard deviations, one per
  channel.  How the channels were split into tasks is not visible, and no law of
  arithmetic is used.
-/
import ChannelNorm.Proofs.BatchNorm.Transform

namespace ChannelNorm

variable {α A : Type} [OrderedArith A] [Element α A]

/-! ## §1. One value per channel. -/

/-- How the channels are split into tasks is not visible in what the tasks
computed. -/
theorem Schedule.mapChannels_eq {β : Type} {n : Nat} (s : Schedule n) (f : Fin n → β) :
    s.mapChannels f = .ofFn f := by
  apply Vector.toList_inj.1
  rw [s.toList_mapChannels, Vector.toList_ofFn, List.ofFn_eq_map]

namespace Tensor

section
variable {β : Type} (t : Tensor α) (v : Vector β t.channels)

@[simp] theorem dims_perChannel : (t.perChannel v).dims = [t.channels] := by
  unfold perChannel ofVector
  exact dims_build

@[simp] theorem toList_perChannel : (t.perChannel v).toList = v.toList := by
  unfold perChannel ofVector
  exact toList_build

@[simp] theorem numel_perChannel : (t.perChannel v).numel = t.channels := by
  unfold numel
  rw [dims_perChannel, volume_singleton]

theorem elem_perChannel [Zero β] (c : Nat) : (t.perChannel v).elem c = channelValue v c := by
  unfold elem channelValue
  rw [toList_perChannel]

end

/-- A value computed for each channel is read back from it. -/
theorem elem_perChannel_ofFn {β : Type} [Zero β] (t : Tensor α) (f : Nat → β) {c : Nat}
    (hc : c < t.channels) :
    (t.perChannel (.ofFn fun c : Fin t.channels => f c)).elem c = f c := by
  rw [elem_perChannel, channelValue_eq_getElem _ hc, Vector.getElem_ofFn]

/-! ## §2. The statistics of a batch. -/

/-- The moments of one channel. -/
def momentsAt (input : Tensor α) (c : Nat) : ChannelMoments α A :=
  .ofValues (ofCount input.elementsPerChannel) (input.plane c)

/-- Mean of one channel. -/
def batchMean (input : Tensor α) (c : Nat) : α :=
  (input.momentsAt c).mean

/-- Inverse standard deviation of one channel. -/
def batchInvstd (input : Tensor α) (eps : A) (c : Nat) : α :=
  narrow (VarTransform.inverseStd.apply
    ((input.momentsAt c).varSum / ofCount input.elementsPerChannel) eps)

end Tensor

theorem Schedule.channelMoments_eq {input : Tensor α} (s : Schedule input.channels) :
    s.channelMoments input = .ofFn fun c : Fin input.channels => input.momentsAt c :=
  s.mapChannels_eq _

theorem Schedule.updateStats_fst_eq {input : Tensor α} (s : Schedule input.channels)
    (running : ChannelStats α) (momentum eps : A) :
    (s.updateStats input running momentum eps .inverseStd).1
      = { mean := .ofFn fun c : Fin input.channels => input.batchMean c
          var := .ofFn fun c : Fin input.channels => input.batchInvstd eps c } := by
  unfold updateStats BatchStats.ofMoments
  dsimp only
  rw [channelMoments_eq, Vector.map_ofFn, Vector.map_ofFn]
  rfl

/-! ## §3. An accepted call. -/

/-- What training puts at a place. -/
def ForwardArgs.trainingAt (args : ForwardArgs α A) (k : Nat) : α :=
  let c := channelOf args.input.dims k
  normalizeElement (args.input.batchMean c) (args.input.batchInvstd args.eps c)
    (paramAt args.weight 1 c) (paramAt args.bias 0 c) (args.input.elem k)

/-- What training saves for the backward call. -/
def ForwardArgs.batchStats (args : ForwardArgs α A) : ChannelStats α where
  mean := some (args.input.perChannel (.ofFn fun c => args.input.batchMean c))
  var := some (args.input.perChannel (.ofFn fun c => args.input.batchInvstd args.eps c))

/-- **An accepted training call, element by element.** -/
theorem nativeBatchNorm_training (ex : Executor) {args : ForwardArgs α A}
    {running : ChannelStats α} (h : args.Accepted running) (ht : args.training = true) :
    (nativeBatchNorm ex args running).result = .ok
      { output := args.input.withContents
          ((List.range args.input.numel).map args.trainingAt) (by simp)
        saved := args.batchStats
        backend := .native } := by
  obtain ⟨params, hcheck, hmode, haffine⟩ := checkForward_training "native_batch_norm" h ht
  unfold nativeBatchNorm Schedule.nativeBatchNorm
  -- whatever schedule the executor chooses
  generalize ex.schedule args.input.channels args.input.numel = s
  have hstats := s.updateStats_fst_eq running args.momentum args.eps
  rw [hcheck]
  dsimp only
  rw [hmode]
  dsimp only
  unfold Schedule.trainForward
  -- what becomes of the running statistics does not matter here
  generalize hu : s.updateStats args.input running args.momentum args.eps .inverseStd = u
    at hstats ⊢
  obtain ⟨stats, updated⟩ := u
  have hstats : stats = _ := hstats
  subst hstats
  dsimp only
  rw [s.transformGeneral_eq h.rank]
  show Except.ok _ = Except.ok _
  congr 2
  refine args.input.withContents_congr (List.map_congr_left fun k hk => ?_)
  have hlt : channelOf args.input.dims k < args.input.channels :=
    channelOf_lt h.rank (List.mem_range.1 hk)
  unfold generalAt ForwardArgs.trainingAt
  dsimp only
  rw [channelValue_eq_getElem _ hlt, channelValue_eq_getElem _ hlt, Vector.getElem_ofFn,
    Vector.getElem_ofFn, (haffine _ hlt 1).1, (haffine _ hlt 0).2]

end ChannelNorm

/-
  ChannelNorm.Proofs.BatchNorm.Backward
  ─────────────────────────────────────
  **THE BACKWARD KERNEL, ELEMENT BY ELEMENT.**

  An accepted backward call succeeds and returns the gradients its mask asks
  for.  The input gradient has the layout of the contents, the affine gradients
  hold one value per channel:

      input    inputGradAt k       k a place in the contents
      weight   dot c · s c
      bias     sum c

  The sums of a channel run over its places in the order of visit that the
  strides of the input and of the incoming gradient suggest.
-/
import ChannelNorm.Proofs.BatchNorm.Training

namespace ChannelNorm

variable {α A : Type} [OrderedArith A] [Element α A]

/-! ## §1. What each channel contributes. -/

namespace BackwardArgs

/-- Mean of a channel, from the statistics of the mode. -/
def meanAt (args : BackwardArgs α A) (c : Nat) : α :=
  paramAt args.statistics.mean 0 c

/-- Inverse standard deviation of a channel: as saved in training, computed
from the running variance in evaluation. -/
def invstdAt (args : BackwardArgs α A) (c : Nat) : α :=
  if args.training then paramAt args.statistics.var 0 c
  else runningInverseStd (paramAt args.statistics.var 0 c) args.eps

/-- The order in which the sums visit a channel. -/
def visitOrder (args : BackwardArgs α A) : VisitOrder :=
  jointOrder args.input.planeAxes args.gradOutput.planeAxes

/-- The sums of a channel. -/
def sumsAt (args : BackwardArgs α A) (c : Nat) : GradSums A :=
  .ofPairs (args.meanAt c)
    ((args.input.planeIn args.visitOrder c).zip (args.gradOutput.planeIn args.visitOrder c))

/-- They run over its places. -/
theorem sumsAt_eq_ofPairs {args : BackwardArgs α A} (h : args.Accepted) {c : Nat}
    (hc : c < args.input.channels) :
    args.sumsAt c = .ofPairs (args.meanAt c)
      ((channelPlaces args.visitOrder args.input.dims c).map fun k =>
        (args.input.elem k, args.gradOutput.elem k)) := by
  unfold sumsAt
  rw [Tensor.zip_planeIn h.rank h.gradient _ hc]

/-- The input gradient at a place. -/
def inputGradAt (args : BackwardArgs α A) (k : Nat) : α :=
  let c := channelOf args.input.dims k
  if args.training then
    trainingGrad (ofCount args.input.elementsPerChannel) (args.sumsAt c) (args.meanAt c)
      (args.invstdAt c) (paramAt args.weight 1 c) (args.input.elem k) (args.gradOutput.elem k)
  else evaluationGrad (args.invstdAt c) (paramAt args.weight 1 c) (args.gradOutput.elem k)

/-- The weight gradient of a channel. -/
def weightGradAt (args : BackwardArgs α A) (c : Nat) : α :=
  narrow ((args.sumsAt c).dot * widen (args.invstdAt c))

/-- The bias gradient of a channel. -/
def biasGradAt (args : BackwardArgs α A) (c : Nat) : α :=
  narrow (args.sumsAt c).sum

/-- Every gradient of a call. -/
def gradients (args : BackwardArgs α A) : Gradients α where
  input := some (args.input.withContents
    ((List.range args.input.numel).map args.inputGradAt) (by simp))
  weight := some (args.input.perChannel (.ofFn fun c => args.weightGradAt c))
  bias := some (args.input.perChannel (.ofFn fun c => args.biasGradAt c))

end BackwardArgs

/-! ## §2. The kernel. -/

section
variable {args : BackwardArgs α A} (s : Schedule args.input.channels)
  {mean invstd weight : Vector α args.input.channels}

/-- The sums of every channel, whatever the tasks. -/
theorem Schedule.gradSums_eq
    (hmean : ∀ c < args.input.channels, channelValue mean c = args.meanAt c) :
    s.gradSums args.input args.gradOutput mean
      = .ofFn fun c : Fin args.input.channels => args.sumsAt c := by
  unfold gradSums
  dsimp only
  rw [s.mapChannels_eq]
  congr 1
  funext c
  rw [get_eq_channelValue, hmean c c.isLt]
  rfl

/-- The input gradient of the kernel, place by place. -/
theorem Schedule.inputGrad_eq (hrank : 2 ≤ args.input.rank)
    (hdims : args.gradOutput.dims = args.input.dims)
    (hmean : ∀ c < args.input.channels, channelValue mean c = args.meanAt c)
    (hinvstd : ∀ c < args.input.channels, channelValue invstd c = args.invstdAt c)
    (hweight : ∀ c < args.input.channels, channelValue weight c = paramAt args.weight 1 c) :
    s.inputGrad args mean invstd weight (.ofFn fun c => args.sumsAt c)
      = args.input.withContents
          ((List.range args.input.numel).map args.inputGradAt) (by simp) := by
  have hrank' : 2 ≤ args.gradOutput.rank := Tensor.rank_congr hdims ▸ hrank
  unfold inputGrad
  apply args.input.forEachChannel_zerosLike s hrank _ _
  intro c _
  have hc' : (c : Nat) < args.gradOutput.channels :=
    Nat.lt_of_lt_of_eq c.isLt (Tensor.channels_congr hdims).symm
  have hchan : ∀ k ∈ channelPlaces .rows args.input.dims c, channelOf args.input.dims k = c :=
    fun k hk => ((mem_channelPlaces hrank c.isLt).1 hk).2
  rw [args.input.plane_eq_map hrank c.isLt, args.gradOutput.plane_eq_map hrank' hc', hdims,
    get_eq_channelValue mean, get_eq_channelValue invstd, get_eq_channelValue weight,
    hmean c c.isLt, hinvstd c c.isLt, hweight c c.isLt]
  have hsums : (Vector.ofFn fun c : Fin args.input.channels => args.sumsAt c).get c
      = args.sumsAt c := Vector.getElem_ofFn c.isLt
  -- training reads input and gradient together, evaluation the gradient alone
  split
  next ht =>
    rw [List.zipWith_map, List.zipWith_self, hsums]
    apply List.map_congr_left
    intro k hk
    unfold BackwardArgs.inputGradAt
    dsimp only
    rw [if_pos ht, hchan k hk]
  next ht =>
    rw [List.map_map]
    apply List.map_congr_left
    intro k hk
    unfold BackwardArgs.inputGradAt
    dsimp only
    rw [if_neg ht, hchan k hk]
    rfl

end

/-! ## §3. An accepted call. -/

/-- An accepted backward call returns the gradients its mask asks for, under any
schedule. -/
theorem Schedule.nativeBatchNormBackward_ok {args : BackwardArgs α A}
    (s : Schedule args.input.channels) (h : args.Accepted) :
    s.nativeBatchNormBackward args = .ok (args.gradients.masked args.mask) := by
  obtain ⟨params, hcheck, hparams⟩ := checkBackward_ok "native_batch_norm_backward" h
  have hmean : ∀ c < args.input.channels, channelValue params.mean c = args.meanAt c :=
    fun c hc => (hparams c hc).1
  have hspread := fun c (hc : c < args.input.channels) => (hparams c hc).2.1
  have hweight := fun c (hc : c < args.input.channels) => (hparams c hc).2.2 1
  unfold nativeBatchNormBackward
  rw [hcheck]
  show Except.ok (s.backwardKernel args params) = _
  unfold backwardKernel
  -- both modes hand the kernel an inverse standard deviation
  generalize hi : (if args.training = true then params.spread
    else params.spread.map (runningInverseStd · args.eps)) = invstd
  have hinvstd : ∀ c < args.input.channels, channelValue invstd c = args.invstdAt c := by
    intro c hc
    unfold BackwardArgs.invstdAt
    rw [← hi]
    split
    · exact hspread c hc
    · rw [channelValue_map _ _ hc, hspread c hc]
  have hinput : s.inputGrad args params.mean invstd
      (params.weight.getD (.replicate args.input.channels 1)) (.ofFn fun c => args.sumsAt c) = _ :=
    s.inputGrad_eq h.rank h.gradient hmean hinvstd hweight
  dsimp only
  rw [s.gradSums_eq hmean, hinput]
  have hweightGrad : Vector.zipWith (fun (s : GradSums A) (i : α) => (narrow (s.dot * widen i) : α))
      (.ofFn fun c : Fin args.input.channels => args.sumsAt c) invstd
        = .ofFn fun c : Fin args.input.channels => args.weightGradAt c := by
    apply Vector.ext
    intro c hc
    rw [Vector.getElem_zipWith, Vector.getElem_ofFn, Vector.getElem_ofFn,
      ← channelValue_eq_getElem _ hc, hinvstd c hc]
    rfl
  have hbiasGrad : (Vector.ofFn fun c : Fin args.input.channels => args.sumsAt c).map
      (fun (s : GradSums A) => (narrow s.sum : α))
        = .ofFn fun c : Fin args.input.channels => args.biasGradAt c := by
    rw [Vector.map_ofFn]
    rfl
  rw [hweightGrad, hbiasGrad]
  unfold BackwardArgs.gradients Gradients.masked
  -- the kernel skips what the mask does not ask for
  cases args.mask.input <;> cases args.mask.weight <;> cases args.mask.bias <;> rfl

/-- **An accepted backward call returns the gradients its mask asks for.** -/
theorem nativeBatchNormBackward_ok (ex : Executor) {args : BackwardArgs α A} (h : args.Accepted) :
    nativeBatchNormBackward ex args = .ok (args.gradients.masked args.mask) :=
  (ex.schedule args.input.channels args.input.numel).nativeBatchNormBackward_ok h

/-- A backward call fails as its check does. -/
theorem nativeBatchNormBackward_of_error (ex : Executor) {args : BackwardArgs α A}
    {e : TensorError} (h : checkBackward "native_batch_norm_backward" args = .error e) :
    nativeBatchNormBackward ex args = .error e := by
  unfold nativeBatchNormBackward Schedule.nativeBatchNormBackward
  rw [h]
  rfl

end ChannelNorm

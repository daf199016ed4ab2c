/-
  ChannelNorm.Proofs.BatchNorm.Loss
  ─────────────────────────────────
  **THE LOSS OF A CALL IN CLOSED FORM.**

  Over the reals an accepted call normalizes every element with the statistics
  of its channel and applies the affine parameters; its loss weights the outputs
  by an incoming gradient:

      loss  =  affineSum n channelOf g (args.normalized …) weight bias

  In training mode `normalized` moves with the whole channel, in evaluation mode
  with one element.
-/
import Mathlib
import ChannelNorm.Proofs.BatchNorm.Inference
import ChannelNorm.Proofs.BatchNorm.Training
import ChannelNorm.Proofs.Gradient.Loss

namespace ChannelNorm

open Finset Function

/-! ## §1. Statistics over the reals. -/

/-- Biased variance of a list of values. -/
noncomputable def biasedVariance (xs : List ℝ) : ℝ :=
  (xs.map fun x => (x - xs.sum / xs.length) * (x - xs.sum / xs.length)).sum / xs.length

theorem biasedVariance_nonneg (xs : List ℝ) : 0 ≤ biasedVariance xs := by
  unfold biasedVariance
  refine div_nonneg (List.sum_nonneg fun y hy => ?_) (Nat.cast_nonneg _)
  obtain ⟨x, _, rfl⟩ := List.mem_map.1 hy
  exact mul_self_nonneg _

/-- The values of a channel have the variance over its places. -/
theorem biasedVariance_channelPlaces {dims : List Nat} {c : Nat} (hrank : 2 ≤ dims.length)
    (hc : c < dims.getD 1 0) (x : ℕ → ℝ) :
    biasedVariance ((channelPlaces .rows dims c).map x) = varianceOver (channelSet dims c) x := by
  unfold biasedVariance
  rw [List.map_map, List.length_map, length_channelPlaces, ← card_channelSet hrank hc,
    sum_channelPlaces .rows hrank hc x, sum_channelPlaces .rows hrank hc]
  rfl

namespace Tensor

section
variable (input : Tensor ℝ) (hrank : 2 ≤ input.rank) {c : Nat} (hc : c < input.channels)

include hrank hc

theorem sum_map_plane (f : ℝ → ℝ) :
    ((input.plane c).map f).sum = ∑ k ∈ channelSet input.dims c, f (input.elem k) := by
  rw [input.plane_eq_map hrank hc, List.map_map]
  exact sum_channelPlaces .rows hrank hc _

theorem elementsPerChannel_eq_card :
    input.elementsPerChannel = #(channelSet input.dims c) := by
  rw [input.elementsPerChannel_eq hrank (Nat.zero_lt_of_lt hc)]
  exact (card_channelSet hrank hc).symm

theorem batchMean_eq_meanOver :
    input.batchMean c = meanOver (channelSet input.dims c) input.elem := by
  show sumInOrder ((input.plane c).map fun x => x) / (input.elementsPerChannel : ℝ) = _
  rw [sumInOrder_real, input.sum_map_plane hrank hc,
    input.elementsPerChannel_eq_card hrank hc]
  rfl

/-- The second pass sums the squared deviations from the mean. -/
theorem varSum_momentsAt :
    (input.momentsAt c : ChannelMoments ℝ ℝ).varSum
      = ∑ k ∈ channelSet input.dims c,
          (input.elem k - meanOver (channelSet input.dims c) input.elem)
            * (input.elem k - meanOver (channelSet input.dims c) input.elem) := by
  show sumInOrder ((input.plane c).map (squaredDeviation (input.batchMean c))) = _
  rw [sumInOrder_real, input.sum_map_plane hrank hc, input.batchMean_eq_meanOver hrank hc]
  rfl

theorem batchInvstd_eq_invstdOver (eps : ℝ) :
    input.batchInvstd eps c = invstdOver (channelSet input.dims c) eps input.elem := by
  have hvar : (input.momentsAt c : ChannelMoments ℝ ℝ).varSum
        / (ofCount input.elementsPerChannel : ℝ)
      = varianceOver (channelSet input.dims c) input.elem := by
    rw [input.varSum_momentsAt hrank hc, input.elementsPerChannel_eq_card hrank hc]
    rfl
  unfold batchInvstd
  rw [hvar, inverseStd_apply_real]
  rfl

theorem biasedVariance_plane :
    biasedVariance (input.plane c) = varianceOver (channelSet input.dims c) input.elem := by
  rw [input.plane_eq_map hrank hc]
  exact biasedVariance_channelPlaces hrank hc input.elem

end

end Tensor

/-! ## §2. The loss of a call. -/

namespace ForwardArgs

/-- The sum of the outputs of a call, each times its weight. -/
noncomputable def loss (ex : Executor) (running : ChannelStats ℝ) (g : Tensor ℝ)
    (args : ForwardArgs ℝ ℝ) : Except TensorError ℝ := do
  let forward ← (nativeBatchNorm ex args running).result
  weightedSumLoss forward.output g

/-- The elements of an input as a call normalizes them. -/
noncomputable def normalized (args : ForwardArgs ℝ ℝ) (running : ChannelStats ℝ) (x : ℕ → ℝ)
    (k : ℕ) : ℝ :=
  let c := channelOf args.input.dims k
  if args.training then normalizedAt args.input.dims args.eps x k
  else (x k - paramAt running.mean 0 c) * runningInverseStd (paramAt running.var 0 c) args.eps

section
variable {args : ForwardArgs ℝ ℝ} (running : ChannelStats ℝ)

/-- In training mode the statistics are those of the batch. -/
theorem normalized_training (ht : args.training = true) :
    args.normalized running = normalizedAt args.input.dims args.eps := by
  funext x k
  unfold normalized
  dsimp only
  rw [if_pos ht]

/-- In evaluation mode the statistics are the running ones. -/
theorem normalized_evaluation (ht : args.training = false) :
    args.normalized running = fun x k =>
      (x k - paramAt running.mean 0 (channelOf args.input.dims k))
        * runningInverseStd (paramAt running.var 0 (channelOf args.input.dims k)) args.eps := by
  funext x k
  unfold normalized
  dsimp only
  rw [ht, if_neg Bool.false_ne_true]

end

/-- **The loss of an accepted call.** -/
theorem loss_eq (ex : Executor) {args : ForwardArgs ℝ ℝ} {running : ChannelStats ℝ} {g : Tensor ℝ}
    (h : args.Accepted running) (hg : g.dims = args.input.dims) :
    args.loss ex running g = .ok (affineSum args.input.numel (channelOf args.input.dims) g.elem
      (args.normalized running args.input.elem) (paramAt args.weight 1) (paramAt args.bias 0)) := by
  -- enough to know what the call puts at each place
  have hterms : ∀ y : ℕ → ℝ,
      (∀ k < args.input.numel, y k
        = args.normalized running args.input.elem k
            * paramAt args.weight 1 (channelOf args.input.dims k)
          + paramAt args.bias 0 (channelOf args.input.dims k)) →
      ∑ k ∈ range args.input.numel, y k * g.elem k
        = affineSum args.input.numel (channelOf args.input.dims) g.elem
            (args.normalized running args.input.elem) (paramAt args.weight 1)
            (paramAt args.bias 0) := by
    intro y hy
    exact sum_congr rfl fun k hk => by rw [hy k (mem_range.1 hk)]
  unfold loss
  cases ht : args.training with
  | true =>
      rw [nativeBatchNorm_training ex h ht]
      show weightedSumLoss _ g = _
      rw [weightedSumLoss_withContents hg]
      congr 1
      apply hterms _
      intro k hk
      have hc : channelOf args.input.dims k < args.input.channels := channelOf_lt h.rank hk
      unfold trainingAt normalizeElement
      dsimp only
      rw [normalized_training running ht, args.input.batchMean_eq_meanOver h.rank hc,
        args.input.batchInvstd_eq_invstdOver h.rank hc]
      rfl
  | false =>
      rw [(nativeBatchNorm_evaluation ex h ht).1]
      show weightedSumLoss _ g = _
      rw [weightedSumLoss_withContents hg]
      congr 1
      apply hterms _
      intro k _
      rw [normalized_evaluation running ht]
      rfl

end ForwardArgs

/-! ## §3. Missing parameters. -/

namespace Tensor

/-- A parameter as a tensor: the one given, or a default for every channel. -/
noncomputable def paramOr (input : Tensor ℝ) (p : Option (Tensor ℝ)) (default : ℝ) : Tensor ℝ :=
  p.getD (input.perChannel (.replicate input.channels default))

theorem numel_paramOr {input : Tensor ℝ} {p : Option (Tensor ℝ)}
    (hp : OnePerChannel input.channels p) (default : ℝ) :
    (input.paramOr p default).numel = input.channels := by
  unfold paramOr
  cases h : p with
  | none => exact input.numel_perChannel _
  | some t => exact hp t h

/-- The kernels read a missing parameter as its default. -/
theorem elem_paramOr (input : Tensor ℝ) (p : Option (Tensor ℝ)) (default : ℝ) {c : Nat}
    (hc : c < input.channels) : (input.paramOr p default).elem c = paramAt p default c := by
  unfold paramOr
  cases p with
  | none =>
      show (input.perChannel _).elem c = default
      rw [elem_perChannel, channelValue_eq_getElem _ hc, Vector.getElem_replicate]
  | some t => rfl

end Tensor

namespace ForwardArgs

section
variable {args : ForwardArgs ℝ ℝ} {running : ChannelStats ℝ} {g : Tensor ℝ}

/-- The call with the parameters it does not have spelled out. -/
noncomputable def spelledOut (args : ForwardArgs ℝ ℝ) : ForwardArgs ℝ ℝ :=
  { args with
    weight := some (args.input.paramOr args.weight 1)
    bias := some (args.input.paramOr args.bias 0) }

theorem Accepted.spelledOut (h : args.Accepted running) : args.spelledOut.Accepted running := by
  refine ⟨h.rank, ?_, ?_, h.mean, h.var, h.statistics⟩
  · rintro t ⟨⟩
    exact Tensor.numel_paramOr h.weight 1
  · rintro t ⟨⟩
    exact Tensor.numel_paramOr h.bias 0

/-- Every place reads the same values of the parameters. -/
theorem affineSum_spelledOut (args : ForwardArgs ℝ ℝ) (hrank : 2 ≤ args.input.rank)
    (g y : ℕ → ℝ) :
    affineSum args.input.numel (channelOf args.input.dims) g y
        (paramAt args.spelledOut.weight 1) (paramAt args.spelledOut.bias 0)
      = affineSum args.input.numel (channelOf args.input.dims) g y (paramAt args.weight 1)
        (paramAt args.bias 0) := by
  apply sum_congr rfl
  intro k hk
  have hc : channelOf args.input.dims k < args.input.channels :=
    channelOf_lt hrank (mem_range.1 hk)
  show (_ * (args.input.paramOr args.weight 1).elem _ + (args.input.paramOr args.bias 0).elem _)
    * _ = _
  rw [args.input.elem_paramOr _ _ hc, args.input.elem_paramOr _ _ hc]

/-- Spelling out the parameters a call does not have does not change its
loss. -/
theorem loss_paramOr (ex : Executor) (h : args.Accepted running) (hg : g.dims = args.input.dims) :
    args.spelledOut.loss ex running g = args.loss ex running g := by
  -- both losses in closed form, with the same values of every parameter
  rw [loss_eq ex h.spelledOut hg, loss_eq ex h hg]
  exact congrArg Except.ok (args.affineSum_spelledOut h.rank g.elem _)

/-! ## §4. Channels that can be normalized. -/

/-- An input of the same shape is accepted with the same parameters. -/
theorem Accepted.withInput (h : args.Accepted running) {x : Tensor ℝ}
    (hx : x.dims = args.input.dims) : { args with input := x }.Accepted running := by
  have hchannels : x.channels = args.input.channels := Tensor.channels_congr hx
  refine ⟨Tensor.rank_congr hx ▸ h.rank, ?_, ?_, ?_, ?_, h.statistics⟩
  all_goals show OnePerChannel x.channels _
  all_goals rw [hchannels]
  · exact h.weight
  · exact h.bias
  · exact h.mean
  · exact h.var

/-- Every channel of the batch has an inverse standard deviation. -/
def Spread (args : ForwardArgs ℝ ℝ) : Prop :=
  args.training = true →
    ∀ c < args.input.channels, 0 < biasedVariance (args.input.plane c) + args.eps

/-- A positive epsilon gives every channel an inverse standard deviation. -/
theorem spread_of_pos (heps : 0 < args.eps) : args.Spread := by
  intro _ c _
  exact add_pos_of_nonneg_of_pos (biasedVariance_nonneg _) heps

end

end ForwardArgs

end ChannelNorm

/-
  ChannelNorm.Proofs.BatchNorm.Standardized
  ─────────────────────────────────────────
  **TRAINING GIVES EVERY CHANNEL THE MEAN AND THE VARIANCE OF ITS PARAMETERS.**

  Over the reals training moves and stretches a channel as a whole.  With mean
  `μ`, biased variance `σ²` and `s = 1 / sqrt (σ² + eps)` over its places

      y  =  x * (s * weight) + (bias - μ * (s * weight))

  A map `x * a + b` takes the mean to `μ * a + b` and the variance to
  `σ² * (a * a)`, so that the output has mean `bias` and variance
  `weight² * σ² / (σ² + eps)`.  Where `σ² + eps` is zero the guard makes `s` zero,
  and the channel collapses to its bias.
-/
import Mathlib
import ChannelNorm.Proofs.BatchNorm.Gradient

namespace ChannelNorm

open Finset

/-! ## §1. Moving and stretching a block. -/

section
variable {S : Finset ℕ} {x y : ℕ → ℝ} {a b : ℝ}

/-- The mean goes along with the elements. -/
theorem meanOver_of_affine (hS : S.Nonempty) (h : ∀ k ∈ S, y k = x k * a + b) :
    meanOver S y = meanOver S x * a + b := by
  obtain ⟨j, hj⟩ := hS
  have hcard := card_cast_ne_zero hj
  have hsum : ∑ k ∈ S, y k = (∑ k ∈ S, x k) * a + #S * b := by
    rw [sum_congr rfl h, sum_add_distrib, ← sum_mul, sum_const, nsmul_eq_mul]
  unfold meanOver
  rw [hsum, add_div, mul_div_cancel_left₀ b hcard, mul_div_right_comm]

/-- The variance does not see where the block was moved. -/
theorem varianceOver_of_affine (hS : S.Nonempty) (h : ∀ k ∈ S, y k = x k * a + b) :
    varianceOver S y = varianceOver S x * (a * a) := by
  have hterm : ∀ k ∈ S, (y k - meanOver S y) * (y k - meanOver S y)
      = (x k - meanOver S x) * (x k - meanOver S x) * (a * a) := by
    intro k hk
    rw [h k hk, meanOver_of_affine hS h]
    ring
  unfold varianceOver
  rw [sum_congr rfl hterm, ← sum_mul, mul_div_right_comm]

/-- What training makes of a block is such a map. -/
theorem normalizedIn_mul_add (S : Finset ℕ) (eps : ℝ) (x : ℕ → ℝ) (weight bias : ℝ) (k : ℕ) :
    normalizedIn S eps x k * weight + bias
      = x k * (invstdOver S eps x * weight)
        + (bias - meanOver S x * (invstdOver S eps x * weight)) := by
  unfold normalizedIn
  ring

/-- A normalized block has the mean of its bias. -/
theorem meanOver_normalized (hS : S.Nonempty) {eps weight bias : ℝ}
    (h : ∀ k ∈ S, y k = normalizedIn S eps x k * weight + bias) : meanOver S y = bias := by
  simp only [normalizedIn_mul_add] at h
  rw [meanOver_of_affine hS h]
  ring

theorem invstdOver_mul_self {eps : ℝ} (hpos : 0 < varianceOver S x + eps) :
    invstdOver S eps x * invstdOver S eps x = 1 / (varianceOver S x + eps) := by
  unfold invstdOver
  rw [div_mul_div_comm, Real.mul_self_sqrt hpos.le, one_mul]

/-- A normalized block has the variance of its weight, less what `eps` takes. -/
theorem varianceOver_normalized (hS : S.Nonempty) {eps weight bias : ℝ}
    (h : ∀ k ∈ S, y k = normalizedIn S eps x k * weight + bias)
    (hpos : 0 < varianceOver S x + eps) :
    varianceOver S y = weight ^ 2 * varianceOver S x / (varianceOver S x + eps) := by
  simp only [normalizedIn_mul_add] at h
  rw [varianceOver_of_affine hS h, mul_mul_mul_comm, invstdOver_mul_self hpos]
  ring

/-- Without variance and without `eps` there is nothing to divide by. -/
theorem invstdOver_of_constant (hvar : varianceOver S x = 0) : invstdOver S 0 x = 0 := by
  unfold invstdOver
  rw [hvar, add_zero, Real.sqrt_zero, div_zero]

end

/-! ## §2. A training call. -/

/-- A channel with elements has places. -/
theorem Tensor.channelSet_nonempty {input : Tensor ℝ} (hrank : 2 ≤ input.rank)
    (hn : 1 ≤ input.elementsPerChannel) {c : Nat} (hc : c < input.channels) :
    (channelSet input.dims c).Nonempty := by
  rw [← card_pos, ← input.elementsPerChannel_eq_card hrank hc]
  exact hn

/-- The output of an accepted training call, place by place. -/
theorem exists_training_output (ex : Executor) {args : ForwardArgs ℝ ℝ} {running : ChannelStats ℝ}
    (h : args.Accepted running) (ht : args.training = true) :
    ∃ output, (nativeBatchNorm ex args running).result
        = .ok { output, saved := args.batchStats, backend := .native }
      ∧ output.dims = args.input.dims
      ∧ ∀ k < args.input.numel, output.elem k = args.trainingAt k := by
  have hlen : ((List.range args.input.numel).map args.trainingAt).length = args.input.numel := by
    simp
  refine ⟨args.input.withContents _ hlen, nativeBatchNorm_training ex h ht,
    Tensor.dims_withContents, fun k hk => ?_⟩
  exact Tensor.elem_of_toList_eq_map Tensor.toList_withContents hk

/-- Training normalizes the places of a channel over the channel. -/
theorem ForwardArgs.trainingAt_eq {args : ForwardArgs ℝ ℝ} (hrank : 2 ≤ args.input.rank) {c : Nat}
    (hc : c < args.input.channels) {k : ℕ} (hk : k ∈ channelSet args.input.dims c) :
    args.trainingAt k
      = normalizedIn (channelSet args.input.dims c) args.eps args.input.elem k
          * paramAt args.weight 1 c + paramAt args.bias 0 c := by
  obtain ⟨_, rfl⟩ := mem_channelSet.1 hk
  unfold trainingAt normalizeElement
  dsimp only
  rw [args.input.batchMean_eq_meanOver hrank hc, args.input.batchInvstd_eq_invstdOver hrank hc]
  rfl

/-- **In exact arithmetic training standardizes every channel.**  An accepted
training call with elements in its channels saves their means and, where
`variance + eps` is positive, `1 / sqrt (variance + eps)`; its output has there
the bias for its mean and `weight² * variance / (variance + eps)` for its biased
variance.  A constant channel under an `eps` of zero is filled with its bias. -/
theorem training_standardizes_channels (ex : Executor) {args : ForwardArgs ℝ ℝ}
    {running : ChannelStats ℝ} (h : args.Accepted running) (ht : args.training = true)
    (hn : 1 ≤ args.input.elementsPerChannel) :
    ∃ (forward : Forward ℝ) (mean invstd : Tensor ℝ),
      (nativeBatchNorm ex args running).result = .ok forward
      ∧ forward.output.dims = args.input.dims
      ∧ forward.saved = ⟨some mean, some invstd⟩
      ∧ mean.dims = [args.input.channels] ∧ invstd.dims = [args.input.channels]
      ∧ ∀ c < args.input.channels,
          let S := channelSet args.input.dims c
          let var := varianceOver S args.input.elem
          S.card = args.input.elementsPerChannel
          ∧ mean.elem c = meanOver S args.input.elem
          ∧ (0 < var + args.eps →
              invstd.elem c = 1 / √(var + args.eps)
              ∧ meanOver S forward.output.elem = paramAt args.bias 0 c
              ∧ varianceOver S forward.output.elem
                  = paramAt args.weight 1 c ^ 2 * var / (var + args.eps))
          ∧ (var = 0 → args.eps = 0 →
              invstd.elem c = 0
              ∧ ∀ k ∈ S, forward.output.elem k = paramAt args.bias 0 c) := by
  obtain ⟨output, hresult, hdims, helem⟩ := exists_training_output ex h ht
  refine ⟨_, _, _, hresult, hdims, rfl, args.input.dims_perChannel _,
    args.input.dims_perChannel _, fun c hc => ?_⟩
  intro S var
  have hS : S.Nonempty := Tensor.channelSet_nonempty h.rank hn hc
  have hinvstd : (args.input.perChannel
      (.ofFn fun c => args.input.batchInvstd args.eps c)).elem c
        = invstdOver S args.eps args.input.elem := by
    rw [args.input.elem_perChannel_ofFn _ hc, args.input.batchInvstd_eq_invstdOver h.rank hc]
  have houtput : ∀ k ∈ S, output.elem k
      = normalizedIn S args.eps args.input.elem k * paramAt args.weight 1 c
        + paramAt args.bias 0 c := by
    intro k hk
    rw [helem k (mem_channelSet.1 hk).1, ForwardArgs.trainingAt_eq h.rank hc hk]
  refine ⟨(args.input.elementsPerChannel_eq_card h.rank hc).symm, ?mean, ?spread, ?constant⟩
  case mean =>
    rw [args.input.elem_perChannel_ofFn _ hc, args.input.batchMean_eq_meanOver h.rank hc]
  case spread =>
    intro hpos
    exact ⟨hinvstd, meanOver_normalized hS houtput, varianceOver_normalized hS houtput hpos⟩
  case constant =>
    intro hvar heps
    have hzero : invstdOver S args.eps args.input.elem = 0 := by
      rw [heps, invstdOver_of_constant hvar]
    refine ⟨hinvstd.trans hzero, fun k hk => ?_⟩
    rw [houtput k hk, normalizedIn, hzero, mul_zero, zero_mul, zero_add]

theorem training_standardizes_channels_sample :
    (sampleCall true).Accepted sampleRunning ∧ 1 ≤ (sampleCall true).input.elementsPerChannel
      ∧ ∃ (forward : Forward ℝ) (mean invstd : Tensor ℝ),
          (nativeBatchNorm ⟨.standard, 4⟩ (sampleCall true) sampleRunning).result = .ok forward
          ∧ forward.saved = ⟨some mean, some invstd⟩
          ∧ mean.elem 0 = 2 ∧ invstd.elem 0 = 1 / √2
          ∧ meanOver {0, 2} forward.output.elem = 0
          ∧ varianceOver {0, 2} forward.output.elem = 2 := by
  have haccepted := sampleCall_accepted true
  have hn : 1 ≤ (sampleCall true).input.elementsPerChannel := by decide
  obtain ⟨forward, mean, invstd, hforward, _, hsaved, _, _, hchannels⟩ :=
    training_standardizes_channels ⟨.standard, 4⟩ haccepted rfl hn
  obtain ⟨_, hmean, hspread, _⟩ := hchannels 0 (by decide)
  -- the first channel holds 1 and 3
  have hset : channelSet (sampleCall true).input.dims 0 = {0, 2} := by decide
  have hx₀ : (sampleCall true).input.elem 0 = 1 := rfl
  have hx₂ : (sampleCall true).input.elem 2 = 3 := rfl
  have hmean' : meanOver {0, 2} (sampleCall true).input.elem = 2 := by
    rw [meanOver, sum_pair (by decide), card_pair (by decide), hx₀, hx₂]
    norm_num
  have hvar : varianceOver {0, 2} (sampleCall true).input.elem = 1 := by
    rw [varianceOver, sum_pair (by decide), card_pair (by decide), hmean', hx₀, hx₂]
    norm_num
  have heps : (sampleCall true).eps = 1 := rfl
  have hweight : paramAt (sampleCall true).weight 1 0 = 2 := rfl
  have hbias : paramAt (sampleCall true).bias 0 0 = 0 := rfl
  rw [hset, hvar, heps, hweight, hbias] at hspread
  obtain ⟨hinvstd, hout, hvarout⟩ := hspread (by norm_num)
  refine ⟨haccepted, hn, forward, mean, invstd, hforward, hsaved, ?_, ?_, hout, ?_⟩
  · rw [hmean, hset, hmean']
  · rw [hinvstd]
    norm_num
  · rw [hvarout]
    norm_num

end ChannelNorm

/-
  ChannelNorm.Proofs.Gradient.Normalize
  ─────────────────────────────────────
  **HOW A NORMALIZED BLOCK MOVES WITH ONE OF ITS ELEMENTS.**

  Elements are a function `x` of their place, and a block is a finite set `S` of
  `n` places.  Over the block

      μ = Σ x / n        σ² = Σ (x - μ)² / n        s = 1 / sqrt (σ² + eps)

  and moving the element at `j ∈ S` moves all three:

      μ' = 1 / n         (σ²)' = 2 (x j - μ) / n    s' = -(x j - μ) s³ / n

  A weighted sum of the normalized elements `(x - μ) s` therefore has the
  derivative that the backward kernel computes in training mode
  (`hasDerivAt_blockSum`).
-/
import Mathlib
import ChannelNorm.BatchNorm.Backward
import ChannelNorm.Proofs.Scalar.Real

namespace ChannelNorm

open Finset Function

/-! ## §1. Statistics of a block. -/

/-- Mean over a block. -/
noncomputable def meanOver (S : Finset ℕ) (x : ℕ → ℝ) : ℝ :=
  (∑ k ∈ S, x k) / #S

/-- Biased variance over a block. -/
noncomputable def varianceOver (S : Finset ℕ) (x : ℕ → ℝ) : ℝ :=
  (∑ k ∈ S, (x k - meanOver S x) * (x k - meanOver S x)) / #S

/-- Inverse standard deviation over a block. -/
noncomputable def invstdOver (S : Finset ℕ) (eps : ℝ) (x : ℕ → ℝ) : ℝ :=
  1 / √(varianceOver S x + eps)

/-- The element at `k`, normalized over a block. -/
noncomputable def normalizedIn (S : Finset ℕ) (eps : ℝ) (x : ℕ → ℝ) (k : ℕ) : ℝ :=
  (x k - meanOver S x) * invstdOver S eps x

/-- Over the reals the guard for a constant channel changes nothing. -/
theorem inverseStd_apply_real (var eps : ℝ) :
    VarTransform.inverseStd.apply var eps = 1 / √(var + eps) := by
  unfold VarTransform.apply
  dsimp only
  split
  next h =>
    rw [isZero_real, isZero_real, Bool.and_eq_true, decide_eq_true_iff, decide_eq_true_iff] at h
    rw [h.1, h.2, add_zero, Real.sqrt_zero, div_zero]
  next => rfl

section
variable {S : Finset ℕ} {eps : ℝ} {x : ℕ → ℝ} {j : ℕ}

theorem card_cast_ne_zero (hj : j ∈ S) : (#S : ℝ) ≠ 0 :=
  Nat.cast_ne_zero.2 (card_ne_zero_of_mem hj)

/-- Deviations from the mean add up to nothing. -/
theorem sum_sub_meanOver (hj : j ∈ S) : ∑ k ∈ S, (x k - meanOver S x) = 0 := by
  rw [sum_sub_distrib, sum_const, nsmul_eq_mul, meanOver,
    mul_div_cancel₀ _ (card_cast_ne_zero hj), sub_self]

/-- A block does not depend on an element outside. -/
theorem normalizedIn_update_of_notMem (hj : j ∉ S) {k : ℕ} (hk : k ∈ S) (v : ℝ) :
    normalizedIn S eps (update x j v) k = normalizedIn S eps x k := by
  have hval : ∀ i ∈ S, update x j v i = x i := by
    intro i hi
    have hne : i ≠ j := by
      rintro rfl
      exact hj hi
    exact update_of_ne hne v x
  -- neither statistic reads the element that moves
  have hmean : meanOver S (update x j v) = meanOver S x := by
    unfold meanOver
    rw [sum_congr rfl hval]
  have hvar : varianceOver S (update x j v) = varianceOver S x := by
    unfold varianceOver
    rw [hmean]
    congr 1
    exact sum_congr rfl fun i hi => by rw [hval i hi]
  unfold normalizedIn invstdOver
  rw [hmean, hvar, hval k hk]

/-! ## §2. Moving one element. -/

/-- How the element at `k` moves with the one at `j`. -/
def kronecker (j k : ℕ) : ℝ :=
  if k = j then 1 else 0

theorem sum_kronecker_mul (hj : j ∈ S) (a : ℕ → ℝ) : ∑ k ∈ S, kronecker j k * a k = a j := by
  simp only [kronecker, ite_mul, one_mul, zero_mul]
  rw [sum_ite_eq' S j a, if_pos hj]

theorem sum_kronecker (hj : j ∈ S) : ∑ k ∈ S, kronecker j k = 1 := by
  simpa using sum_kronecker_mul hj (fun _ => 1)

theorem hasDerivAt_update (x : ℕ → ℝ) (j k : ℕ) (v : ℝ) :
    HasDerivAt (fun v => update x j v k) (kronecker j k) v := by
  unfold kronecker
  by_cases h : k = j
  · subst h
    simp only [update_self, if_pos]
    exact hasDerivAt_id v
  · simp only [update_of_ne h, if_neg h]
    exact hasDerivAt_const v (x k)

theorem hasDerivAt_meanOver (hj : j ∈ S) (v : ℝ) :
    HasDerivAt (fun v => meanOver S (update x j v)) (1 / #S) v := by
  have hsum : HasDerivAt (fun v => ∑ k ∈ S, update x j v k) (∑ k ∈ S, kronecker j k) v :=
    HasDerivAt.fun_sum fun k _ => hasDerivAt_update x j k v
  rw [sum_kronecker hj] at hsum
  exact hsum.div_const _

/-- How the deviation of the element at `k` moves. -/
theorem hasDerivAt_deviation (hj : j ∈ S) (k : ℕ) (v : ℝ) :
    HasDerivAt (fun v => update x j v k - meanOver S (update x j v))
      (kronecker j k - 1 / #S) v :=
  (hasDerivAt_update x j k v).sub (hasDerivAt_meanOver hj v)

theorem hasDerivAt_varianceOver (hj : j ∈ S) :
    HasDerivAt (fun v => varianceOver S (update x j v))
      (2 * (x j - meanOver S x) / #S) (x j) := by
  have hterm : ∀ k ∈ S, HasDerivAt
      (fun v => (update x j v k - meanOver S (update x j v))
        * (update x j v k - meanOver S (update x j v)))
      (2 * (kronecker j k * (x k - meanOver S x)) - 2 / #S * (x k - meanOver S x)) (x j) := by
    intro k _
    have hdev := hasDerivAt_deviation (x := x) hj k (x j)
    refine (hdev.mul hdev).congr_deriv ?_
    rw [update_eq_self]
    ring
  have hsum := (HasDerivAt.fun_sum hterm).div_const (#S : ℝ)
  -- the part through the mean cancels: deviations add up to nothing
  rw [sum_sub_distrib, ← mul_sum, ← mul_sum, sum_kronecker_mul hj, sum_sub_meanOver hj,
    mul_zero, sub_zero] at hsum
  exact hsum

theorem hasDerivAt_invstdOver (hj : j ∈ S) (hpos : 0 < varianceOver S x + eps) :
    HasDerivAt (fun v => invstdOver S eps (update x j v))
      (-(x j - meanOver S x) * invstdOver S eps x ^ 3 / #S) (x j) := by
  have hsqrt_pos : 0 < √(varianceOver S x + eps) := Real.sqrt_pos.2 hpos
  have hvar := (hasDerivAt_varianceOver (x := x) hj).add_const eps
  -- the chain rule through the root and the reciprocal; the variance is positive
  have hroot := hvar.sqrt (by rw [update_eq_self]; exact hpos.ne')
  have hinv := hroot.inv (by rw [update_eq_self]; exact hsqrt_pos.ne')
  have hfun : (fun v => invstdOver S eps (update x j v))
      = (fun v => √(varianceOver S (update x j v) + eps))⁻¹ := by
    funext v
    rw [Pi.inv_apply, invstdOver, one_div]
  rw [hfun]
  refine hinv.congr_deriv ?_
  rw [update_eq_self, invstdOver]
  have hcard := card_cast_ne_zero hj
  have hne := hsqrt_pos.ne'
  field_simp

theorem hasDerivAt_normalizedIn (hj : j ∈ S) (hpos : 0 < varianceOver S x + eps) (k : ℕ) :
    HasDerivAt (fun v => normalizedIn S eps (update x j v) k)
      ((kronecker j k - 1 / #S) * invstdOver S eps x
        + (x k - meanOver S x) * (-(x j - meanOver S x) * invstdOver S eps x ^ 3 / #S)) (x j) := by
  have h := (hasDerivAt_deviation (x := x) hj k (x j)).mul (hasDerivAt_invstdOver hj hpos)
  rw [update_eq_self] at h
  exact h

/-! ## §3. A weighted sum of a block. -/

/-- The sums the backward kernel takes over a block. -/
noncomputable def gradSumsOver (S : Finset ℕ) (mean : ℝ) (x h : ℕ → ℝ) : GradSums ℝ where
  sum := ∑ k ∈ S, h k
  dot := ∑ k ∈ S, (x k - mean) * h k

/-- **The training gradient is the derivative of a weighted sum of the
normalized block.** -/
theorem hasDerivAt_blockSum (hj : j ∈ S) (hpos : 0 < varianceOver S x + eps) (h : ℕ → ℝ) :
    HasDerivAt (fun v => ∑ k ∈ S, normalizedIn S eps (update x j v) k * h k)
      (trainingGrad (#S : ℝ) (gradSumsOver S (meanOver S x) x h) (meanOver S x)
        (invstdOver S eps x) 1 (x j) (h j)) (x j) := by
  have hterm := HasDerivAt.fun_sum fun k (_ : k ∈ S) =>
    (hasDerivAt_normalizedIn hj hpos k).mul_const (h k)
  refine hterm.congr_deriv ?_
  -- the direct part, the part through the mean, and the part through the variance
  have hsplit : ∀ k ∈ S,
      ((kronecker j k - 1 / #S) * invstdOver S eps x
        + (x k - meanOver S x) * (-(x j - meanOver S x) * invstdOver S eps x ^ 3 / #S)) * h k
      = kronecker j k * (invstdOver S eps x * h k) - invstdOver S eps x / #S * h k
        - (x j - meanOver S x) * invstdOver S eps x ^ 3 / #S
          * ((x k - meanOver S x) * h k) := by
    intro k _
    ring
  rw [sum_congr rfl hsplit, sum_sub_distrib, sum_sub_distrib, sum_kronecker_mul hj,
    ← mul_sum, ← mul_sum]
  -- the kernel spells the same three parts with its two sums
  unfold trainingGrad gradSumsOver
  simp only [narrow_real, widen_real]
  ring

end

end ChannelNorm

/-
  ChannelNorm.Proofs.Gradient.Affine
  ──────────────────────────────────
  **LOSSES OF A NORMALIZATION, AND HOW THEY MOVE.**

  A normalization puts `y k * w (p k) + b (p k)` at place `k`, where `y` are the
  normalized elements and `p` says which entry of the parameters a place reads.
  Weighted by an incoming gradient `g` this adds up to

      affineSum n p g y w b  =  Σ (y k * w (p k) + b (p k)) * g k

  which is affine in `w` and in `b`.  In the elements it moves through `y`: when
  the blocks are the channels of an array, an element moves its own channel and
  no other (`hasDerivAt_normalizedSum`).
-/
import Mathlib
import ChannelNorm.Proofs.Gradient.Normalize
import ChannelNorm.Proofs.Tensor.Plane

namespace ChannelNorm

open Finset Function

/-! ## §1. Channels as sets of places. -/

/-- The places of a channel, as a set. -/
def channelSet (dims : List Nat) (c : Nat) : Finset ℕ :=
  {k ∈ range (volume dims) | channelOf dims k = c}

section
variable {dims : List Nat} {c : Nat}

@[simp] theorem mem_channelSet {k : ℕ} :
    k ∈ channelSet dims c ↔ k < volume dims ∧ channelOf dims k = c := by
  unfold channelSet
  rw [mem_filter, mem_range]

/-- A place lies in the set of its own channel. -/
theorem mem_channelSet_self {k : ℕ} (hk : k < volume dims) :
    k ∈ channelSet dims (channelOf dims k) :=
  mem_channelSet.2 ⟨hk, rfl⟩

/-- A visit of a channel, in either order, goes through its places. -/
theorem toFinset_channelPlaces (order : VisitOrder) (hrank : 2 ≤ dims.length)
    (hc : c < dims.getD 1 0) : (channelPlaces order dims c).toFinset = channelSet dims c := by
  ext k
  rw [List.mem_toFinset, mem_channelPlaces hrank hc, mem_channelSet]

/-- A sum over a visit of a channel is a sum over its places. -/
theorem sum_channelPlaces {M : Type} [AddCommMonoid M] (order : VisitOrder)
    (hrank : 2 ≤ dims.length) (hc : c < dims.getD 1 0) (f : ℕ → M) :
    ((channelPlaces order dims c).map f).sum = ∑ k ∈ channelSet dims c, f k := by
  rw [← toFinset_channelPlaces order hrank hc,
    List.sum_toFinset f (nodup_channelPlaces order hrank hc)]

theorem card_channelSet (hrank : 2 ≤ dims.length) (hc : c < dims.getD 1 0) :
    #(channelSet dims c) = volume (dims.eraseIdx 1) := by
  rw [← toFinset_channelPlaces .rows hrank hc,
    List.toFinset_card_of_nodup (nodup_channelPlaces .rows hrank hc), length_channelPlaces]

end

/-! ## §2. Elements normalized within their channels. -/

/-- The element at a place, normalized within its channel. -/
noncomputable def normalizedAt (dims : List Nat) (eps : ℝ) (x : ℕ → ℝ) (k : ℕ) : ℝ :=
  normalizedIn (channelSet dims (channelOf dims k)) eps x k

/-- Moving an element leaves the other channels alone. -/
theorem normalizedAt_update_of_ne {dims : List Nat} {eps : ℝ} {x : ℕ → ℝ} {j k : ℕ}
    (hk : k < volume dims) (hne : channelOf dims k ≠ channelOf dims j) (v : ℝ) :
    normalizedAt dims eps (update x j v) k = normalizedAt dims eps x k := by
  have hj : j ∉ channelSet dims (channelOf dims k) := fun hj =>
    hne (mem_channelSet.1 hj).2.symm
  exact normalizedIn_update_of_notMem hj (mem_channelSet_self hk) v

/-- **A weighted sum of normalized contents moves as the backward kernel says.** -/
theorem hasDerivAt_normalizedSum {dims : List Nat} {eps : ℝ} {x : ℕ → ℝ} {j : ℕ}
    (hj : j < volume dims)
    (hpos : 0 < varianceOver (channelSet dims (channelOf dims j)) x + eps) (h : ℕ → ℝ) :
    let S := channelSet dims (channelOf dims j)
    HasDerivAt
      (fun v => ∑ k ∈ range (volume dims), normalizedAt dims eps (update x j v) k * h k)
      (trainingGrad (#S : ℝ) (gradSumsOver S (meanOver S x) x h) (meanOver S x)
        (invstdOver S eps x) 1 (x j) (h j)) (x j) := by
  intro S
  have hblock := hasDerivAt_blockSum (mem_channelSet_self hj) hpos h
  -- the other channels contribute a constant
  have hfun : (fun v => ∑ k ∈ range (volume dims), normalizedAt dims eps (update x j v) k * h k)
      = fun v => ∑ k ∈ S, normalizedIn S eps (update x j v) k * h k
          + ∑ k ∈ range (volume dims) with ¬ channelOf dims k = channelOf dims j,
              normalizedAt dims eps x k * h k := by
    funext v
    rw [← sum_filter_add_sum_filter_not (range (volume dims))
      (fun k => channelOf dims k = channelOf dims j)]
    congr 1
    · apply sum_congr rfl
      intro k hk
      have hchan : channelOf dims k = channelOf dims j := (mem_filter.1 hk).2
      unfold normalizedAt
      rw [hchan]
    · apply sum_congr rfl
      intro k hk
      obtain ⟨hk, hne⟩ := mem_filter.1 hk
      rw [normalizedAt_update_of_ne (mem_range.1 hk) hne]
  rw [hfun]
  exact hblock.add_const _

/-! ## §3. Affine sums. -/

/-- The loss of a normalization: what is put at each place, weighted by the
incoming gradient. -/
noncomputable def affineSum (n : ℕ) (p : ℕ → ℕ) (g y w b : ℕ → ℝ) : ℝ :=
  ∑ k ∈ range n, (y k * w (p k) + b (p k)) * g k

section
variable {n : ℕ} {p : ℕ → ℕ} {g y w b : ℕ → ℝ}

/-- The loss moves with the normalized elements, each weighted by its weight. -/
theorem hasDerivAt_affineSum_elements {y : ℝ → ℕ → ℝ} {v d : ℝ}
    (h : HasDerivAt (fun v => ∑ k ∈ range n, y v k * (w (p k) * g k)) d v) :
    HasDerivAt (fun v => affineSum n p g (y v) w b) d v := by
  -- the bias contributes a constant
  have hfun : (fun v => affineSum n p g (y v) w b)
      = fun v => ∑ k ∈ range n, y v k * (w (p k) * g k) + ∑ k ∈ range n, b (p k) * g k := by
    funext v
    rw [← sum_add_distrib]
    exact sum_congr rfl fun k _ => by ring
  rw [hfun]
  exact h.add_const _

/-- One entry of a parameter reaches the places that read it. -/
theorem hasDerivAt_sum_update (a w : ℕ → ℝ) (i : ℕ) (v : ℝ) :
    HasDerivAt (fun v => ∑ k ∈ range n, update w i v (p k) * a k)
      (∑ k ∈ range n with p k = i, a k) v := by
  have hterm := HasDerivAt.fun_sum fun k (_ : k ∈ range n) =>
    (hasDerivAt_update w i (p k) v).mul_const (a k)
  refine hterm.congr_deriv ?_
  -- a place that reads another entry contributes nothing
  rw [sum_filter]
  apply sum_congr rfl
  intro k _
  unfold kronecker
  rw [ite_mul, one_mul, zero_mul]

theorem hasDerivAt_affineSum_weight (i : ℕ) (v : ℝ) :
    HasDerivAt (fun v => affineSum n p g y (update w i v) b)
      (∑ k ∈ range n with p k = i, y k * g k) v := by
  have hsum := hasDerivAt_sum_update (n := n) (p := p) (fun k => y k * g k) w i v
  have hfun : (fun v => affineSum n p g y (update w i v) b)
      = fun v => ∑ k ∈ range n, update w i v (p k) * (y k * g k)
          + ∑ k ∈ range n, b (p k) * g k := by
    funext v
    rw [← sum_add_distrib]
    exact sum_congr rfl fun k _ => by ring
  rw [hfun]
  exact hsum.add_const _

theorem hasDerivAt_affineSum_bias (i : ℕ) (v : ℝ) :
    HasDerivAt (fun v => affineSum n p g y w (update b i v))
      (∑ k ∈ range n with p k = i, g k) v := by
  have hsum := hasDerivAt_sum_update (n := n) (p := p) g b i v
  have hfun : (fun v => affineSum n p g y w (update b i v))
      = fun v => ∑ k ∈ range n, update b i v (p k) * g k
          + ∑ k ∈ range n, y k * w (p k) * g k := by
    funext v
    rw [← sum_add_distrib]
    exact sum_congr rfl fun k _ => by ring
  rw [hfun]
  exact hsum.add_const _

end

end ChannelNorm

/-
  ChannelNorm.Proofs.Gradient.Loss
  ────────────────────────────────
  **WHAT IT MEANS TO BE A GRADIENT.**

  A loss maps a tensor to a real number and may fail.  `IsGradient loss x grad`
  says that it fails nowhere along the axes through `x`, and that `grad` holds
  its partial derivatives at `x`, place by place:

      loss (x with v at k)  =  f v          f' (x k)  =  grad k

  The losses of interest weight the output of a call by an incoming gradient.
  `isGradient_of` turns such a statement about tensors into one about their
  elements, as functions of their place.
-/
import Mathlib
import ChannelNorm.GradientCheck
import ChannelNorm.Proofs.Gradient.Affine

namespace ChannelNorm

open Finset Function

/-! ## §1. Moving one element of a tensor. -/

namespace Tensor

variable {α : Type}

/-- The tensor with one element replaced, in place. -/
def replace (t : Tensor α) (k : Nat) (v : α) : Tensor α :=
  t.overwrite (t.toList.set k v)

section
variable (t : Tensor α) (k : Nat) (v : α)

@[simp] theorem layout_replace : (t.replace k v).layout = t.layout :=
  rfl

@[simp] theorem dims_replace : (t.replace k v).dims = t.dims :=
  rfl

@[simp] theorem numel_replace : (t.replace k v).numel = t.numel :=
  rfl

theorem toList_replace : (t.replace k v).toList = t.toList.set k v := by
  unfold replace
  exact toList_overwrite (by rw [List.length_set, length_toList])

theorem elem_replace [Zero α] {k : Nat} (hk : k < t.numel) :
    (t.replace k v).elem = update t.elem k v := by
  funext i
  have hlen : k < t.toList.length := by rwa [length_toList]
  unfold elem
  rw [toList_replace, List.getD_eq_getElem?_getD]
  -- the place that was written, and the others
  by_cases h : i = k
  · subst h
    rw [List.getElem?_set_self hlen, update_self]
    rfl
  · rw [List.getElem?_set_ne (Ne.symm h), update_of_ne h]
    rfl

end

end Tensor

/-! ## §2. Gradients. -/

/-- The tensor holds the partial derivatives of a loss at a point. -/
def IsGradient (loss : Tensor ℝ → Except TensorError ℝ) (x grad : Tensor ℝ) : Prop :=
  grad.numel = x.numel
    ∧ ∀ k < x.numel, ∃ f : ℝ → ℝ,
        (∀ v, loss (x.replace k v) = .ok (f v)) ∧ HasDerivAt f (grad.elem k) (x.elem k)

/-- A loss that depends on the elements alone has the derivatives of that
dependence. -/
theorem isGradient_of {loss : Tensor ℝ → Except TensorError ℝ} {x grad : Tensor ℝ}
    (F : (ℕ → ℝ) → ℝ) (hnumel : grad.numel = x.numel)
    (hloss : ∀ y : Tensor ℝ, y.dims = x.dims → loss y = .ok (F y.elem))
    (hderiv : ∀ k < x.numel,
      HasDerivAt (fun v => F (update x.elem k v)) (grad.elem k) (x.elem k)) :
    IsGradient loss x grad := by
  refine ⟨hnumel, fun k hk => ⟨fun v => F (update x.elem k v), fun v => ?_, hderiv k hk⟩⟩
  rw [hloss _ (x.dims_replace k v), x.elem_replace v hk]

/-- The gradient by a parameter that may be missing, in the parameter's shape; a
missing parameter has none. -/
def ParamGradient (loss : Option (Tensor ℝ) → Except TensorError ℝ) :
    Option (Tensor ℝ) → Option (Tensor ℝ) → Prop
  | none, grad => grad = none
  | some w, grad => ∃ dw, grad = some dw ∧ dw.dims = w.dims
      ∧ IsGradient (fun w => loss (some w)) w dw

/-- A parameter that was given has the derivatives of the dependence on its
entries. -/
theorem paramGradient_of {loss : Option (Tensor ℝ) → Except TensorError ℝ}
    {param : Option (Tensor ℝ)} {entry : List Nat} {dw : Tensor ℝ} (F : (ℕ → ℝ) → ℝ)
    (hdims : dw.dims = entry) (hparam : ∀ w, param = some w → w.dims = entry)
    (hloss : ∀ y : Tensor ℝ, y.dims = entry → loss (some y) = .ok (F y.elem))
    (hderiv : ∀ e : ℕ → ℝ, ∀ i < volume entry,
      HasDerivAt (fun v => F (update e i v)) (dw.elem i) (e i)) :
    ParamGradient loss param (param.map fun _ => dw) := by
  cases param with
  | none => rfl
  | some w =>
      have hentry := hparam w rfl
      have hwdims : dw.dims = w.dims := hdims.trans hentry.symm
      refine ⟨dw, rfl, hwdims, isGradient_of F (congrArg volume hwdims) ?_ ?_⟩
      · intro y hy
        exact hloss y (hy.trans hentry)
      · intro i hi
        rw [Tensor.numel, hentry] at hi
        exact hderiv w.elem i hi

/-- The gradients of a loss that depends on an input and two parameters. -/
structure GradientsOf
    (loss : Tensor ℝ → Option (Tensor ℝ) → Option (Tensor ℝ) → Except TensorError ℝ)
    (input : Tensor ℝ) (weight bias : Option (Tensor ℝ)) (grads : Gradients ℝ) : Prop where
  byInput : ∃ dx, grads.input = some dx ∧ dx.dims = input.dims
    ∧ IsGradient (fun x => loss x weight bias) input dx
  byWeight : ParamGradient (fun w => loss input w bias) weight grads.weight
  byBias : ParamGradient (fun b => loss input weight b) bias grads.bias

/-! ## §3. Weighted sums of an output. -/

/-- The loss of an output is the sum of its elements, each times its weight. -/
theorem weightedSumLoss_eq {output weights : Tensor ℝ} (h : output.dims = weights.dims) :
    weightedSumLoss output weights
      = .ok (∑ k ∈ range output.numel, output.elem k * weights.elem k) := by
  unfold weightedSumLoss
  rw [if_pos (Tensor.sameShape_of_dims h), output.zipWith_toList h.symm, foldl_add_eq,
    sumInOrder_real]
  congr 1
  show -0 + _ = _
  -- the sum starts from negative zero, which is zero here
  rw [neg_zero, zero_add, ← List.sum_toFinset _ List.nodup_range, List.toFinset_range]

/-- The loss of contents given place by place. -/
theorem weightedSumLoss_withContents {t g : Tensor ℝ} (h : g.dims = t.dims) (y : ℕ → ℝ)
    (hlen : ((List.range t.numel).map y).length = t.numel) :
    weightedSumLoss (t.withContents ((List.range t.numel).map y) hlen) g
      = .ok (∑ k ∈ range t.numel, y k * g.elem k) := by
  have hdims : (t.withContents ((List.range t.numel).map y) hlen).dims = t.dims :=
    Tensor.dims_withContents
  have hnumel : (t.withContents ((List.range t.numel).map y) hlen).numel = t.numel :=
    congrArg volume hdims
  rw [weightedSumLoss_eq (hdims.trans h.symm), hnumel]
  congr 1
  apply sum_congr rfl
  intro k hk
  rw [Tensor.elem_of_toList_eq_map Tensor.toList_withContents (mem_range.1 hk)]

end ChannelNorm

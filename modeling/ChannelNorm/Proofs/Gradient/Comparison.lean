/-
  ChannelNorm.Proofs.Gradient.Comparison
  ──────────────────────────────────────
  **WHAT A COMPARISON OF TWO GRADIENTS REPORTS.**

  Two gradients `a` and `n` of one shape are compared place by place.  Over an
  ordered field the errors `|a k - n k|` are known exactly, and one scan through
  them reports

      largest error       their maximum, zero if there are no elements
      worst place         the first at which it is attained
      mean error          their sum over their number
      relative error      the maximum of the relative errors
      passed              how many places are within either tolerance

  The layouts of the two do not matter, nor does which of them is which.
-/
import Mathlib
import ChannelNorm.GradientCheck
import ChannelNorm.Proofs.Scalar.Field
import ChannelNorm.Proofs.Tensor.Index
import ChannelNorm.Tensor.Reshape

namespace ChannelNorm

open Finset
open scoped OrderedField

variable {K : Type} [Field K] [LinearOrder K]

/-! ## §1. The largest of some numbers. -/

/-- The largest of some numbers, zero if there are none. -/
def IsLargest (xs : List K) (m : K) : Prop :=
  xs = [] ∧ m = 0 ∨ IsGreatest {x | x ∈ xs} m

theorem isLargest_of_mem {xs : List K} {m : K} (hmem : m ∈ xs) (hup : ∀ x ∈ xs, x ≤ m) :
    IsLargest xs m :=
  .inr ⟨hmem, hup⟩

theorem IsLargest.unique {xs : List K} {m m' : K} (h : IsLargest xs m) (h' : IsLargest xs m') :
    m = m' := by
  rcases h with ⟨rfl, rfl⟩ | h
  · rcases h' with ⟨_, rfl⟩ | ⟨hmem, _⟩
    · rfl
    · cases hmem
  · rcases h' with ⟨rfl, _⟩ | h'
    · cases h.1
    · exact h.unique h'

/-- One more number that is not negative. -/
theorem IsLargest.snoc {xs : List K} {m x : K} (h : IsLargest xs m) (hx : 0 ≤ x) :
    IsLargest (xs ++ [x]) (max m x) := by
  right
  rcases h with ⟨rfl, rfl⟩ | ⟨hmem, hup⟩
  · rw [max_eq_right hx]
    exact ⟨List.mem_singleton_self x, fun y hy => (List.mem_singleton.1 hy).le⟩
  · refine ⟨?_, fun y hy => ?_⟩
    · rcases max_choice m x with heq | heq <;> rw [heq]
      · exact List.mem_append_left _ hmem
      · exact List.mem_append_right _ (List.mem_singleton_self x)
    · rcases List.mem_append.1 hy with hy | hy
      · exact (hup hy).trans (le_max_left m x)
      · exact (List.mem_singleton.1 hy).le.trans (le_max_right m x)

section
variable [Rooted K]

/-- Numbers that are not negative, taken one after the other. -/
theorem isLargest_foldl {xs : List K} (h : ∀ x ∈ xs, 0 ≤ x) :
    IsLargest xs (xs.foldl OrderedArith.larger 0) := by
  -- on the numbers taken so far, the last one split off
  induction xs using List.reverseRecOn with
  | nil => exact .inl ⟨rfl, rfl⟩
  | append_singleton xs x ih =>
      have hxs := ih fun y hy => h y (List.mem_append_left _ hy)
      rw [List.foldl_append, List.foldl_cons, List.foldl_nil, OrderedField.larger_eq]
      exact hxs.snoc (h x (List.mem_append_right _ (List.mem_singleton_self x)))

end

/-! ## §2. Where it is first met. -/

/-- What a scan has found in the numbers it has seen: the largest, and its first
place, if there is one. -/
structure Scanned (xs : List K) (worst : K × Option ℕ) : Prop where
  largest : IsLargest xs worst.1
  eq_nil : worst.2 = none → xs = []
  first : ∀ i, worst.2 = some i → IsLeast {j | xs[j]? = some worst.1} i

/-- The worst place moves to a number that is larger than all before it. -/
theorem Scanned.lt_of_moves {xs : List K} {worst : K × Option ℕ} (h : Scanned xs worst) {x : K}
    (hx : 0 ≤ x) (hmoves : worst.1 < x ∨ worst.2 = none) :
    max worst.1 x = x ∧ ∀ y ∈ xs, y < x := by
  rcases h.largest with ⟨rfl, hzero⟩ | ⟨hmem, hup⟩
  · rw [hzero]
    exact ⟨max_eq_right hx, nofun⟩
  · have hlt : worst.1 < x := hmoves.resolve_right fun hnone => by
      rw [h.eq_nil hnone] at hmem
      cases hmem
    exact ⟨max_eq_right hlt.le, fun y hy => (hup hy).trans_lt hlt⟩

section
variable [Rooted K]

theorem worstStep_eq (worst : K × Option ℕ) (x : K) (k : ℕ) :
    worstStep worst (x, k)
      = if worst.1 < x ∨ worst.2 = none then (max worst.1 x, some k) else worst := by
  unfold worstStep
  rw [OrderedField.larger_eq]
  refine if_congr ?_ rfl rfl
  show (decide (worst.1 < x) || worst.2.isNone) = true ↔ _
  rw [Bool.or_eq_true, decide_eq_true_eq, Option.isNone_iff_eq_none]

/-- **One step of the scan.** -/
theorem Scanned.step {xs : List K} {worst : K × Option ℕ} (h : Scanned xs worst) {x : K}
    (hx : 0 ≤ x) : Scanned (xs ++ [x]) (worstStep worst (x, xs.length)) := by
  have hlargest := h.largest.snoc hx
  rw [worstStep_eq]
  split
  next hmoves =>
    obtain ⟨hmax, hlt⟩ := h.lt_of_moves hx hmoves
    rw [hmax] at hlargest ⊢
    refine ⟨hlargest, nofun, ?_⟩
    rintro _ ⟨⟩
    refine ⟨List.getElem?_concat_length, fun j hj => ?_⟩
    -- `x` stands at no place before
    by_contra hbefore
    replace hj : (xs ++ [x])[j]? = some x := hj
    rw [List.getElem?_append_left (not_le.1 hbefore)] at hj
    exact lt_irrefl x (hlt x (List.mem_of_getElem? hj))
  next hstays =>
    rw [not_or, not_lt] at hstays
    rw [max_eq_left hstays.1] at hlargest
    refine ⟨hlargest, fun hnone => absurd hnone hstays.2, fun i hi => ?_⟩
    obtain ⟨hmem, hlow⟩ := h.first i hi
    have hin : i < xs.length := (List.getElem?_eq_some_iff.1 hmem).1
    refine ⟨(List.getElem?_append_left hin).trans hmem, fun j hj => ?_⟩
    -- the new place comes after it
    rcases Nat.lt_or_ge j xs.length with hj' | hj'
    · exact hlow ((List.getElem?_append_left hj').symm.trans hj)
    · exact hin.le.trans hj'

/-- **The whole scan.** -/
theorem scanned_foldl {xs : List K} (h : ∀ x ∈ xs, 0 ≤ x) :
    Scanned xs (xs.zipIdx.foldl worstStep (0, none)) := by
  induction xs using List.reverseRecOn with
  | nil => exact ⟨.inl ⟨rfl, rfl⟩, fun _ => rfl, nofun⟩
  | append_singleton xs x ih =>
      have hxs := ih fun y hy => h y (List.mem_append_left _ hy)
      have hstep := hxs.step (h x (List.mem_append_right _ (List.mem_singleton_self x)))
      rw [List.zipIdx_append, List.foldl_append, Nat.zero_add]
      exact hstep

end

/-! ## §3. Errors of one place. -/

/-- The error relative to the larger of the two values, unless that is tiny. -/
def relativeDeviation (x y : K) : K :=
  if 1 / (10 ^ 10 : ℕ) < max |x| |y| then |x - y| / max |x| |y| else |x - y|

/-- Within the absolute tolerance or within the relative one. -/
def CheckerConfig.Accepts (c : CheckerConfig K) (x y : K) : Prop :=
  |x - y| ≤ c.atol ∨ relativeDeviation x y ≤ c.rtol

instance (c : CheckerConfig K) (x y : K) : Decidable (c.Accepts x y) :=
  inferInstanceAs (Decidable (_ ∨ _))

theorem relativeDeviation_comm (x y : K) : relativeDeviation x y = relativeDeviation y x := by
  unfold relativeDeviation
  rw [max_comm, abs_sub_comm]

theorem CheckerConfig.accepts_comm (c : CheckerConfig K) (x y : K) :
    c.Accepts x y ↔ c.Accepts y x := by
  unfold Accepts
  rw [abs_sub_comm, relativeDeviation_comm]

section
variable [Rooted K]

theorem relativeError_eq (x y : K) : relativeError (x, y) = relativeDeviation x y := by
  show (if decide (OrderedArith.decimalPart 10 < OrderedArith.larger |x| |y|) = true then
    |x - y| / OrderedArith.larger |x| |y| else |x - y|) = _
  rw [OrderedField.larger_eq, OrderedField.decimalPart_eq]
  unfold relativeDeviation
  exact if_congr decide_eq_true_iff rfl rfl

theorem passes_eq (c : CheckerConfig K) (x y : K) : c.passes (x, y) = decide (c.Accepts x y) := by
  show (decide (|x - y| ≤ c.atol) || decide (relativeError (x, y) ≤ c.rtol)) = _
  rw [relativeError_eq, ← Bool.decide_or]
  rfl

end

theorem relativeDeviation_nonneg [IsStrictOrderedRing K] (x y : K) :
    0 ≤ relativeDeviation x y := by
  unfold relativeDeviation
  split
  · exact div_nonneg (abs_nonneg _) ((abs_nonneg x).trans (le_max_left _ _))
  · exact abs_nonneg _

/-! ## §4. The comparison. -/

/-- What a comparison of two gradients reports. -/
structure GradientComparison.Reports (r : GradientComparison K) (c : CheckerConfig K)
    (a n : Tensor K) : Prop where
  numElements : r.numElements = a.numel
  maxError : IsLargest ((List.range a.numel).map fun k => |a.elem k - n.elem k|) r.maxError
  worstIndex : ∀ k, r.worstIndex = some k
    ↔ IsLeast {j | j < a.numel ∧ |a.elem j - n.elem j| = r.maxError} k
  worstIndex_eq_none : r.worstIndex = none ↔ a.numel = 0
  meanError : r.meanError * a.numel = ∑ k ∈ range a.numel, |a.elem k - n.elem k|
  relativeError : IsLargest
    ((List.range a.numel).map fun k => relativeDeviation (a.elem k) (n.elem k)) r.relativeError
  numPassed : r.numPassed = #{k ∈ range a.numel | c.Accepts (a.elem k) (n.elem k)}
  isValid : r.isValid = true ↔ ∀ k < a.numel, c.Accepts (a.elem k) (n.elem k)

/-- A scan through values at places finds the first place of the largest one. -/
theorem Scanned.worst_iff {f : ℕ → K} {n : ℕ} {worst : K × Option ℕ}
    (h : Scanned ((List.range n).map f) worst) (k : ℕ) :
    worst.2 = some k ↔ IsLeast {j | j < n ∧ f j = worst.1} k := by
  have hplaces : {j | ((List.range n).map f)[j]? = some worst.1} = {j | j < n ∧ f j = worst.1} := by
    ext j
    show ((List.range n).map f)[j]? = some worst.1 ↔ j < n ∧ f j = worst.1
    rw [List.getElem?_eq_some_iff]
    simp
  rw [← hplaces]
  constructor
  · exact h.first k
  · intro hk
    cases hw : worst.2 with
    | none =>
        obtain ⟨hmem, _⟩ := hk
        replace hmem : ((List.range n).map f)[k]? = some worst.1 := hmem
        rw [h.eq_nil hw] at hmem
        cases hmem
    | some i => rw [(h.first i hw).unique hk]

variable [Rooted K]

/-- **A comparison of two gradients of one shape**, whatever their layouts. -/
theorem compareGradients_reports [IsStrictOrderedRing K] (c : CheckerConfig K) {a n : Tensor K}
    (hdims : a.dims = n.dims) : ∃ r, compareGradients c a n = .ok r ∧ r.Reports c a n := by
  have hpairs := a.zip_toList hdims.symm
  have herrors : (a.toList.zip n.toList).map absoluteError
      = (List.range a.numel).map fun k => |a.elem k - n.elem k| := by
    rw [hpairs, List.map_map]
    rfl
  have hrelative : (a.toList.zip n.toList).map relativeError
      = (List.range a.numel).map fun k => relativeDeviation (a.elem k) (n.elem k) := by
    rw [hpairs, List.map_map]
    exact List.map_congr_left fun k _ => relativeError_eq _ _
  have hpassed : (a.toList.zip n.toList).countP c.passes
      = #{k ∈ range a.numel | c.Accepts (a.elem k) (n.elem k)} := by
    rw [hpairs, List.countP_map, ← Nat.count_eq_card_filter_range]
    exact List.countP_congr fun k _ => by rw [Function.comp_apply, passes_eq]
  have hscan := scanned_foldl (List.forall_mem_map.2 fun k (_ : k ∈ List.range a.numel) =>
    abs_nonneg (a.elem k - n.elem k))
  unfold compareGradients
  rw [if_pos (Tensor.sameShape_of_dims hdims)]
  dsimp only
  rw [herrors, hrelative, hpassed]
  refine ⟨_, rfl, rfl, hscan.largest, hscan.worst_iff, ⟨fun hnone => ?empty, fun hzero => ?none⟩,
    ?mean, isLargest_foldl (List.forall_mem_map.2 fun k _ => relativeDeviation_nonneg _ _), rfl,
    ?valid⟩
  case empty =>
    have hnil := congrArg List.length (hscan.eq_nil hnone)
    rwa [List.length_map, List.length_range] at hnil
  case none =>
    rw [hzero]
    rfl
  case mean =>
    split
    next hzero =>
      rw [hzero, zero_mul]
      rfl
    next hne =>
      have hcount : (a.numel : K) ≠ 0 := Nat.cast_ne_zero.2 hne
      rw [OrderedField.sumInOrder_eq]
      show _ / (a.numel : K) * (a.numel : K) = _
      rw [div_mul_cancel₀ _ hcount, ← List.sum_toFinset _ List.nodup_range, List.toFinset_range]
  case valid =>
    have hall := card_filter_eq_iff (s := range a.numel)
      (p := fun k => c.Accepts (a.elem k) (n.elem k))
    rw [card_range] at hall
    rw [beq_iff_eq, hall]
    exact forall_congr' fun k => by rw [mem_range]

/-- It does not matter which of the two gradients is which. -/
theorem compareGradients_comm (c : CheckerConfig K) {a n : Tensor K} (hdims : a.dims = n.dims) :
    compareGradients c n a = compareGradients c a n := by
  have hnumel : n.numel = a.numel := congrArg volume hdims.symm
  have hswap : n.toList.zip a.toList = (a.toList.zip n.toList).map Prod.swap :=
    (List.zip_swap _ _).symm
  have habsolute : absoluteError ∘ Prod.swap = (absoluteError : K × K → K) :=
    funext fun p => abs_sub_comm p.2 p.1
  have hrelative : relativeError ∘ Prod.swap = (relativeError : K × K → K) := by
    funext ⟨x, y⟩
    show relativeError (y, x) = relativeError (x, y)
    rw [relativeError_eq, relativeError_eq, relativeDeviation_comm]
  have hpasses : c.passes ∘ Prod.swap = c.passes := by
    funext ⟨x, y⟩
    show c.passes (y, x) = c.passes (x, y)
    rw [passes_eq, passes_eq]
    exact decide_eq_decide.2 (c.accepts_comm y x)
  unfold compareGradients
  rw [if_pos (Tensor.sameShape_of_dims hdims), if_pos (Tensor.sameShape_of_dims hdims.symm)]
  dsimp only
  rw [hswap, List.map_map, List.map_map, List.countP_map, habsolute, hrelative, hpasses, hnumel]

/-- **What a comparison reports.**  Two gradients of one shape are compared, place by
place of their contents, whatever their layouts and the tolerances.  The report holds
the largest error and the first place of it, the mean error, the largest relative
error and the number of places within tolerance, and accepts exactly if that is every
place.  With the gradients exchanged it is the same. -/
theorem comparison_reports_errors [IsStrictOrderedRing K] (c : CheckerConfig K) {a n : Tensor K}
    (hdims : a.dims = n.dims) :
    ∃ r, compareGradients c a n = .ok r ∧ compareGradients c n a = .ok r ∧ r.Reports c a n := by
  obtain ⟨r, hr, hreports⟩ := compareGradients_reports c hdims
  exact ⟨r, hr, (compareGradients_comm c hdims).trans hr, hreports⟩

/-- The comparison takes no root. -/
instance : Rooted ℚ :=
  ⟨id⟩

/-- Two rows of two elements, stored column by column. -/
def storedByColumn (a b c d : ℚ) : Tensor ℚ where
  layout := { axes := [⟨2, 1⟩, ⟨2, 2⟩], nodup := by decide, addressable := by decide }
  buffer := #[a, c, b, d]
  device := .cpu
  bound := by
    show ∀ p ∈ [0, 2, 1, 3], p < 4
    decide

/-- The same, stored row by row. -/
def storedByRow (a b c d : ℚ) : Tensor ℚ :=
  (storedByColumn a b c d).contiguous

/-- Places 0 and 1 are off by two both, and the first of them is reported. -/
theorem comparison_reports_errors_tie :
    ∃ r, compareGradients ⟨.central, none, 1 / 2, 0⟩ (storedByColumn 1 5 2 0)
        (storedByRow 3 3 2 1) = .ok r
      ∧ compareGradients ⟨.central, none, 1 / 2, 0⟩ (storedByRow 3 3 2 1)
        (storedByColumn 1 5 2 0) = .ok r
      ∧ r.maxError = 2 ∧ r.worstIndex = some 0 ∧ r.meanError = 5 / 4 ∧ r.relativeError = 1
      ∧ r.numPassed = 2 ∧ r.isValid = false := by
  obtain ⟨r, hr, hswapped, h⟩ := @comparison_reports_errors ℚ _ _ _ _
    ⟨.central, none, 1 / 2, 0⟩ (storedByColumn 1 5 2 0) (storedByRow 3 3 2 1) rfl
  have hmax : r.maxError = 2 :=
    h.maxError.unique (isLargest_of_mem (by decide +kernel) (by decide +kernel))
  have hrelative : r.relativeError = 1 :=
    h.relativeError.unique (isLargest_of_mem (by decide +kernel) (by decide +kernel))
  refine ⟨r, hr, hswapped, hmax, ?_, ?_, hrelative, ?_, ?_⟩
  · refine (h.worstIndex 0).2 ⟨⟨by decide, ?_⟩, fun j _ => Nat.zero_le j⟩
    rw [hmax]
    decide +kernel
  · have hsum : ∑ k ∈ range 4, |(storedByColumn 1 5 2 0).elem k - (storedByRow 3 3 2 1).elem k|
        = 5 := by
      decide +kernel
    have hmean : r.meanError * (4 : ℕ) = 5 := h.meanError.trans hsum
    exact eq_div_of_mul_eq four_ne_zero hmean
  · rw [h.numPassed]
    decide +kernel
  · rw [← Bool.not_eq_true, h.isValid]
    decide +kernel

end ChannelNorm

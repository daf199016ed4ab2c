/-
  ChannelNorm.Proofs.Replay.Block
  ───────────────────────────────
  **BLOCK NORMALIZATIONS, FORWARD AND BACKWARD, OVER THE REALS.**

  Layer and group normalization fold their input to `(1, blocks, len)`, so that
  the blocks become channels, and apply the affine part afterwards, each place
  `k` reading the entry `p k` of the parameters.  What this needs of a plan is
  `BlockPlan.Sound`: folding and unfolding keep the contents, and a reduction
  sums, for each entry, the places that read it.  Then

      output k    =  normalizedAt [1, blocks, len] eps x k * w (p k) + b (p k)
      input       =  the training gradient of the incoming gradient times w
      weight i    =  Σ over the places that read i of  g · normalized
      bias i      =  Σ over the places that read i of  g

  which are the derivatives of `Σ g · output`.
-/
import Mathlib
import ChannelNorm.Proofs.BatchNorm.Gradient
import ChannelNorm.Proofs.Tensor.Broadcast
import ChannelNorm.Proofs.Tensor.Reduce
import ChannelNorm.Replay.Block

namespace ChannelNorm

open Finset Function

/-! ## §1. Results of calls and checks. -/

section
variable {α A ρ σ : Type}

/-- What a call that goes on returns, its events apart. -/
theorem Logged.result_of_bind (x : Logged α A ρ) (f : ρ → Logged α A σ) :
    (x >>= f).result = x.result >>= fun r => (f r).result := by
  show (Logged.bind x f).result = _
  unfold Logged.bind
  cases x.result <;> rfl

/-- Calls that go on alike from what was returned. -/
theorem Logged.bind_congr {x : Logged α A ρ} {f g : ρ → Logged α A σ}
    (h : ∀ r, x.result = .ok r → f r = g r) : x >>= f = x >>= g := by
  show Logged.bind x f = Logged.bind x g
  unfold Logged.bind
  cases hx : x.result with
  | error e => rfl
  | ok r =>
      dsimp only
      rw [h r hx]

/-- A successful call goes on with its result. -/
theorem Logged.result_bind {x : Logged α A ρ} {f : ρ → Logged α A σ} {r : ρ}
    (h : x.result = .ok r) : (x >>= f).result = (f r).result := by
  rw [Logged.result_of_bind, h]
  rfl

/-- So does a successful check. -/
theorem Logged.result_lift_bind {x : Except TensorError ρ} {f : ρ → Logged α A σ} {r : ρ}
    (h : x = .ok r) : ((liftM x : Logged α A ρ) >>= f).result = (f r).result :=
  Logged.result_bind h

/-- A failed one ends the call. -/
theorem Logged.result_lift_bind_error {x : Except TensorError ρ} {f : ρ → Logged α A σ}
    {e : TensorError} (h : x = .error e) :
    ((liftM x : Logged α A ρ) >>= f).result = .error e := by
  rw [h]
  rfl

/-- A call succeeds when each of its steps does. -/
theorem Logged.bind_eq_ok {x : Logged α A ρ} {f : ρ → Logged α A σ} {s : σ} :
    (x >>= f).result = .ok s ↔ ∃ r, x.result = .ok r ∧ (f r).result = .ok s := by
  show (Logged.bind x f).result = .ok s ↔ _
  unfold Logged.bind
  cases x.result with
  | error e => exact iff_of_false nofun fun ⟨_, h, _⟩ => nomatch h
  | ok r => exact ⟨fun h => ⟨r, rfl, h⟩, fun ⟨_, hr, h⟩ => Except.ok.inj hr ▸ h⟩

/-- A check is its own result. -/
theorem Logged.result_lift (x : Except TensorError ρ) :
    (liftM x : Logged α A ρ).result = x :=
  rfl

theorem Logged.lift_bind_eq_ok {x : Except TensorError ρ} {f : ρ → Logged α A σ} {s : σ} :
    ((liftM x : Logged α A ρ) >>= f).result = .ok s ↔ ∃ r, x = .ok r ∧ (f r).result = .ok s :=
  Logged.bind_eq_ok

/-- A step that is taken only on a condition. -/
theorem Logged.ite_bind_eq_ok {c : Prop} [Decidable c] {x : Logged α A (Option ρ)}
    {f : Option ρ → Logged α A σ} {s : σ} :
    (if c then x >>= f else pure none >>= f).result = .ok s
      ↔ ∃ o, (if c then x.result else .ok none) = .ok o ∧ (f o).result = .ok s := by
  by_cases hc : c
  · rw [if_pos hc, if_pos hc]
    exact Logged.bind_eq_ok
  · rw [if_neg hc, if_neg hc]
    exact Logged.bind_eq_ok

end

/-- A check of one condition. -/
theorem checking_eq_ok {c : Prop} [Decidable c] {e : TensorError} :
    (if c then Except.ok () else .error e) = .ok () ↔ c := by
  by_cases hc : c
  · exact iff_of_true (if_pos hc) hc
  · rw [if_neg hc]
    exact iff_of_false nofun hc

/-! ## §2. Plans that fold blocks to channels. -/

/-- A plan folds arrays of dimensions `dims` to `(1, blocks, len)` and back, and
sums, for each entry of a parameter of dimensions `entry`, the places that read
it. -/
structure BlockPlan.Sound (plan : BlockPlan ℝ) (dims : List Nat) (blocks len : Nat)
    (p : ℕ → ℕ) (entry : List Nat) : Prop where
  volume : volume [1, blocks, len] = volume dims
  fold : ∀ t : Tensor ℝ, t.dims = dims →
    ∃ r, plan.fold t = .ok r ∧ r.dims = [1, blocks, len] ∧ r.toList = t.toList
  unfold : ∀ t : Tensor ℝ, t.dims = [1, blocks, len] →
    ∃ r, plan.unfold t = .ok r ∧ r.dims = dims ∧ r.toList = t.toList
  reduce : ∀ t : Tensor ℝ, t.dims = dims →
    ∃ r, plan.reduce t = .ok r ∧ r.dims = entry
      ∧ ∀ i < ChannelNorm.volume entry,
          r.elem i = ∑ k ∈ range (ChannelNorm.volume dims) with p k = i, t.elem k

/-! ## §3. The weightless forward of the folded input. -/

theorem accepted_plain {α A : Type} [OrderedArith A] [Element α A] {folded : Tensor α} (eps : A)
    (hrank : 2 ≤ folded.rank) :
    (ForwardArgs.plain folded eps).Accepted .none := by
  refine ⟨hrank, ?_, ?_, ?_, ?_, fun ht => Bool.noConfusion ht⟩
  all_goals rintro t ⟨⟩

section
variable (ex : Executor) (registry : Registry ℝ ℝ) (enabled : Bool) {folded : Tensor ℝ} (eps : ℝ)

/-- Without parameters no accelerator is eligible: the native implementation
runs and normalizes every channel. -/
theorem batchNormForward_plain (hrank : 2 ≤ folded.rank) :
    (batchNormForward ex registry enabled (.plain folded eps) .none).result = .ok
      { output := folded.withContents
          ((List.range folded.numel).map (normalizedAt folded.dims eps folded.elem)) (by simp)
        saved := (ForwardArgs.plain folded eps).batchStats
        backend := .native } := by
  have haccepted := accepted_plain eps hrank
  obtain ⟨params, hcheck, _⟩ := checkForward_training "batch_norm" haccepted rfl
  have hnative : (batchNormForward ex registry enabled (.plain folded eps) .none).result
      = (nativeBatchNorm ex (.plain folded eps) .none).result := by
    -- whatever is selected, there is no weight to hand over
    unfold batchNormForward
    rw [hcheck]
    dsimp only
    cases selectAccelerator ex.config registry enabled (.plain folded eps) .none <;> rfl
  rw [hnative, nativeBatchNorm_training ex haccepted rfl]
  congr 2
  refine folded.withContents_congr (List.map_congr_left fun k hk => ?_)
  have hc : channelOf folded.dims k < folded.channels :=
    channelOf_lt hrank (List.mem_range.1 hk)
  unfold ForwardArgs.trainingAt normalizeElement
  show (folded.elem k - folded.batchMean (channelOf folded.dims k))
    * folded.batchInvstd eps (channelOf folded.dims k) * 1 + 0 = _
  rw [mul_one, add_zero, folded.batchMean_eq_meanOver hrank hc,
    folded.batchInvstd_eq_invstdOver hrank hc]
  rfl

end

namespace BlockPlan.Sound

variable {plan : BlockPlan ℝ} {dims entry : List Nat} {blocks len : Nat} {p : ℕ → ℕ}

/-- Fold, normalize, unfold: every element is normalized within its block. -/
theorem normalize (h : plan.Sound dims blocks len p entry) (ex : Executor)
    (registry : Registry ℝ ℝ) (enabled : Bool) {input : Tensor ℝ} (hin : input.dims = dims)
    (eps : ℝ) :
    ∃ folded forward normalized,
      plan.fold input = .ok folded ∧ folded.dims = [1, blocks, len] ∧ folded.elem = input.elem
      ∧ (batchNormForward ex registry enabled (.plain folded eps) .none).result = .ok forward
      ∧ forward.saved = (ForwardArgs.plain folded eps).batchStats ∧ forward.backend = .native
      ∧ plan.unfold forward.output = .ok normalized ∧ normalized.dims = dims
      ∧ ∀ k < ChannelNorm.volume dims,
          normalized.elem k = normalizedAt [1, blocks, len] eps input.elem k := by
  obtain ⟨folded, hfold, hfdims, hflist⟩ := h.fold input hin
  have hrank : 2 ≤ folded.rank := Tensor.two_le_rank hfdims
  have hforward := batchNormForward_plain ex registry enabled eps hrank
  obtain ⟨normalized, hunfold, hndims, hnlist⟩ := h.unfold
    (folded.withContents ((List.range folded.numel).map
      (normalizedAt folded.dims eps folded.elem)) (by simp))
    (Tensor.dims_withContents.trans hfdims)
  have helem : folded.elem = input.elem := Tensor.elem_of_toList_eq hflist
  refine ⟨folded, _, normalized, hfold, hfdims, helem, hforward, rfl, rfl, hunfold, hndims,
    fun k hk => ?_⟩
  have hnumel : folded.numel = ChannelNorm.volume dims := by
    unfold Tensor.numel
    rw [hfdims, h.volume]
  rw [Tensor.toList_withContents, hnumel] at hnlist
  rw [Tensor.elem_of_toList_eq_map hnlist hk, hfdims, helem]

end BlockPlan.Sound

/-! ## §4. The backward of a recorded call. -/

/-- A recorded state is what a forward call through the plan leaves. -/
structure BlockState.Recorded (s : BlockState ℝ ℝ) (plan : BlockPlan ℝ) (dims : List Nat)
    (blocks len : Nat) (p : ℕ → ℕ) : Prop where
  input : s.input.dims = dims
  normalized_dims : s.normalized.dims = dims
  normalized : ∀ k < volume dims,
    s.normalized.elem k = normalizedAt [1, blocks, len] s.eps s.input.elem k
  /-- The weight is in the shape it is stretched from. -/
  weight : ∀ w, s.weight = some w → w.StretchedBy dims p
  saved : ∀ folded, plan.fold s.input = .ok folded →
    s.saved = (ForwardArgs.plain folded s.eps).batchStats
  backend : s.backend = .native

namespace BlockState

section
variable {plan : BlockPlan ℝ} {dims entry : List Nat} {blocks len : Nat} {p : ℕ → ℕ}
  {s : BlockState ℝ ℝ} {g : Tensor ℝ}

/-- The loss of a call in terms of its elements and parameters, for the blocks
of a recorded state. -/
noncomputable def lossOver (s : BlockState ℝ ℝ) (dims : List Nat) (blocks len : Nat) (p : ℕ → ℕ)
    (g x w b : ℕ → ℝ) : ℝ :=
  affineSum (volume dims) p g (normalizedAt [1, blocks, len] s.eps x) w b

/-- The folded backward call is accepted when it reads what the folded forward
call saved. -/
theorem accepted_backwardArgs {folded foldedGrad : Tensor ℝ} (hrank : 2 ≤ folded.rank)
    (hdims : foldedGrad.dims = folded.dims)
    (hsaved : s.saved = (ForwardArgs.plain folded s.eps).batchStats) :
    (s.backwardArgs folded foldedGrad).Accepted := by
  -- the call differs from that of a plain forward in its mask only
  have hplain : ((ForwardArgs.plain folded s.eps).backward (ForwardArgs.plain folded s.eps).saved
      .none foldedGrad).Accepted :=
    ForwardArgs.accepted_backward (accepted_plain s.eps hrank) hdims
      fun ht => Bool.noConfusion ht
  have hsaved' : s.saved = (ForwardArgs.plain folded s.eps).saved := hsaved
  rw [← hsaved'] at hplain
  exact ⟨hplain.rank, hplain.gradient, hplain.weight, hplain.mean, hplain.var, hplain.hasMean,
    hplain.hasVar⟩

/-- Its input gradient is the derivative of the weighted sum of the normalized
elements. -/
theorem hasDerivAt_folded {folded foldedGrad : Tensor ℝ} (hrank : 2 ≤ folded.rank)
    (hdims : foldedGrad.dims = folded.dims)
    (hsaved : s.saved = (ForwardArgs.plain folded s.eps).batchStats)
    (hpos : ∀ c < folded.channels,
      0 < varianceOver (channelSet folded.dims c) folded.elem + s.eps)
    {k : ℕ} (hk : k < folded.numel) :
    HasDerivAt
      (fun v => ∑ i ∈ range folded.numel,
        normalizedAt folded.dims s.eps (update folded.elem k v) i * foldedGrad.elem i)
      ((s.backwardArgs folded foldedGrad).inputGradAt k) (folded.elem k) := by
  have hspread : (ForwardArgs.plain folded s.eps : ForwardArgs ℝ ℝ).Spread := by
    intro _ c hc
    show 0 < biasedVariance (folded.plane c) + s.eps
    rw [folded.biasedVariance_plane hrank hc]
    exact hpos c hc
  have hplain : HasDerivAt
      (fun v => affineSum folded.numel (channelOf folded.dims) foldedGrad.elem
        ((ForwardArgs.plain folded s.eps).normalized .none (update folded.elem k v))
        (paramAt none 1) (paramAt none 0))
      (((ForwardArgs.plain folded s.eps).backward (ForwardArgs.plain folded s.eps).saved .none
        foldedGrad).inputGradAt k) (folded.elem k) :=
    ForwardArgs.hasDerivAt_training (accepted_plain s.eps hrank) hdims rfl hspread hk
  have hsaved' : s.saved = (ForwardArgs.plain folded s.eps).saved := hsaved
  rw [← hsaved'] at hplain
  -- without parameters the loss is the weighted sum itself
  have hfun : (fun v => affineSum folded.numel (channelOf folded.dims) foldedGrad.elem
        ((ForwardArgs.plain folded s.eps).normalized .none (update folded.elem k v))
        (paramAt none 1) (paramAt none 0))
      = fun v => ∑ i ∈ range folded.numel,
          normalizedAt folded.dims s.eps (update folded.elem k v) i * foldedGrad.elem i := by
    funext v
    apply sum_congr rfl
    intro i _
    show (normalizedAt folded.dims s.eps (update folded.elem k v) i * 1 + 0) * _ = _
    rw [mul_one, add_zero]
  rw [hfun] at hplain
  exact hplain

/-- The folded backward answers a weighted gradient: the derivative is that of
the loss of the whole call. -/
theorem hasDerivAt_lossOver {folded foldedGrad : Tensor ℝ}
    (hfdims : folded.dims = [1, blocks, len]) (hvolume : volume [1, blocks, len] = volume dims)
    (helem : folded.elem = s.input.elem) (hdims : foldedGrad.dims = folded.dims)
    (hgrad : ∀ i < volume dims, foldedGrad.elem i = paramAt s.weight 1 (p i) * g.elem i)
    (hsaved : s.saved = (ForwardArgs.plain folded s.eps).batchStats)
    (hpos : ∀ c < blocks,
      0 < varianceOver (channelSet [1, blocks, len] c) s.input.elem + s.eps)
    (b : ℕ → ℝ) {k : ℕ} (hk : k < volume dims) :
    HasDerivAt
      (fun v => s.lossOver dims blocks len p g.elem (update s.input.elem k v)
        (paramAt s.weight 1) b)
      ((s.backwardArgs folded foldedGrad).inputGradAt k) (s.input.elem k) := by
  have hrank : 2 ≤ folded.rank := Tensor.two_le_rank hfdims
  have hnumel : folded.numel = volume dims := by
    unfold Tensor.numel
    rw [hfdims, hvolume]
  have hpos' : ∀ c < folded.channels,
      0 < varianceOver (channelSet folded.dims c) folded.elem + s.eps := by
    unfold Tensor.channels
    rw [hfdims, helem]
    exact hpos
  have hderiv := hasDerivAt_folded hrank hdims hsaved hpos' (hnumel.symm ▸ hk)
  rw [hnumel, hfdims, helem] at hderiv
  refine hasDerivAt_affineSum_elements (hderiv.congr_of_eventuallyEq ?_)
  refine Filter.Eventually.of_forall fun v => sum_congr rfl ?_
  intro i hi
  rw [hgrad i (mem_range.1 hi)]

/-- **The folded backward returns the derivative by every input element.** -/
theorem inputGradient_ok (h : plan.Sound dims blocks len p entry)
    (hs : s.Recorded plan dims blocks len p) (hg : g.dims = dims) (ex : Executor)
    (registry : Registry ℝ ℝ)
    (hpos : ∀ c < blocks,
      0 < varianceOver (channelSet [1, blocks, len] c) s.input.elem + s.eps) :
    ∃ dx, (s.inputGradient ex registry plan g).result = .ok (some dx) ∧ dx.dims = dims
      ∧ ∀ b : ℕ → ℝ, ∀ k < volume dims,
          HasDerivAt
            (fun v => s.lossOver dims blocks len p g.elem (update s.input.elem k v)
              (paramAt s.weight 1) b)
            (dx.elem k) (s.input.elem k) := by
  have hscale : ∀ w, s.weight = some w → w.StretchedBy g.dims p := fun w hw =>
    hg.symm ▸ hs.weight w hw
  have hshift : ∀ b, (none : Option (Tensor ℝ)) = some b → b.StretchedBy g.dims p := by
    rintro b ⟨⟩
  obtain ⟨weighted, hweighted, hwdims, hwelem⟩ := g.affine_ok hscale hshift
  obtain ⟨folded, hfold, hfdims, hflist⟩ := h.fold s.input hs.input
  obtain ⟨foldedGrad, hgfold, hgdims, hglist⟩ := h.fold weighted (hwdims.trans hg)
  have hrank : 2 ≤ folded.rank := Tensor.two_le_rank hfdims
  have hnumel : folded.numel = volume dims := by
    unfold Tensor.numel
    rw [hfdims, h.volume]
  have hdims : foldedGrad.dims = folded.dims := hgdims.trans hfdims.symm
  have hsaved := hs.saved folded hfold
  have hback := nativeBatchNormBackward_ok ex (accepted_backwardArgs hrank hdims hsaved)
  obtain ⟨dx, hunfold, hxdims, hxlist⟩ := h.unfold
    (folded.withContents ((List.range folded.numel).map
      (s.backwardArgs folded foldedGrad).inputGradAt) (by simp))
    (Tensor.dims_withContents.trans hfdims)
  refine ⟨dx, ?_, hxdims, ?_⟩
  · unfold inputGradient
    rw [Logged.result_lift_bind hweighted, Logged.result_lift_bind hfold,
      Logged.result_lift_bind hgfold]
    -- the tag is the native one, so no accelerator answers
    have hreplay : (batchNormBackward ex registry s.backend
        (s.backwardArgs folded foldedGrad)).result
        = .ok ((s.backwardArgs folded foldedGrad).gradients.masked ⟨true, false, false⟩) := by
      rw [hs.backend]
      exact hback
    rw [Logged.result_bind hreplay]
    show (plan.unfold _).map some = .ok (some dx)
    exact congrArg (Except.map some) hunfold
  · intro b k hk
    rw [Tensor.toList_withContents] at hxlist
    rw [Tensor.elem_of_toList_eq_map hxlist (hnumel.symm ▸ hk)]
    refine hasDerivAt_lossOver hfdims h.volume (Tensor.elem_of_toList_eq hflist) hdims ?_ hsaved
      hpos b hk
    intro i hi
    have hi' : i < g.numel := by
      unfold Tensor.numel
      rwa [hg]
    rw [Tensor.elem_of_toList_eq hglist, hwelem i hi', mul_comm]
    exact add_zero _

/-- The weight gradient sums, for each entry, what reaches the places that read
it. -/
theorem weightGradient_ok (h : plan.Sound dims blocks len p entry)
    (hs : s.Recorded plan dims blocks len p) (hg : g.dims = dims) :
    ∃ dw, s.weightGradient plan g = .ok dw ∧ dw.dims = entry
      ∧ ∀ i < volume entry, dw.elem i = ∑ k ∈ range (volume dims) with p k = i,
          normalizedAt [1, blocks, len] s.eps s.input.elem k * g.elem k := by
  have hdims : s.normalized.dims = g.dims := hs.normalized_dims.trans hg.symm
  have hscale : ∀ w, some s.normalized = some w → w.StretchedBy g.dims fun k => k := by
    rintro w ⟨⟩
    exact hdims ▸ s.normalized.stretchedBy_same
  have hshift : ∀ b, (none : Option (Tensor ℝ)) = some b → b.StretchedBy g.dims fun k => k := by
    rintro b ⟨⟩
  -- the incoming gradient times the normalized elements, as a scale without a shift
  obtain ⟨scaled, hscaled, hsdims, hselem⟩ := g.affine_ok hscale hshift
  obtain ⟨dw, hreduce, hwdims, hwelem⟩ := h.reduce scaled (hsdims.trans hg)
  refine ⟨dw, ?_, hwdims, ?_⟩
  · unfold weightGradient
    rw [hscaled]
    exact hreduce
  · intro i hi
    rw [hwelem i hi]
    apply sum_congr rfl
    intro k hk
    have hk : k < volume dims := mem_range.1 (mem_filter.1 hk).1
    have hk' : k < g.numel := by
      unfold Tensor.numel
      rwa [hg]
    rw [hselem k hk', ← hs.normalized k hk, mul_comm (s.normalized.elem k)]
    exact add_zero _

/-- The parameters of a call, as the state keeps them. -/
structure Keeps (s : BlockState ℝ ℝ) (entry : List Nat) (weight bias : Option (Tensor ℝ)) :
    Prop where
  readsWeight : paramAt s.weight 1 = paramAt weight 1
  hasWeight : s.weight.isSome = weight.isSome
  hasBias : s.hasBias = bias.isSome
  weightDims : ∀ w, weight = some w → w.dims = entry
  biasDims : ∀ b, bias = some b → b.dims = entry

/-- The result of the backward call, gradient by gradient. -/
theorem backward_result {ex : Executor} {registry : Registry ℝ ℝ} {dx : Option (Tensor ℝ)}
    {dw db : Option (Tensor ℝ)} (hx : (s.inputGradient ex registry plan g).result = .ok dx)
    (hw : (if s.weight.isSome then (s.weightGradient plan g).map some else .ok none) = .ok dw)
    (hb : (if s.hasBias then (plan.reduce g).map some else .ok none) = .ok db) :
    (s.backward ex registry plan g .all).result = .ok ⟨dx, dw, db⟩ := by
  unfold backward
  dsimp only
  -- a gradient is computed exactly for the parameters that were kept
  simp only [Logged.ite_bind_eq_ok]
  exact ⟨dx, hx, dw, hw, db, hb, rfl⟩

/-- **The backward of a recorded block normalization returns the gradients of
its loss.** -/
theorem backward_gradients (h : plan.Sound dims blocks len p entry)
    (hs : s.Recorded plan dims blocks len p) (hg : g.dims = dims) (ex : Executor)
    (registry : Registry ℝ ℝ)
    (hpos : ∀ c < blocks,
      0 < varianceOver (channelSet [1, blocks, len] c) s.input.elem + s.eps)
    {weight bias : Option (Tensor ℝ)} (hkeeps : s.Keeps entry weight bias)
    {loss : Tensor ℝ → Option (Tensor ℝ) → Option (Tensor ℝ) → Except TensorError ℝ}
    (hloss : ∀ x w b, x.dims = dims → (∀ t, w = some t → t.dims = entry) →
      (∀ t, b = some t → t.dims = entry) →
      loss x w b = .ok (s.lossOver dims blocks len p g.elem x.elem (paramAt w 1)
        (paramAt b 0))) :
    ∃ grads, (s.backward ex registry plan g .all).result = .ok grads
      ∧ GradientsOf loss s.input weight bias grads := by
  obtain ⟨dx, hdx, hxdims, hxderiv⟩ := inputGradient_ok h hs hg ex registry hpos
  obtain ⟨dw, hdw, hwdims, hwelem⟩ := weightGradient_ok h hs hg
  obtain ⟨db, hdb, hbdims, hbelem⟩ := h.reduce g hg
  have hw : (if s.weight.isSome then (s.weightGradient plan g).map some else .ok none)
      = .ok (weight.map fun _ => dw) := by
    rw [hkeeps.hasWeight, hdw]
    cases weight <;> rfl
  have hb : (if s.hasBias then (plan.reduce g).map some else .ok none)
      = .ok (bias.map fun _ => db) := by
    rw [hkeeps.hasBias, hdb]
    cases bias <;> rfl
  refine ⟨_, backward_result hdx hw hb, ?_, ?_, ?_⟩
  · refine ⟨dx, rfl, hxdims.trans hs.input.symm, ?_⟩
    refine isGradient_of (fun e => s.lossOver dims blocks len p g.elem e (paramAt weight 1)
      (paramAt bias 0)) (congrArg volume (hxdims.trans hs.input.symm)) ?_ ?_
    · intro x hx
      exact hloss x weight bias (hx.trans hs.input) hkeeps.weightDims hkeeps.biasDims
    · intro k hk
      rw [← hkeeps.readsWeight]
      refine hxderiv _ k ?_
      rwa [Tensor.numel, hs.input] at hk
  · refine paramGradient_of (fun e => s.lossOver dims blocks len p g.elem s.input.elem e
      (paramAt bias 0)) hwdims hkeeps.weightDims ?_ ?_
    · intro y hy
      refine hloss s.input (some y) bias hs.input ?_ hkeeps.biasDims
      rintro t ⟨⟩
      exact hy
    · intro e i hi
      rw [hwelem i hi]
      exact hasDerivAt_affineSum_weight i _
  · refine paramGradient_of (fun e => s.lossOver dims blocks len p g.elem s.input.elem
      (paramAt weight 1) e) hbdims hkeeps.biasDims ?_ ?_
    · intro y hy
      refine hloss s.input weight (some y) hs.input hkeeps.weightDims ?_
      rintro t ⟨⟩
      exact hy
    · intro e i hi
      rw [hbelem i hi]
      exact hasDerivAt_affineSum_bias i _

end

end BlockState

/-! ## §5. A recorded call, forward and backward. -/

/-- The affine part is pointwise; an absent parameter has none. -/
theorem applyAffine_pointwise {α A : Type} [OrderedArith A] [Element α A] (t : Tensor α)
    {weight bias : Option (Tensor α)} {p : ℕ → ℕ}
    (hweight : ∀ w, weight = some w → w.StretchedBy t.dims p)
    (hbias : ∀ b, bias = some b → b.StretchedBy t.dims p) :
    ∃ r, applyAffine t weight bias = .ok r ∧ r.dims = t.dims
      ∧ ∀ k < t.numel, r.elem k = affineAt weight bias (p k) (t.elem k) := by
  have haffine := t.affine_pointwise hweight hbias
  cases weight with
  | some w => exact haffine
  | none =>
      cases bias with
      | some b => exact haffine
      | none => exact ⟨t, rfl, rfl, fun _ _ => rfl⟩

theorem applyAffine_ok (t : Tensor ℝ) {weight bias : Option (Tensor ℝ)} {p : ℕ → ℕ}
    (hweight : ∀ w, weight = some w → w.StretchedBy t.dims p)
    (hbias : ∀ b, bias = some b → b.StretchedBy t.dims p) :
    ∃ r, applyAffine t weight bias = .ok r ∧ r.dims = t.dims
      ∧ ∀ k < t.numel, r.elem k = t.elem k * paramAt weight 1 (p k) + paramAt bias 0 (p k) := by
  obtain ⟨r, hr, hdims, helem⟩ := applyAffine_pointwise t hweight hbias
  exact ⟨r, hr, hdims, fun k hk => (helem k hk).trans (affineAt_real weight bias (p k) _)⟩

/-- What a forward call through a plan returns and records. -/
structure BlockForward (plan : BlockPlan ℝ) (dims : List Nat) (blocks len : Nat) (p : ℕ → ℕ)
    (entry : List Nat) (eps : ℝ) (input : Tensor ℝ) (weight bias : Option (Tensor ℝ))
    (output : Tensor ℝ) (s : BlockState ℝ ℝ) : Prop where
  keepsInput : s.input = input
  keepsEps : s.eps = eps
  recorded : s.Recorded plan dims blocks len p
  keeps : s.Keeps entry weight bias
  outputDims : output.dims = dims
  elem : ∀ k < volume dims, output.elem k
    = normalizedAt [1, blocks, len] eps input.elem k * paramAt weight 1 (p k)
      + paramAt bias 0 (p k)

/-- **The backward of a forward call through a plan returns the gradients of the
loss of that call.** -/
theorem BlockForward.gradients {plan : BlockPlan ℝ} {dims entry : List Nat} {blocks len : Nat}
    {p : ℕ → ℕ} {eps : ℝ} {input output g : Tensor ℝ} {weight bias : Option (Tensor ℝ)}
    {s : BlockState ℝ ℝ} (h : plan.Sound dims blocks len p entry)
    (hf : BlockForward plan dims blocks len p entry eps input weight bias output s)
    (hg : g.dims = dims) (ex : Executor) (registry : Registry ℝ ℝ)
    (hpos : ∀ c < blocks, 0 < varianceOver (channelSet [1, blocks, len] c) input.elem + eps)
    {loss : Tensor ℝ → Option (Tensor ℝ) → Option (Tensor ℝ) → Except TensorError ℝ}
    (hloss : ∀ x w b, x.dims = dims → (∀ t, w = some t → t.dims = entry) →
      (∀ t, b = some t → t.dims = entry) →
      ∃ output s, loss x w b = weightedSumLoss output g
        ∧ BlockForward plan dims blocks len p entry eps x w b output s) :
    ∃ grads, (s.backward ex registry plan g .all).result = .ok grads
      ∧ GradientsOf loss input weight bias grads := by
  have hinput := hf.keepsInput
  have heps := hf.keepsEps
  subst hinput
  subst heps
  refine BlockState.backward_gradients h hf.recorded hg ex registry hpos hf.keeps ?_
  intro x w b hx hw hb
  -- every input and parameter of these shapes has a forward of the same form
  obtain ⟨y, _, hy, hforward⟩ := hloss x w b hx hw hb
  have hnumel : y.numel = volume dims := congrArg volume hforward.outputDims
  rw [hy, weightedSumLoss_eq (hforward.outputDims.trans hg.symm), hnumel]
  congr 1
  apply sum_congr rfl
  intro k hk
  rw [hforward.elem k (mem_range.1 hk)]

/-! ## §6. Blocks of the contents. -/

/-- Block `b` of the contents, `len` elements from place `b * len` on. -/
def Tensor.block {α : Type} (t : Tensor α) (len b : Nat) : List α :=
  (t.toList.drop (b * len)).take len

theorem Tensor.block_eq_map {α : Type} [Zero α] {t : Tensor α} {blocks len b : Nat}
    (hvolume : volume [1, blocks, len] = t.numel) (hb : b < blocks) :
    t.block len b = (List.range len).map fun s => t.elem (b * len + s) := by
  have hend : b * len + len ≤ t.numel := by
    rw [← hvolume]
    show b * len + len ≤ 1 * (blocks * (len * 1))
    rw [Nat.one_mul, Nat.mul_one, ← Nat.succ_mul]
    exact Nat.mul_le_mul_right len hb
  unfold block
  apply List.ext_getElem?
  intro s
  rcases Nat.lt_or_ge s len with hs | hs
  · rw [List.getElem?_take_of_lt hs, List.getElem?_drop, List.getElem?_map,
      List.getElem?_range hs, t.getElem?_toList_eq_elem (by omega)]
    rfl
  · rw [List.getElem?_eq_none (by rw [List.length_take]; omega),
      List.getElem?_eq_none (by simpa using hs)]

/-- Block `b` is what channel `b` of the folded contents holds, so its variance
is that over the channel. -/
theorem biasedVariance_block {t : Tensor ℝ} {blocks len b : Nat}
    (hvolume : volume [1, blocks, len] = t.numel) (hb : b < blocks) :
    biasedVariance (t.block len b)
      = varianceOver (channelSet [1, blocks, len] b) t.elem := by
  have hplaces : t.block len b = (channelPlaces .rows [1, blocks, len] b).map t.elem := by
    rw [Tensor.block_eq_map hvolume hb, channelPlaces_one_cons, volume_singleton, List.map_map]
    rfl
  rw [hplaces]
  exact biasedVariance_channelPlaces (show 2 ≤ [1, blocks, len].length from Nat.le_succ 2) hb t.elem

end ChannelNorm

/-
  ChannelNorm.Proofs.Replay.Shapes
  ────────────────────────────────
  **WHICH GRADIENTS A BLOCK NORMALIZATION TAKES BACK.**

  The backward of a layer or group normalization is a chain of reshapes,
  stretched products and reductions, each of which may refuse.  What a plan does
  to shapes is `BlockPlan.Fits`, what a forward call leaves is
  `BlockState.Replayable`, and what is left to the incoming gradient is
  `Tensor.AdmittedFor`:

      it has as many elements as the input
      the weight stretches to it, for the input gradient
      the input's shape stretches to it, for the weight gradient
      the plan can reduce, for either parameter gradient

  The backward succeeds exactly for the gradients it admits, and every gradient
  it returns has the shape of what it is a gradient for.
-/
import ChannelNorm.Proofs.BatchNorm.Answer
import ChannelNorm.Proofs.Replay.Block
import ChannelNorm.Proofs.Tensor.Fitting

namespace ChannelNorm

variable {α A : Type}

/-! ## §1. Gradients that are asked for. -/

/-- A gradient that is computed where it is asked for: whether there is one. -/
theorem exists_when_iff {asked : Bool} {x : Except TensorError (Tensor α)} :
    (∃ o, (if asked then x.map some else .ok none) = .ok o)
      ↔ (asked = true → ∃ t, x = .ok t) := by
  cases asked with
  | false => exact iff_of_true ⟨none, rfl⟩ nofun
  | true =>
      rw [if_pos rfl]
      cases x with
      | error e => exact iff_of_false (fun ⟨_, h⟩ => nomatch h) fun h => nomatch h rfl
      | ok t => exact iff_of_true ⟨some t, rfl⟩ fun _ => ⟨t, rfl⟩

/-- And of which shape it is. -/
theorem map_dims_of_when {asked : Bool} {x : Except TensorError (Tensor α)}
    {o : Option (Tensor α)} {dims : List Nat}
    (h : (if asked then x.map some else .ok none) = .ok o)
    (hdims : asked = true → ∀ t, x = .ok t → t.dims = dims) :
    o.map Tensor.dims = if asked then some dims else none := by
  cases asked with
  | false =>
      cases h
      rfl
  | true =>
      rw [if_pos rfl] at h ⊢
      cases hx : x with
      | error e =>
          rw [hx] at h
          cases h
      | ok t =>
          rw [hx] at h
          cases h
          exact congrArg some (hdims rfl t hx)

/-! ## §2. Plans by shapes. -/

/-- What a plan does to shapes: it folds whatever has as many elements as `dims`
to `folded`, keeps the number of elements, and unfolds to `dims`; where `sums`
holds it reduces to `param`, elsewhere it cannot reduce at all. -/
structure BlockPlan.Fits (plan : BlockPlan α) (dims folded param : List Nat) (sums : Prop) :
    Prop where
  rank : 2 ≤ folded.length
  fold : ∀ t : Tensor α, t.numel = volume dims → ∃ r, plan.fold t = .ok r ∧ r.dims = folded
  keeps : ∀ t r : Tensor α, plan.fold t = .ok r → r.numel = t.numel
  unfold : ∀ t : Tensor α, t.dims = folded → ∃ r, plan.unfold t = .ok r ∧ r.dims = dims
  reduce : sums → ∀ t : Tensor α, t.numel = volume dims →
    ∃ r, plan.reduce t = .ok r ∧ r.dims = param
  stuck : ¬ sums → ∀ t : Tensor α, ∃ e, plan.reduce t = .error e

namespace BlockPlan.Fits

variable {plan : BlockPlan α} {dims folded param : List Nat} {sums : Prop}
  (h : plan.Fits dims folded param sums)
include h

/-- Folding gives the folded shape to nothing but what fits. -/
theorem numel_of_fold {t r : Tensor α} (hfold : plan.fold t = .ok r) (hdims : r.dims = folded)
    {x : Tensor α} (hx : x.dims = dims) : t.numel = volume dims := by
  obtain ⟨y, hy, hydims⟩ := h.fold x (congrArg volume hx)
  have hcount : y.numel = r.numel := congrArg volume (hydims.trans hdims.symm)
  rw [← h.keeps t r hfold, ← hcount, h.keeps x y hy]
  exact congrArg volume hx

theorem exists_reduce_iff {t : Tensor α} (ht : t.numel = volume dims) :
    (∃ r, plan.reduce t = .ok r) ↔ sums := by
  by_cases hsums : sums
  · obtain ⟨r, hr, _⟩ := h.reduce hsums t ht
    exact iff_of_true ⟨r, hr⟩ hsums
  · obtain ⟨e, he⟩ := h.stuck hsums t
    refine iff_of_false (fun ⟨r, hr⟩ => ?_) hsums
    rw [he] at hr
    cases hr

theorem dims_reduce {t r : Tensor α} (ht : t.numel = volume dims)
    (hr : plan.reduce t = .ok r) : r.dims = param := by
  obtain ⟨r', hr', hdims⟩ := h.reduce ((h.exists_reduce_iff ht).1 ⟨r, hr⟩) t ht
  obtain rfl : r' = r := Except.ok.inj (hr'.symm.trans hr)
  exact hdims

end BlockPlan.Fits

/-! ## §3. Recorded states by shapes. -/

/-- The gradients asked for of a call with these parameters: a parameter that was
absent has none. -/
def GradMask.present (mask : GradMask) (weight bias : Bool) : GradMask where
  input := mask.input
  weight := mask.weight && weight
  bias := mask.bias && bias

/-- A parameter gradient is asked for. -/
def GradMask.params (mask : GradMask) : Bool :=
  mask.weight || mask.bias

/-- What a native forward call through a plan leaves, by shapes. -/
structure BlockState.Replayable (s : BlockState α A) (dims folded : List Nat) : Prop where
  input : s.input.dims = dims
  normalized : s.normalized.dims = dims
  mean : Supplied (folded.getD 1 0) s.saved.mean
  var : Supplied (folded.getD 1 0) s.saved.var
  backend : s.backend = .native
  /-- The weight was stretched to the input. -/
  weight : ∀ w, s.weight = some w → Broadcastable w.dims dims

/-- The gradients its backward returns. -/
def BlockState.asked (s : BlockState α A) (mask : GradMask) : GradMask :=
  mask.present s.weight.isSome s.hasBias

/-- An incoming gradient is admitted for the gradients asked for, where the input
has dimensions `dims`, is scaled by `scale`, and is summed to a parameter where
`sums` holds. -/
structure Tensor.AdmittedFor (g : Tensor α) (asked : GradMask) (scale : Option (Tensor α))
    (dims : List Nat) (sums : Prop) : Prop where
  numel : g.numel = volume dims
  scale : asked.input = true → ∀ w, scale = some w → Broadcastable w.dims g.dims
  normalized : asked.weight = true → Broadcastable dims g.dims
  sums : asked.params = true → sums

namespace BlockState

variable {plan : BlockPlan α} {dims folded param : List Nat} {sums : Prop}
  {s : BlockState α A} {g : Tensor α} {mask : GradMask}

/-- A gradient of the input's shape is admitted wherever the plan can reduce. -/
theorem Replayable.admits (hs : s.Replayable dims folded) (hg : g.dims = dims)
    (hsums : (s.asked mask).params = true → sums) :
    g.AdmittedFor (s.asked mask) s.weight dims sums := by
  refine ⟨congrArg volume hg, fun _ w hw => ?_, fun _ => ?_, hsums⟩
  · rw [hg]
    exact hs.weight w hw
  · rw [hg]
    exact broadcastable_refl dims

/-- The folded backward call awaits a gradient. -/
theorem Replayable.awaits (hs : s.Replayable dims folded) (hrank : 2 ≤ folded.length)
    {foldedInput : Tensor α} (hdims : foldedInput.dims = folded) (foldedGrad : Tensor α) :
    (s.backwardArgs foldedInput foldedGrad).Awaits := by
  subst hdims
  exact ⟨hrank, nofun, hs.mean, hs.var⟩

variable [OrderedArith A] [Element α A]

/-! ## §4. One gradient. -/

theorem weightGradient_eq_ok_iff {dw : Tensor α} :
    s.weightGradient plan g = .ok dw
      ↔ ∃ scaled, g.affine (some s.normalized) none = .ok scaled
        ∧ plan.reduce scaled = .ok dw := by
  unfold weightGradient
  cases g.affine (some s.normalized) none with
  | error e => exact iff_of_false nofun fun ⟨_, h, _⟩ => nomatch h
  | ok scaled => exact ⟨fun h => ⟨scaled, rfl, h⟩, fun ⟨_, hs, h⟩ => Except.ok.inj hs ▸ h⟩

section
variable (h : plan.Fits dims folded param sums) (hs : s.Replayable dims folded)
  (ex : Executor) (registry : Registry α A)
include h hs

/-- What fits and is stretched to has an input gradient. -/
theorem exists_inputGradient (hnumel : g.numel = volume dims)
    (hweight : ∀ w, s.weight = some w → Broadcastable w.dims g.dims) :
    ∃ dx, (s.inputGradient ex registry plan g).result = .ok (some dx) ∧ dx.dims = dims := by
  obtain ⟨weighted, hweighted⟩ := Tensor.exists_affine_iff.2
    ⟨hweight, fun b (hb : (none : Option (Tensor α)) = some b) => nomatch hb⟩
  have hwnumel : weighted.numel = volume dims :=
    (congrArg volume (Tensor.dims_affine hweighted)).trans hnumel
  obtain ⟨foldedInput, hfold, hfdims⟩ := h.fold s.input (congrArg volume hs.input)
  obtain ⟨foldedGrad, hgfold, hgdims⟩ := h.fold weighted hwnumel
  obtain ⟨grads, hgrads, hshapes⟩ := (hs.awaits h.rank hfdims foldedGrad).answered
    (hgdims.trans hfdims.symm) ex
  -- only the input gradient of the folded call is asked for
  obtain ⟨x, hx, hxdims⟩ := Option.map_eq_some_iff.1 hshapes.input
  obtain ⟨dx, hunfold, hdx⟩ := h.unfold x (hxdims.trans hfdims)
  refine ⟨dx, ?_, hdx⟩
  have hreplay : (batchNormBackward ex registry s.backend
      (s.backwardArgs foldedInput foldedGrad)).result = .ok grads := by
    rw [hs.backend]
    exact hgrads
  unfold inputGradient
  rw [Logged.result_lift_bind hweighted, Logged.result_lift_bind hfold,
    Logged.result_lift_bind hgfold, Logged.result_bind hreplay, hx]
  show (plan.unfold x).map some = .ok (some dx)
  rw [hunfold]
  rfl

/-- An input gradient is returned for nothing else. -/
theorem of_inputGradient {o : Option (Tensor α)}
    (hok : (s.inputGradient ex registry plan g).result = .ok o) :
    g.numel = volume dims ∧ ∀ w, s.weight = some w → Broadcastable w.dims g.dims := by
  unfold inputGradient at hok
  obtain ⟨weighted, hweighted, hok⟩ := Logged.lift_bind_eq_ok.1 hok
  obtain ⟨foldedInput, hfold, hok⟩ := Logged.lift_bind_eq_ok.1 hok
  obtain ⟨foldedGrad, hgfold, hok⟩ := Logged.lift_bind_eq_ok.1 hok
  obtain ⟨grads, hgrads, _⟩ := Logged.bind_eq_ok.1 hok
  obtain ⟨r, hr, hrdims⟩ := h.fold s.input (congrArg volume hs.input)
  obtain rfl : r = foldedInput := Except.ok.inj (hr.symm.trans hfold)
  have hawaits := hs.awaits h.rank hrdims foldedGrad
  -- the folded call checks the folded shapes, and folding keeps the count
  have hdims : foldedGrad.dims = r.dims := by
    by_contra hne
    rw [hs.backend] at hgrads
    have hrefused := nativeBatchNormBackward_refused hawaits.rank hne ex
    rw [show nativeBatchNormBackward ex _ = .ok grads from hgrads] at hrefused
    cases hrefused
  have hnumel : weighted.numel = volume dims :=
    h.numel_of_fold hgfold (hdims.trans hrdims) hs.input
  refine ⟨?_, (Tensor.exists_affine_iff.1 ⟨weighted, hweighted⟩).1⟩
  rw [← hnumel]
  exact congrArg volume (Tensor.dims_affine hweighted).symm

omit ex registry in
/-- The weight gradient is there when the normalized input is stretched to the
incoming gradient and the plan can reduce. -/
theorem exists_weightGradient_iff (hnumel : g.numel = volume dims) :
    (∃ dw, s.weightGradient plan g = .ok dw) ↔ Broadcastable dims g.dims ∧ sums := by
  have hscale : (∃ scaled, g.affine (some s.normalized) none = .ok scaled)
      ↔ Broadcastable dims g.dims := by
    rw [Tensor.exists_affine_iff, ← hs.normalized]
    exact ⟨fun hok => hok.1 _ rfl,
      fun hstretch => ⟨fun t ht => Option.some.inj ht ▸ hstretch, nofun⟩⟩
  rw [← hscale]
  constructor
  · intro hok
    obtain ⟨dw, hdw⟩ := hok
    obtain ⟨scaled, hscaled, hreduce⟩ := weightGradient_eq_ok_iff.1 hdw
    have hcount : scaled.numel = volume dims :=
      (congrArg volume (Tensor.dims_affine hscaled)).trans hnumel
    exact ⟨⟨scaled, hscaled⟩, (h.exists_reduce_iff hcount).1 ⟨dw, hreduce⟩⟩
  · intro hok
    obtain ⟨⟨scaled, hscaled⟩, hsums⟩ := hok
    have hcount : scaled.numel = volume dims :=
      (congrArg volume (Tensor.dims_affine hscaled)).trans hnumel
    obtain ⟨dw, hreduce⟩ := (h.exists_reduce_iff hcount).2 hsums
    exact ⟨dw, weightGradient_eq_ok_iff.2 ⟨scaled, hscaled, hreduce⟩⟩

omit hs ex registry in
theorem dims_weightGradient (hnumel : g.numel = volume dims) {dw : Tensor α}
    (hok : s.weightGradient plan g = .ok dw) : dw.dims = param := by
  obtain ⟨scaled, hscaled, hreduce⟩ := weightGradient_eq_ok_iff.1 hok
  exact h.dims_reduce ((congrArg volume (Tensor.dims_affine hscaled)).trans hnumel) hreduce

end

/-! ## §5. The backward. -/

/-- The backward succeeds when each of its gradients does. -/
theorem backward_eq_ok_iff {ex : Executor} {registry : Registry α A} {grads : Gradients α} :
    (s.backward ex registry plan g mask).result = .ok grads
      ↔ (if mask.input then (s.inputGradient ex registry plan g).result else .ok none)
            = .ok grads.input
        ∧ (if (s.asked mask).weight then (s.weightGradient plan g).map some else .ok none)
            = .ok grads.weight
        ∧ (if (s.asked mask).bias then (plan.reduce g).map some else .ok none)
            = .ok grads.bias := by
  unfold backward
  -- every step of the call goes on in both branches of the one before
  dsimp only
  simp only [Logged.ite_bind_eq_ok]
  constructor
  · intro hok
    obtain ⟨input, hinput, weight, hweight, bias, hbias, hgrads⟩ := hok
    cases hgrads
    exact ⟨hinput, hweight, hbias⟩
  · intro hok
    exact ⟨grads.input, hok.1, grads.weight, hok.2.1, grads.bias, hok.2.2, rfl⟩

section
variable (h : plan.Fits dims folded param sums) (hs : s.Replayable dims folded)
  (ex : Executor) (registry : Registry α A)
include h hs

/-- **The backward succeeds exactly for the gradients it admits**, where the
input gradient is asked for or the gradient has as many elements as the input. -/
theorem exists_backward_iff (hfits : mask.input = true ∨ g.numel = volume dims) :
    (∃ grads, (s.backward ex registry plan g mask).result = .ok grads)
      ↔ g.AdmittedFor (s.asked mask) s.weight dims sums := by
  constructor
  · intro hok
    obtain ⟨grads, hgrads⟩ := hok
    obtain ⟨hinput, hweight, hbias⟩ := backward_eq_ok_iff.1 hgrads
    have hadmitted : mask.input = true → g.numel = volume dims
        ∧ ∀ w, s.weight = some w → Broadcastable w.dims g.dims := by
      intro hasked
      rw [if_pos hasked] at hinput
      exact of_inputGradient h hs ex registry hinput
    have hnumel : g.numel = volume dims := hfits.elim (fun hasked => (hadmitted hasked).1) id
    have hnormalized : (s.asked mask).weight = true → Broadcastable dims g.dims ∧ sums :=
      fun hasked => (exists_weightGradient_iff h hs hnumel).1
        (exists_when_iff.1 ⟨_, hweight⟩ hasked)
    have hreduced : (s.asked mask).bias = true → sums :=
      fun hasked => (h.exists_reduce_iff hnumel).1 (exists_when_iff.1 ⟨_, hbias⟩ hasked)
    refine ⟨hnumel, fun hasked => (hadmitted hasked).2, fun hasked => (hnormalized hasked).1,
      fun hasked => ?_⟩
    cases Bool.or_eq_true_iff.1 hasked with
    | inl hw => exact (hnormalized hw).2
    | inr hb => exact hreduced hb
  · intro hadmits
    have hinput : ∃ o, (if mask.input then (s.inputGradient ex registry plan g).result
        else .ok none) = .ok o := by
      by_cases hasked : mask.input = true
      · rw [if_pos hasked]
        obtain ⟨dx, hdx, _⟩ :=
          exists_inputGradient h hs ex registry hadmits.numel (hadmits.scale hasked)
        exact ⟨_, hdx⟩
      · exact ⟨none, if_neg hasked⟩
    have hweight : ∃ o, (if (s.asked mask).weight then (s.weightGradient plan g).map some
        else .ok none) = .ok o :=
      exists_when_iff.2 fun hasked => (exists_weightGradient_iff h hs hadmits.numel).2
        ⟨hadmits.normalized hasked, hadmits.sums (Bool.or_eq_true_iff.2 (.inl hasked))⟩
    have hbias : ∃ o, (if (s.asked mask).bias then (plan.reduce g).map some
        else .ok none) = .ok o :=
      exists_when_iff.2 fun hasked => (h.exists_reduce_iff hadmits.numel).2
        (hadmits.sums (Bool.or_eq_true_iff.2 (.inr hasked)))
    obtain ⟨input, hinput⟩ := hinput
    obtain ⟨weight, hweight⟩ := hweight
    obtain ⟨bias, hbias⟩ := hbias
    exact ⟨⟨input, weight, bias⟩, backward_eq_ok_iff.2 ⟨hinput, hweight, hbias⟩⟩

/-- **What it returns has the shapes of input and parameters.** -/
theorem hasShapes_backward (hnumel : g.numel = volume dims) {grads : Gradients α}
    (hok : (s.backward ex registry plan g mask).result = .ok grads) :
    grads.HasShapes (s.asked mask) dims param := by
  obtain ⟨hinput, hweight, hbias⟩ := backward_eq_ok_iff.1 hok
  refine ⟨?_, map_dims_of_when hweight fun _ _ => dims_weightGradient h hnumel,
    map_dims_of_when hbias fun _ _ => h.dims_reduce hnumel⟩
  show grads.input.map Tensor.dims = if mask.input = true then some dims else none
  by_cases hasked : mask.input = true
  · rw [if_pos hasked] at hinput ⊢
    obtain ⟨_, hweights⟩ := of_inputGradient h hs ex registry hinput
    obtain ⟨dx, hdx, hdims⟩ := exists_inputGradient h hs ex registry hnumel hweights
    rw [Except.ok.inj (hinput.symm.trans hdx)]
    exact congrArg some hdims
  · rw [if_neg hasked] at hinput ⊢
    rw [← Except.ok.inj hinput]
    rfl

end

end BlockState

end ChannelNorm

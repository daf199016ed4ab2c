/-
  ChannelNorm.Proofs.Derived.Completeness
  ───────────────────────────────────────
  **WHAT PASSES THE ENTRY CHECKS OF A DERIVED VARIANT IS ANSWERED.**

  After its entry checks a derived variant still reshapes, infers a dimension,
  goes through a signed word, stretches parameters and averages statistics, and
  each of these steps may refuse.  On the native implementation none does, on
  empty inputs neither, with one exception:

      layer      every accepted call returns
      instance   every accepted call returns
      group      a call that has a plan returns exactly if N * G, read as a signed
                 word, is positive

  for group normalization leaves the length of a block open, and there is nothing
  to infer it from without blocks.  For an input with channels this leaves out
  the empty batch and nothing else.  What is returned has the input's shape and
  device.
-/
import Mathlib
import ChannelNorm.Proofs.InstanceNorm.Failure
import ChannelNorm.Proofs.Replay.Recorded

namespace ChannelNorm

variable {α A : Type}

/-- Of the shape of another tensor, and on its device. -/
structure Tensor.ShapedLike (r t : Tensor α) : Prop where
  dims : r.dims = t.dims
  device : r.device = t.device

theorem Tensor.ShapedLike.trans {r s t : Tensor α} (h : r.ShapedLike s) (h' : s.ShapedLike t) :
    r.ShapedLike t :=
  ⟨h.dims.trans h'.dims, h.device.trans h'.device⟩

/-! ## §1. Calls through a plan that fits. -/

/-- Folding and unfolding stay on the device. -/
structure BlockPlan.KeepsDevice (plan : BlockPlan α) : Prop where
  fold : ∀ t r : Tensor α, plan.fold t = .ok r → r.device = t.device
  unfold : ∀ t r : Tensor α, plan.unfold t = .ok r → r.device = t.device

section
variable [OrderedArith A] [Element α A] {ex : Executor} {registry : Registry α A} {enabled : Bool}
  {input : Tensor α} {weight bias : Option (Tensor α)} {eps : A}

/-- An accepted native call returns a result of the input's shape and device. -/
theorem Implementation.Ran.shapedLike {args : ForwardArgs α A} {running : ChannelStats α}
    {call : Run α A (Forward α)} (h : args.Accepted running)
    (hran : Implementation.native.Ran ex args running call) :
    ∃ f, call.result = .ok f ∧ f.output.ShapedLike args.input := by
  obtain ⟨_, _, f, hnative, hf⟩ := hran
  refine ⟨f, hf, ?_⟩
  rcases nativeBatchNorm_outcome ex args running with
    ⟨_, _, hnot, _⟩ | ⟨_, g, hg, hdims, hdevice, _⟩
  · exact absurd h hnot
  · obtain rfl : g = f := Except.ok.inj (hg.symm.trans hnative)
    exact ⟨hdims, hdevice⟩

/-- Parameters that stretch can be applied. -/
theorem exists_applyAffine {t : Tensor α}
    (hweight : ∀ w, weight = some w → Broadcastable w.dims t.dims)
    (hbias : ∀ b, bias = some b → Broadcastable b.dims t.dims) :
    ∃ r, applyAffine t weight bias = .ok r ∧ r.ShapedLike t := by
  unfold applyAffine
  split
  · exact ⟨t, rfl, rfl, rfl⟩
  · obtain ⟨r, hr⟩ := Tensor.exists_affine_iff.2 ⟨hweight, hbias⟩
    exact ⟨r, hr, Tensor.dims_affine hr, Tensor.device_affine hr⟩

/-- **A plan that fits is gone through**, with parameters that stretch to the
input. -/
theorem BlockPlan.Fits.exists_through {plan : BlockPlan α} {folded param : List Nat}
    {sums : Prop} (h : plan.Fits input.dims folded param sums) (hkeeps : plan.KeepsDevice)
    (hweight : ∀ w, weight = some w → Broadcastable w.dims input.dims)
    (hbias : ∀ b, bias = some b → Broadcastable b.dims input.dims) :
    ∃ f : NormalizedForward α, f.Through ex registry enabled plan input weight bias eps
      ∧ f.output.ShapedLike input := by
  obtain ⟨x, hfold, hxdims⟩ := h.fold input rfl
  have hrank : 2 ≤ x.rank := by
    unfold Tensor.rank
    rw [hxdims]
    exact h.rank
  have haccepted := accepted_plain eps hrank
  obtain ⟨f, hf, hshaped⟩ :=
    (native_ran_of_no_weight ex registry enabled _ _ haccepted rfl).shapedLike haccepted
  obtain ⟨normalized, hunfold, hndims⟩ := h.unfold f.output (hshaped.dims.trans hxdims)
  have hndevice : normalized.device = input.device :=
    (hkeeps.unfold _ _ hunfold).trans (hshaped.device.trans (hkeeps.fold _ _ hfold))
  rw [← hndims] at hweight hbias
  obtain ⟨output, haffine, houtput⟩ := exists_applyAffine hweight hbias
  exact ⟨⟨output, normalized, f.saved, f.backend⟩,
    ⟨x, f, hfold, hf, hunfold, haffine, rfl, rfl⟩, houtput.trans ⟨hndims, hndevice⟩⟩

end

/-! ## §2. Rows. -/

section
variable [OrderedArith A] [Element α A] (ex : Executor) (registry : Registry α A) (enabled : Bool)
  {input : Tensor α} {row : List Nat} {weight bias : Option (Tensor α)} (eps : A)

/-- **Layer normalization returns whatever it has a plan for.** -/
theorem layerNormForward_complete {plan : LayerNormPlan}
    (hplan : LayerNormPlan.ofInput input row weight bias = .ok plan) :
    ∃ f, (layerNormForward ex registry enabled input row weight bias eps).result = .ok f
      ∧ f.output.ShapedLike input := by
  obtain ⟨_, hweight, hbias, leading, hdims, rfl⟩ := LayerNormPlan.ofInput_eq_ok.1 hplan
  have hfits := LayerNormPlan.fits (α := α) (hdims ▸ input.addressable)
  have hkeeps : (LayerNormPlan.toBlocks ⟨leading, row⟩ : BlockPlan α).KeepsDevice :=
    ⟨fun _ _ h => Tensor.device_reshape h, fun _ _ h => Tensor.device_reshape h⟩
  rw [← hdims] at hfits
  have hstretch : ∀ {param : Option (Tensor α)}, (∀ t, param = some t → t.dims = row) →
      ∀ t, param = some t → Broadcastable t.dims input.dims := by
    intro param hparam t ht
    rw [hdims]
    exact (stretchedBy_row leading hparam t ht).broadcastable
  obtain ⟨f, hthrough, hshaped⟩ := hfits.exists_through hkeeps (hstretch hweight) (hstretch hbias)
  exact ⟨f, layerNormForward_eq_ok.2 ⟨_, hplan, hthrough⟩, hshaped⟩

end

/-! ## §3. Groups of channels. -/

/-- There is a block: the number of samples times that of groups, read as a signed
word, is positive. -/
def GroupNormPlan.HasBlocks (p : GroupNormPlan) : Prop :=
  0 < signedWord (p.batch * p.numGroups)

/-- A signed word is no larger than the largest extent. -/
theorem signedWord_le (n : Nat) : signedWord n ≤ maxExtent := by
  have hlt : signedWord n < ((UInt64.size : Nat) + 1) / 2 := by
    unfold signedWord
    exact Int.bmod_lt (by decide)
  have hhalf : ((UInt64.size : Nat) + 1 : Int) / 2 = (maxExtent : Int) + 1 := by decide
  omega

section
variable {N C G : Nat} {spatial : List Nat}

/-- An input with channels has blocks if there is a sample. -/
theorem GroupNormPlan.hasBlocks_iff (h : Addressable (N :: C :: spatial)) (hC : 1 ≤ C)
    (hG : G ∣ C) : HasBlocks ⟨N, C, spatial, G⟩ ↔ 0 < N := by
  have hpos : 0 < G := Nat.pos_of_dvd_of_pos hG hC
  have hword : N * G ≤ maxExtent := by
    rcases Nat.eq_zero_or_pos N with rfl | hN
    · rw [Nat.zero_mul]
      exact Nat.zero_le _
    · exact Nat.le_trans (Nat.mul_le_mul_left _ (Nat.le_of_dvd hC hG)) (mul_le_maxExtent h hN hC)
  unfold HasBlocks
  rw [signedWord_eq hword, Int.natCast_pos]
  exact ⟨fun h => Nat.pos_of_mul_pos_right h, fun h => Nat.mul_pos h hpos⟩

variable {t : Tensor α} (hdims : t.dims = N :: C :: spatial) (hG : G ∣ C)
include hdims

include hG in
/-- **An input is folded if it has blocks**, and then only. -/
theorem GroupNormPlan.exists_fold_iff :
    (∃ r, fold ⟨N, C, spatial, G⟩ t = .ok r) ↔ HasBlocks ⟨N, C, spatial, G⟩ := by
  constructor
  · rintro ⟨r, hr⟩
    unfold fold at hr
    obtain ⟨m, n, _, hn, hpos, _, _⟩ := Tensor.reshapeInfer_inv hr
    unfold HasBlocks
    rw [hn, Int.natCast_pos]
    exact Nat.pos_of_mul_pos_left hpos
  · intro hblocks
    rcases Nat.eq_zero_or_pos C with rfl | hC
    · -- without channels any number of blocks will do, and all of them are empty
      obtain ⟨n, hn⟩ := Int.eq_ofNat_of_zero_le (Int.le_of_lt hblocks)
      have hpos : 0 < n := by
        rw [HasBlocks, hn] at hblocks
        exact Int.natCast_pos.1 hblocks
      have hle : n ≤ maxExtent := by
        have hword := signedWord_le (N * G)
        rw [hn] at hword
        exact Int.ofNat_le.1 hword
      have hcount : volume [1, n, 0] = t.numel := by
        rw [Tensor.numel, hdims]
        show 1 * (n * (0 * 1)) = N * (0 * volume spatial)
        simp
      have haddr : Addressable [1, n, 0] := by
        refine Addressable.one_cons ?_
        unfold Addressable
        rw [extent_cons, if_neg (Nat.ne_of_gt hpos)]
        show n * 1 ≤ maxExtent
        rwa [Nat.mul_one]
      obtain ⟨r, hr, _⟩ := t.reshape_ok hcount haddr
      refine ⟨r, ?_⟩
      rw [fold, hn, ← hr]
      exact t.reshapeInfer_eq_reshape (Nat.mul_pos Nat.one_pos hpos) hcount
    · have hN : 1 ≤ N := (hasBlocks_iff (hdims ▸ t.addressable) hC hG).1 hblocks
      obtain ⟨r, hr, _⟩ := exists_fold hdims hN hC hG
      exact ⟨r, hr⟩

end

/-- An empty batch leaves nothing to infer the length of a block from. -/
theorem GroupNormPlan.fold_of_empty {p : GroupNormPlan} (h : p.batch = 0) (t : Tensor α) :
    p.fold t = .error (.cannotInfer 2 [1, 0, -1] t.dims) := by
  unfold fold
  rw [h, Nat.zero_mul, signedWord_eq (Nat.zero_le _)]
  exact (t.reshapeInfer_pair 1 0).trans (if_pos (.inl rfl))

section
variable [OrderedArith A] [Element α A] (ex : Executor) (registry : Registry α A) (enabled : Bool)
  {input : Tensor α} {G : Nat} {weight bias : Option (Tensor α)} (eps : A) {plan : GroupNormPlan}
  (hplan : GroupNormPlan.ofInput input G weight bias = .ok plan)
include hplan

/-- **Group normalization returns what it has a plan with blocks for.** -/
theorem groupNormForward_complete (h : plan.HasBlocks) :
    ∃ f, (groupNormForward ex registry enabled input G weight bias eps).result = .ok f
      ∧ f.output.ShapedLike input := by
  obtain ⟨N, C, spatial, hdims, rfl, _, hG, hweight, hbias⟩ := GroupNormPlan.ofInput_eq_ok.1 hplan
  obtain ⟨folded, hfold⟩ := (GroupNormPlan.exists_fold_iff hdims hG).2 h
  have hfits := GroupNormPlan.fits hdims hfold
  have hkeeps : (GroupNormPlan.toBlocks ⟨N, C, spatial, G⟩ : BlockPlan α).KeepsDevice := by
    refine ⟨fun t r hr => ?_, fun t r hr => ?_⟩
    · rw [GroupNormPlan.fold_toBlocks] at hr
      unfold GroupNormPlan.fold at hr
      exact Tensor.device_reshapeInfer hr
    · rw [GroupNormPlan.unfold_toBlocks] at hr
      exact Tensor.device_reshape hr
  obtain ⟨stretched, hstretched, _, _, hscale⟩ :=
    GroupNormPlan.broadcastParam_ok N G spatial hweight
  obtain ⟨shift, hshift, _, _, hoffset⟩ := GroupNormPlan.broadcastParam_ok N G spatial hbias
  rw [← hdims] at hscale hoffset
  obtain ⟨f, hthrough, hshaped⟩ := hfits.exists_through hkeeps
    (fun w hw => (hscale w hw).broadcastable) (fun b hb => (hoffset b hb).broadcastable)
  exact ⟨f, groupNormForward_eq_ok.2 ⟨_, stretched, shift, hplan, hstretched, hshift, hthrough⟩,
    hshaped⟩

/-- Without blocks it fails. -/
theorem groupNormForward_stuck (h : ¬ plan.HasBlocks) :
    ∃ e, (groupNormForward ex registry enabled input G weight bias eps).result = .error e := by
  cases hresult : (groupNormForward ex registry enabled input G weight bias eps).result with
  | error e => exact ⟨e, rfl⟩
  | ok f =>
      obtain ⟨plan', _, _, hplan', _, _, hthrough⟩ := groupNormForward_eq_ok.1 hresult
      obtain rfl : plan' = plan := Except.ok.inj (hplan'.symm.trans hplan)
      obtain ⟨N, C, spatial, hdims, rfl, _, hG, _⟩ := GroupNormPlan.ofInput_eq_ok.1 hplan
      obtain ⟨folded, hfold⟩ := hthrough.exists_fold
      rw [GroupNormPlan.fold_toBlocks] at hfold
      exact absurd ((GroupNormPlan.exists_fold_iff hdims hG).1 ⟨folded, hfold⟩) h

/-- An empty batch is refused by the fold. -/
theorem groupNormForward_empty (h : plan.batch = 0) :
    (groupNormForward ex registry enabled input G weight bias eps).result
      = .error (.cannotInfer 2 [1, 0, -1] input.dims) := by
  unfold groupNormForward
  rw [Logged.result_lift_bind hplan]
  exact Logged.result_lift_bind_error (GroupNormPlan.fold_of_empty h input)

end

/-! ## §4. The channels of every sample. -/

/-- **Instance normalization returns whatever it accepts.** -/
theorem instanceNormForward_complete [OrderedArith A] [Element α A] (ex : Executor)
    (registry : Registry α A) (enabled : Bool) {args : ForwardArgs α A} {running : ChannelStats α}
    (h : args.Accepted running)
    (hspares :
      (instanceNormForward ex registry enabled args running).toLogged.SparesAccelerators) :
    ∃ f, (instanceNormForward ex registry enabled args running).result = .ok f
      ∧ f.output.ShapedLike args.input := by
  obtain ⟨p, hdims⟩ := InstanceNormPlan.exists_of_rank h.rank
  have hchannels : args.input.channels = p.channels := InstanceNormPlan.channels_of_dims hdims
  obtain ⟨folded, tiled, hf⟩ := InstanceNormPlan.exists_foldsTo h hdims
  have haccepted : folded.Accepted tiled := (hf.accepted_iff hdims).2 h.foldable
  have hcall := instanceNormForward_eq_finish ex registry enabled hdims hf h.foldable
  have hran := InstanceNormPlan.folded_ran_native ex haccepted hcall hspares
  obtain ⟨forward, _, _, hforward, _⟩ := (hf.finishable haccepted hran).result_ok
    (hchannels ▸ h.mean) (hchannels ▸ h.var)
  obtain ⟨f, output, hok, hunfold, rfl⟩ := InstanceNormPlan.finish_eq_ok hforward
  obtain ⟨g, hg, hshaped⟩ := hran.shapedLike haccepted
  obtain rfl : g = f := Except.ok.inj (hg.symm.trans hok)
  refine ⟨_, hcall ▸ hforward, ?_, ?_⟩
  · exact (Tensor.dims_reshape hunfold).trans hdims.symm
  · have hback : output.device = g.output.device := Tensor.device_reshape hunfold
    have hforth : folded.input.device = args.input.device := Tensor.device_reshape hf.input
    exact hback.trans (hshaped.device.trans hforth)

/-! ## §5. Every variant. -/

/-- **What passes the entry checks of a derived variant is answered.**  Layer
normalization of an input it has a plan for returns, and so does a native
instance normalization of a call with one value per channel in every parameter
and statistic it brings along, empty inputs included.  Group normalization of an
input it has a plan for returns exactly if the plan has blocks; where there are
channels that is when there are samples, and an empty batch is refused because
the length of a block cannot be inferred.  What is returned has the input's shape
and device.  Memory is taken to be there: no allocation fails, and no capacity
overflows where dimensions without elements are large. -/
theorem derived_calls_complete [OrderedArith A] [Element α A] (ex : Executor)
    (registry : Registry α A) (enabled : Bool) :
    (∀ (input : Tensor α) (row : List Nat) (weight bias : Option (Tensor α)) (eps : A) plan,
      LayerNormPlan.ofInput input row weight bias = .ok plan →
      ∃ f, (layerNormForward ex registry enabled input row weight bias eps).result = .ok f
        ∧ (layerNorm ex registry enabled input row weight bias eps).result = .ok f.output
        ∧ f.output.ShapedLike input)
    ∧ (∀ (args : ForwardArgs α A) (running : ChannelStats α), args.Accepted running →
      (instanceNormForward ex registry enabled args running).toLogged.SparesAccelerators →
      ∃ f, (instanceNormForward ex registry enabled args running).result = .ok f
        ∧ (instanceNorm ex registry enabled args running).result = .ok f.output
        ∧ f.output.ShapedLike args.input)
    ∧ ∀ (input : Tensor α) (G : Nat) (weight bias : Option (Tensor α)) (eps : A) plan,
      GroupNormPlan.ofInput input G weight bias = .ok plan →
      let call := groupNormForward ex registry enabled input G weight bias eps
      (plan.HasBlocks → ∃ f, call.result = .ok f
          ∧ (groupNorm ex registry enabled input G weight bias eps).result = .ok f.output
          ∧ f.output.ShapedLike input)
        ∧ (¬ plan.HasBlocks → ∃ e, call.result = .error e)
        ∧ (plan.batch = 0 → call.result = .error (.cannotInfer 2 [1, 0, -1] input.dims))
        ∧ (0 < plan.channels → (plan.HasBlocks ↔ 0 < plan.batch)) := by
  refine ⟨?rows, ?samples, ?groups⟩
  case rows =>
    intro input row weight bias eps plan hplan
    obtain ⟨f, hf, hshaped⟩ := layerNormForward_complete ex registry enabled eps hplan
    exact ⟨f, hf, Logged.result_bind hf, hshaped⟩
  case samples =>
    intro args running h hspares
    obtain ⟨f, hf, hshaped⟩ := instanceNormForward_complete ex registry enabled h hspares
    exact ⟨f, hf, congrArg (Except.map _) hf, hshaped⟩
  case groups =>
    intro input G weight bias eps plan hplan
    refine ⟨fun hblocks => ?_, groupNormForward_stuck ex registry enabled eps hplan,
      groupNormForward_empty ex registry enabled eps hplan, fun hC => ?_⟩
    · obtain ⟨f, hf, hshaped⟩ := groupNormForward_complete ex registry enabled eps hplan hblocks
      exact ⟨f, hf, Logged.result_bind hf, hshaped⟩
    · obtain ⟨N, C, spatial, hdims, rfl, _, hG, _⟩ := GroupNormPlan.ofInput_eq_ok.1 hplan
      exact GroupNormPlan.hasBlocks_iff (hdims ▸ input.addressable) hC hG

/-- Without samples layer and instance normalization return, and group
normalization does not. -/
theorem derived_calls_complete_empty :
    let empty := emptyCall.input
    let eps : Float := 1
    empty.dims = [0, 2]
      ∧ (∃ f, (layerNormForward ⟨.standard, 4⟩ .empty false empty [2] none none eps).result = .ok f
          ∧ f.output.ShapedLike empty)
      ∧ (∃ f, (instanceNormForward ⟨.standard, 4⟩ .empty false emptyCall .none).result = .ok f
          ∧ f.output.ShapedLike empty)
      ∧ (groupNormForward ⟨.standard, 4⟩ .empty false empty 1 none none eps).result
        = .error (.cannotInfer 2 [1, 0, -1] [0, 2]) := by
  intro empty eps
  have hdims : empty.dims = [0, 2] := rfl
  obtain ⟨hlayer, hinstance, hgroup⟩ :=
    @derived_calls_complete Float32 Float _ _ ⟨.standard, 4⟩ .empty false
  obtain ⟨f, hf, _, hfshaped⟩ := hlayer empty [2] none none eps ⟨[0], [2]⟩ rfl
  have hspares : (instanceNormForward ⟨.standard, 4⟩ .empty false emptyCall
      .none).toLogged.SparesAccelerators := by
    have hoff := instanceNormForward_switchedOff ⟨.standard, 4⟩ .empty false (.inl rfl) emptyCall
      .none
    apply hoff.spares_iff.2
    rintro a ⟨_, heligible⟩
    cases heligible.installed
  obtain ⟨g, hg, _, hgshaped⟩ := hinstance emptyCall .none
    ⟨by decide, nofun, nofun, nofun, nofun, nofun⟩ hspares
  obtain ⟨_, _, hrefused, _⟩ := hgroup empty 1 none none eps ⟨0, 2, [], 1⟩ rfl
  exact ⟨hdims, ⟨f, hf, hfshaped⟩, ⟨g, hg, hgshaped⟩, hrefused rfl⟩

end ChannelNorm

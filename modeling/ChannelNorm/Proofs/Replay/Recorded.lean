/-
  ChannelNorm.Proofs.Replay.Recorded
  ──────────────────────────────────
  **WHAT A SUCCESSFUL BLOCK NORMALIZATION LEAVES.**

  The other direction of `LayerNormContext.forward_ok` and
  `GroupNormContext.forward_ok`, over any numbers: nothing is asked of the
  input, and what its plan does to shapes is read off the success of the call.

      layer   the row ends the input, so the plan fits and can reduce
      group   the input was folded, so there is a sample; the plan fits, and it
              can reduce where there is a channel

  Either way the recorded state can be replayed through its plan.
-/
import ChannelNorm.Proofs.Replay.Instance
import ChannelNorm.Proofs.Replay.Layer
import ChannelNorm.Proofs.Replay.Shapes

namespace ChannelNorm

variable {α A : Type}

/-- A check that throws on a condition. -/
theorem throwing_eq_ok {ρ : Type} {c : Prop} [Decidable c] {e : TensorError}
    {f : Unit → Except TensorError ρ} {x : Except TensorError ρ} {r : ρ} :
    (if c then throw e >>= f else x) = .ok r ↔ ¬ c ∧ x = .ok r := by
  by_cases hc : c
  · rw [if_pos hc]
    exact iff_of_false nofun fun h => h.1 hc
  · rw [if_neg hc]
    exact ⟨fun h => ⟨hc, h⟩, fun h => h.2⟩

/-! ## §1. Calls through a plan. -/

section
variable [OrderedArith A] [Element α A] {ex : Executor} {registry : Registry α A} {enabled : Bool}

/-- What the folded call of a block normalization returns, by shapes. -/
theorem plain_returns {folded : Tensor α} {eps : A} {f : Forward α}
    (hok : (batchNormForward ex registry enabled (.plain folded eps) .none).result = .ok f) :
    f.backend = .native ∧ f.output.dims = folded.dims
      ∧ Supplied folded.channels f.saved.mean ∧ Supplied folded.channels f.saved.var := by
  have haccepted : (ForwardArgs.plain folded eps).Accepted .none :=
    accepted_of_batchNormForward hok
  obtain ⟨_, _, g, hnative, hg⟩ :=
    native_ran_of_no_weight ex registry enabled (.plain folded eps) .none haccepted rfl
  obtain rfl : g = f := Except.ok.inj (hg.symm.trans hok)
  have hsaved := supplied_saved_nativeBatchNorm haccepted rfl hnative
  refine ⟨backend_nativeBatchNorm hnative, ?_, hsaved⟩
  rw [nativeBatchNorm_training ex haccepted rfl] at hnative
  cases hnative
  dsimp only
  rw [Tensor.dims_withContents]
  rfl

/-- A weight that was applied stretches to what it was applied to. -/
theorem broadcastable_of_applyAffine {normalized out : Tensor α} {weight bias : Option (Tensor α)}
    (hok : applyAffine normalized weight bias = .ok out) :
    ∀ w, weight = some w → Broadcastable w.dims normalized.dims := by
  unfold applyAffine at hok
  split at hok
  · exact nofun
  · exact (Tensor.exists_affine_iff.1 ⟨out, hok⟩).1

/-- A result was arrived at through a plan: fold, normalize, unfold and scale. -/
def NormalizedForward.Through (f : NormalizedForward α) (ex : Executor) (registry : Registry α A)
    (enabled : Bool) (plan : BlockPlan α) (input : Tensor α) (weight bias : Option (Tensor α))
    (eps : A) : Prop :=
  ∃ folded forward, plan.fold input = .ok folded
    ∧ (batchNormForward ex registry enabled (.plain folded eps) .none).result = .ok forward
    ∧ plan.unfold forward.output = .ok f.normalized
    ∧ applyAffine f.normalized weight bias = .ok f.output
    ∧ f.saved = forward.saved ∧ f.backend = forward.backend

theorem NormalizedForward.Through.exists_fold {f : NormalizedForward α} {plan : BlockPlan α}
    {input : Tensor α} {weight bias : Option (Tensor α)} {eps : A}
    (h : f.Through ex registry enabled plan input weight bias eps) :
    ∃ folded, plan.fold input = .ok folded := by
  obtain ⟨folded, _, hfold, _⟩ := h
  exact ⟨folded, hfold⟩

/-- A recorded block normalization of an input: the plan fits, the state can be
replayed, and there are the parameters that were given. -/
structure BlockState.Records (s : BlockState α A) (plan : BlockPlan α) (input : Tensor α)
    (weight bias : Option (Tensor α)) (folded param : List Nat) (sums : Prop) : Prop where
  fits : plan.Fits input.dims folded param sums
  replayable : s.Replayable input.dims folded
  weight : s.weight.isSome = weight.isSome
  hasBias : s.hasBias = bias.isSome

/-- **What is arrived at through a plan that fits can be replayed through it.** -/
theorem BlockPlan.Fits.records {plan : BlockPlan α} {input : Tensor α} {folded param : List Nat}
    {sums : Prop} {eps : A} {f : NormalizedForward α}
    {weight bias stretched shift : Option (Tensor α)}
    (h : plan.Fits input.dims folded param sums)
    (hf : f.Through ex registry enabled plan input stretched shift eps)
    (hweight : stretched.isSome = weight.isSome) :
    BlockState.Records ⟨input, f.normalized, stretched, bias.isSome, f.saved, f.backend, eps⟩ plan
      input weight bias folded param sums := by
  obtain ⟨foldedInput, forward, hfold, hforward, hunfold, haffine, hsaved, hbackend⟩ := hf
  obtain ⟨r, hr, hrdims⟩ := h.fold input rfl
  obtain rfl : r = foldedInput := Except.ok.inj (hr.symm.trans hfold)
  obtain ⟨hnative, houtput, hmean, hvar⟩ := plain_returns hforward
  obtain ⟨u, hu, hudims⟩ := h.unfold forward.output (houtput.trans hrdims)
  have hnormalized : f.normalized.dims = input.dims := by
    rw [← Except.ok.inj (hu.symm.trans hunfold)]
    exact hudims
  have hchannels : r.channels = folded.getD 1 0 := by
    unfold Tensor.channels
    rw [hrdims]
  rw [hchannels, ← hsaved] at hmean hvar
  refine ⟨h, ⟨rfl, hnormalized, hmean, hvar, hbackend.trans hnative, ?_⟩, hweight, rfl⟩
  rw [← hnormalized]
  exact broadcastable_of_applyAffine haffine

end

/-! ## §2. Rows. -/

section
variable {leading row : List Nat}

/-- The plan of layer normalization fits every input that ends with the row. -/
theorem LayerNormPlan.fits [Add α] [Zero α] (h : Addressable (leading ++ row)) :
    (LayerNormPlan.toBlocks ⟨leading, row⟩ : BlockPlan α).Fits (leading ++ row)
      [1, volume leading, volume row] row True := by
  have hpair : Addressable [volume leading, volume row] := h.pair
  refine ⟨Nat.le_succ 2, ?_, fun _ _ => Tensor.numel_reshape, ?_, ?_, fun hn => absurd trivial hn⟩
  · intro t ht
    obtain ⟨r, hr, hdims, _⟩ :=
      t.reshape_ok ((volume_rows leading row).trans ht.symm) hpair.one_cons
    exact ⟨r, hr, hdims⟩
  · intro t ht
    have hcount : volume (leading ++ row) = t.numel :=
      (volume_rows leading row).symm.trans (congrArg volume ht.symm)
    obtain ⟨r, hr, hdims, _⟩ := t.reshape_ok hcount h
    exact ⟨r, hr, hdims⟩
  · intro _ t ht
    have hrows : volume [volume leading, volume row] = t.numel := by
      rw [volume_pair, ← volume_append, ht]
    obtain ⟨rows, hreshape, hdims, _⟩ := t.reshape_ok hrows hpair
    have hsdims : (rows.sumAxis 0).dims = [volume row] := by
      rw [Tensor.dims_sumAxis, hdims]
      rfl
    obtain ⟨r, hr, hrdims, _⟩ := (rows.sumAxis 0).reshape_ok
      (Tensor.numel_of_dims_singleton hsdims).symm h.right
    refine ⟨r, ?_, hrdims⟩
    show LayerNormPlan.reduceToParam ⟨leading, row⟩ t = .ok r
    unfold LayerNormPlan.reduceToParam
    exact bind_eq_ok.2 ⟨rows, hreshape, hr⟩

/-- **Which inputs have a plan**: those that end with a row of one axis or more,
with parameters of its shape. -/
theorem LayerNormPlan.ofInput_eq_ok {input : Tensor α} {weight bias : Option (Tensor α)}
    {p : LayerNormPlan} :
    ofInput input row weight bias = .ok p
      ↔ row ≠ [] ∧ (∀ t, weight = some t → t.dims = row) ∧ (∀ t, bias = some t → t.dims = row)
        ∧ ∃ leading, input.dims = leading ++ row ∧ p = ⟨leading, row⟩ := by
  constructor
  · intro hok
    unfold ofInput at hok
    dsimp only at hok
    rw [throwing_eq_ok] at hok
    obtain ⟨hrow, hok⟩ := hok
    obtain ⟨_, hweight, hok⟩ := bind_eq_ok.1 hok
    obtain ⟨_, hbias, hok⟩ := bind_eq_ok.1 hok
    obtain ⟨hends, hok⟩ := throwing_eq_ok.1 hok
    obtain ⟨leading, hleading⟩ : row <:+ input.dims := by
      unfold Shape.endsWith at hends
      rwa [Bool.not_eq_true', Bool.not_eq_false, List.isSuffixOf_iff_suffix] at hends
    refine ⟨fun hempty => hrow (List.isEmpty_iff.2 hempty), checkParam_eq_ok.1 hweight,
      checkParam_eq_ok.1 hbias, leading, hleading.symm, ?_⟩
    cases hok
    congr 1
    unfold Tensor.rank
    rw [← hleading, List.length_append, Nat.add_sub_cancel, List.take_left']
    rfl
  · rintro ⟨hrow, hweight, hbias, leading, hdims, rfl⟩
    exact ofInput_ok hdims hrow hweight hbias

section
variable [OrderedArith A] [Element α A] {ex : Executor} {registry : Registry α A} {enabled : Bool}
  {input : Tensor α} {weight bias : Option (Tensor α)} {eps : A}

/-- A call is a result arrived at through a plan. -/
theorem layerNormForward_eq_ok {f : NormalizedForward α} :
    (layerNormForward ex registry enabled input row weight bias eps).result = .ok f
      ↔ ∃ plan, LayerNormPlan.ofInput input row weight bias = .ok plan
        ∧ f.Through ex registry enabled plan.toBlocks input weight bias eps := by
  unfold layerNormForward
  simp only [Logged.bind_eq_ok, Logged.result_lift]
  constructor
  · rintro ⟨plan, hplan, folded, hfold, forward, hforward, normalized, hunfold, output, haffine,
      ⟨⟩⟩
    exact ⟨plan, hplan, folded, forward, hfold, hforward, hunfold, haffine, rfl, rfl⟩
  · rintro ⟨plan, hplan, folded, forward, hfold, hforward, hunfold, haffine, hsaved, hbackend⟩
    refine ⟨plan, hplan, folded, hfold, forward, hforward, _, hunfold, _, haffine, ?_⟩
    rw [← hsaved, ← hbackend]
    rfl

/-- **A recorded layer normalization can be replayed through its plan**, with the
weight it was given. -/
theorem LayerNormContext.records_of_forward {out : Tensor α} {ctx : LayerNormContext α A}
    (hok : (LayerNormContext.forward ex registry enabled input row weight bias eps).result
      = .ok (out, ctx)) :
    ctx.state.weight = weight
      ∧ ∃ folded, ctx.state.Records ctx.plan.toBlocks input weight bias folded row True := by
  unfold LayerNormContext.forward at hok
  simp only [Logged.bind_eq_ok, Logged.result_lift] at hok
  obtain ⟨plan, hplan, f, hf, hctx⟩ := hok
  cases hctx
  obtain ⟨plan', hplan', hthrough⟩ := layerNormForward_eq_ok.1 hf
  obtain rfl : plan' = plan := Except.ok.inj (hplan'.symm.trans hplan)
  obtain ⟨_, _, _, leading, hdims, rfl⟩ := LayerNormPlan.ofInput_eq_ok.1 hplan
  have hfits := LayerNormPlan.fits (α := α) (hdims ▸ input.addressable)
  rw [← hdims] at hfits
  exact ⟨rfl, _, hfits.records hthrough rfl⟩

end

end

/-! ## §3. Groups of channels. -/

section
variable {N C G : Nat} {spatial : List Nat}

/-- Folding keeps the number of elements. -/
theorem GroupNormPlan.numel_fold {p : GroupNormPlan} {t r : Tensor α} (h : p.fold t = .ok r) :
    r.numel = t.numel := by
  unfold fold at h
  exact Tensor.numel_reshapeInfer h

/-- Nothing is folded without a sample. -/
theorem GroupNormPlan.batch_pos_of_fold {p : GroupNormPlan} {t r : Tensor α}
    (h : p.fold t = .ok r) : 1 ≤ p.batch := by
  unfold fold at h
  obtain ⟨m, n, _, hn, hpos, _, _⟩ := Tensor.reshapeInfer_inv h
  apply Nat.one_le_iff_ne_zero.2
  intro hbatch
  -- no samples, no blocks
  rw [hbatch, Nat.zero_mul, signedWord_eq (Nat.zero_le _)] at hn
  rw [← Int.ofNat_inj.1 hn, Nat.mul_zero] at hpos
  exact absurd hpos (Nat.lt_irrefl 0)

/-- Without channels there is nothing to infer a plane from. -/
theorem GroupNormPlan.reduceToChannels_stuck [Add α] [Zero α] {p : GroupNormPlan}
    (h : p.channels = 0) (t : Tensor α) : ∃ e, p.reduceToChannels t = .error e := by
  have hinfer : ∃ e, t.reshapeInfer [signedWord p.batch, signedWord p.channels, -1]
      = .error e := by
    cases hr : t.reshapeInfer [signedWord p.batch, signedWord p.channels, -1] with
    | error e => exact ⟨e, rfl⟩
    | ok r =>
        obtain ⟨m, n, _, hn, hpos, _, _⟩ := Tensor.reshapeInfer_inv hr
        rw [h, signedWord_eq (Nat.zero_le _)] at hn
        rw [← Int.ofNat_inj.1 hn, Nat.mul_zero] at hpos
        exact absurd hpos (Nat.lt_irrefl 0)
  obtain ⟨e, he⟩ := hinfer
  refine ⟨e, ?_⟩
  unfold reduceToChannels
  rw [he]
  rfl

/-- **The plan of group normalization fits every input it folds**, and it can
reduce where there is a channel. -/
theorem GroupNormPlan.fits [Add α] [Zero α] {input folded : Tensor α}
    (hdims : input.dims = N :: C :: spatial)
    (hfold : fold ⟨N, C, spatial, G⟩ input = .ok folded) :
    (toBlocks ⟨N, C, spatial, G⟩ : BlockPlan α).Fits input.dims folded.dims [C] (0 < C) := by
  have haddr : Addressable (N :: C :: spatial) := hdims ▸ input.addressable
  have hN : 1 ≤ N := batch_pos_of_fold hfold
  refine ⟨?_, ?_, ?_, ?_, ?_, ?_⟩
  · unfold fold at hfold
    obtain ⟨m, n, _, _, _, _, hreshape⟩ := Tensor.reshapeInfer_inv hfold
    rw [Tensor.dims_reshape hreshape]
    exact Nat.le_succ 2
  · intro t ht
    rw [fold_toBlocks]
    unfold fold at hfold ⊢
    exact Tensor.reshapeInfer_of_numel_eq hfold ht
  · intro t r hr
    rw [fold_toBlocks] at hr
    exact numel_fold hr
  · intro t ht
    have hcount : volume (N :: C :: spatial) = t.numel := by
      rw [← hdims, Tensor.numel, ht]
      exact (numel_fold hfold).symm
    obtain ⟨r, hr, hrdims, _⟩ := t.reshape_ok hcount haddr
    rw [unfold_toBlocks, hdims]
    exact ⟨r, hr, hrdims⟩
  · intro hC t ht
    rw [hdims] at ht
    obtain ⟨planes, hplanes, hpdims, _⟩ := exists_planes haddr hN hC ht
    refine ⟨(planes.sumAxis 2).sumAxis 0, ?_, ?_⟩
    · rw [reduce_toBlocks, reduceToChannels, hplanes]
      rfl
    · rw [Tensor.dims_sumAxis, Tensor.dims_sumAxis, hpdims]
      rfl
  · intro hC t
    rw [reduce_toBlocks]
    exact reduceToChannels_stuck (Nat.eq_zero_of_not_pos hC) t

/-- **Which inputs have a plan**: those of two axes or more whose channels split
into that many groups, with parameters of one value per channel. -/
theorem GroupNormPlan.ofInput_eq_ok {input : Tensor α} {weight bias : Option (Tensor α)}
    {p : GroupNormPlan} :
    ofInput input G weight bias = .ok p
      ↔ ∃ N C spatial, input.dims = N :: C :: spatial ∧ p = ⟨N, C, spatial, G⟩ ∧ 0 < G ∧ G ∣ C
        ∧ (∀ t, weight = some t → t.dims = [C]) ∧ ∀ t, bias = some t → t.dims = [C] := by
  constructor
  · intro hok
    unfold ofInput at hok
    split at hok
    · next N C spatial hdims =>
        dsimp only at hok
        obtain ⟨hsplit, hok⟩ := throwing_eq_ok.1 hok
        obtain ⟨_, hweight, hok⟩ := bind_eq_ok.1 hok
        obtain ⟨_, hbias, hok⟩ := bind_eq_ok.1 hok
        rw [not_or, not_not] at hsplit
        cases hok
        exact ⟨N, C, spatial, hdims, rfl, Nat.pos_of_ne_zero hsplit.1,
          Nat.dvd_of_mod_eq_zero hsplit.2, checkParam_eq_ok.1 hweight, checkParam_eq_ok.1 hbias⟩
    · cases hok
  · rintro ⟨N, C, spatial, hdims, rfl, hpos, hG, hweight, hbias⟩
    exact ofInput_ok hdims hpos hG hweight hbias

theorem GroupNormPlan.isSome_broadcastParam {p : GroupNormPlan}
    {param stretched : Option (Tensor α)} (hok : p.broadcastParam param = .ok stretched) :
    stretched.isSome = param.isSome := by
  unfold broadcastParam at hok
  cases param with
  | none =>
      cases hok
      rfl
  | some t =>
      have hmap : (t.reshape p.affineShape).map some = .ok stretched := hok
      cases hr : t.reshape p.affineShape with
      | error e =>
          rw [hr] at hmap
          cases hmap
      | ok r =>
          rw [hr] at hmap
          cases hmap
          rfl

section
variable [OrderedArith A] [Element α A] {ex : Executor} {registry : Registry α A} {enabled : Bool}
  {input : Tensor α} {weight bias : Option (Tensor α)} {eps : A}

/-- A call is a result arrived at through a plan, with stretched parameters. -/
theorem groupNormForward_eq_ok {f : NormalizedForward α} :
    (groupNormForward ex registry enabled input G weight bias eps).result = .ok f
      ↔ ∃ plan stretched shift, GroupNormPlan.ofInput input G weight bias = .ok plan
        ∧ plan.broadcastParam weight = .ok stretched ∧ plan.broadcastParam bias = .ok shift
        ∧ f.Through ex registry enabled plan.toBlocks input stretched shift eps := by
  unfold groupNormForward NormalizedForward.Through
  simp only [Logged.bind_eq_ok, Logged.result_lift, GroupNormPlan.fold_toBlocks,
    GroupNormPlan.unfold_toBlocks]
  constructor
  · rintro ⟨plan, hplan, folded, hfold, forward, hforward, normalized, hunfold, stretched,
      hstretched, shift, hshift, output, haffine, ⟨⟩⟩
    exact ⟨plan, stretched, shift, hplan, hstretched, hshift, folded, forward, hfold, hforward,
      hunfold, haffine, rfl, rfl⟩
  · rintro ⟨plan, stretched, shift, hplan, hstretched, hshift, folded, forward, hfold, hforward,
      hunfold, haffine, hsaved, hbackend⟩
    refine ⟨plan, hplan, folded, hfold, forward, hforward, _, hunfold, stretched, hstretched,
      shift, hshift, _, haffine, ?_⟩
    rw [← hsaved, ← hbackend]
    rfl

/-- **A recorded group normalization can be replayed through its plan**, with the
weight it was given stretched over the channels. -/
theorem GroupNormContext.records_of_forward {out : Tensor α} {ctx : GroupNormContext α A}
    (hok : (GroupNormContext.forward ex registry enabled input G weight bias eps).result
      = .ok (out, ctx)) :
    ctx.plan.broadcastParam weight = .ok ctx.state.weight
      ∧ ∃ folded, ctx.state.Records ctx.plan.toBlocks input weight bias folded [input.channels]
          (0 < input.channels) := by
  unfold GroupNormContext.forward at hok
  simp only [Logged.bind_eq_ok, Logged.result_lift] at hok
  obtain ⟨plan, hplan, f, hf, stretched, hstretched, hctx⟩ := hok
  cases hctx
  obtain ⟨plan', stretched', shift, hplan', hstretched', _, hthrough⟩ :=
    groupNormForward_eq_ok.1 hf
  obtain rfl : plan' = plan := Except.ok.inj (hplan'.symm.trans hplan)
  obtain rfl : stretched' = stretched := Except.ok.inj (hstretched'.symm.trans hstretched)
  obtain ⟨N, C, spatial, hdims, rfl, _⟩ := GroupNormPlan.ofInput_eq_ok.1 hplan
  have hchannels : input.channels = C := Tensor.channels_of_cons hdims
  obtain ⟨folded, hfold⟩ := hthrough.exists_fold
  rw [GroupNormPlan.fold_toBlocks] at hfold
  rw [hchannels]
  exact ⟨hstretched, _, (GroupNormPlan.fits hdims hfold).records hthrough
    (GroupNormPlan.isSome_broadcastParam hstretched)⟩

end

end

end ChannelNorm

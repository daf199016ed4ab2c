/-
  ChannelNorm.Proofs.Replay.Group
  ───────────────────────────────
  **GROUPS OF CHANNELS AS BLOCKS.**

  An input of dimensions `(N, C, …)` is folded to `(1, N * G, rest)`; a block
  holds the `C / G` neighbouring channels of one group of one sample.  Place `k`
  reads the entry of its channel, and summing within planes and over samples
  sums each channel: the plan of group normalization is sound, and a call
  through it returns what a block normalization should.
-/
import Mathlib
import ChannelNorm.Proofs.Replay.Block
import ChannelNorm.Replay.Group

namespace ChannelNorm

open Finset Function

/-! ## §1. The plan. -/

section
variable {N C G : Nat} {spatial : List Nat}

/-- The counts of an addressable shape are addressable. -/
theorem mul_le_maxExtent (h : Addressable (N :: C :: spatial)) (hN : 1 ≤ N) (hC : 1 ≤ C) :
    N * C ≤ maxExtent := by
  unfold Addressable at h
  rw [extent_cons, extent_cons, if_neg (by omega), if_neg (by omega), ← Nat.mul_assoc] at h
  exact Nat.le_trans (Nat.le_mul_of_pos_right _ (extent_pos spatial)) h

/-- Dimensions folded to groups hold as many elements. -/
theorem volume_groups (hG : G ∣ C) :
    volume [1, N * G, C / G * volume spatial] = volume (N :: C :: spatial) := by
  show 1 * (N * G * (C / G * volume spatial * 1)) = N * (C * volume spatial)
  rw [Nat.one_mul, Nat.mul_one, Nat.mul_assoc, ← Nat.mul_assoc G, Nat.mul_div_cancel' hG]

/-- Taking the trailing dimensions as one keeps a shape addressable, and so does
moving channels from groups to blocks. -/
theorem addressable_groups (h : Addressable (N :: C :: spatial)) (hN : 1 ≤ N) (hC : 1 ≤ C)
    (hG : G ∣ C) : Addressable [1, N * G, C / G * volume spatial] := by
  have hpos : 0 < G := Nat.pos_of_dvd_of_pos hG hC
  have hm : 0 < C / G := Nat.div_pos (Nat.le_of_dvd hC hG) hpos
  have hvol : extent [C / G * volume spatial] ≤ C / G * extent spatial := by
    have hle := extent_volume_cons_le ((C / G) :: spatial) []
    rw [List.append_nil, extent_cons (C / G), if_neg (by omega)] at hle
    exact hle
  refine Addressable.one_cons ?_
  unfold Addressable at h ⊢
  have hNG : N * G ≠ 0 := Nat.mul_ne_zero (by omega) (by omega)
  rw [extent_cons, if_neg hNG]
  rw [extent_cons, extent_cons, if_neg (by omega), if_neg (by omega)] at h
  -- groups times channels per group are the channels
  refine Nat.le_trans (Nat.mul_le_mul_left _ hvol) (Nat.le_trans (Nat.le_of_eq ?_) h)
  rw [Nat.mul_assoc, ← Nat.mul_assoc G, Nat.mul_div_cancel' hG]

/-- The shape sums are taken in is addressable. -/
theorem addressable_planes (h : Addressable (N :: C :: spatial)) :
    Addressable [N, C, volume spatial] := by
  have hvol : extent [volume spatial] ≤ extent spatial := by
    have hle := extent_volume_cons_le spatial []
    rwa [List.append_nil] at hle
  unfold Addressable at h ⊢
  rw [extent_cons, extent_cons] at h ⊢
  exact Nat.le_trans (Nat.mul_le_mul_left _ (Nat.mul_le_mul_left _ hvol)) h

/-- The channels of a shape do not depend on how its planes are laid out. -/
theorem channelSet_planes (c : Nat) :
    channelSet [N, C, volume spatial] c
      = {k ∈ range (volume (N :: C :: spatial)) | channelOf (N :: C :: spatial) k = c} := by
  ext k
  rw [mem_channelSet, mem_filter, mem_range]
  show k < N * (C * (volume spatial * 1)) ∧ k / (volume spatial * 1) % C = c ↔ _
  rw [Nat.mul_one]
  rfl

section
variable {α : Type}

theorem GroupNormPlan.fold_toBlocks [Add α] [Zero α] (p : GroupNormPlan) :
    (p.toBlocks : BlockPlan α).fold = p.fold := by
  -- by rewriting: comparing the two by evaluation would compute signed words
  rw [GroupNormPlan.toBlocks]

theorem GroupNormPlan.unfold_toBlocks [Add α] [Zero α] (p : GroupNormPlan) :
    (p.toBlocks : BlockPlan α).unfold = p.unfold := by
  rw [GroupNormPlan.toBlocks]

theorem GroupNormPlan.reduce_toBlocks [Add α] [Zero α] (p : GroupNormPlan) :
    (p.toBlocks : BlockPlan α).reduce = p.reduceToChannels := by
  rw [GroupNormPlan.toBlocks]

/-- Folding a non-empty batch is the reshape that leaves the rest open: the fold
goes through a signed word, which holds every count of this size. -/
theorem GroupNormPlan.exists_fold {t : Tensor α} (hdims : t.dims = N :: C :: spatial)
    (hN : 1 ≤ N) (hC : 1 ≤ C) (hG : G ∣ C) :
    ∃ r, fold ⟨N, C, spatial, G⟩ t = .ok r
      ∧ t.reshape [1, N * G, C / G * volume spatial] = .ok r := by
  have h : Addressable (N :: C :: spatial) := hdims ▸ t.addressable
  have hpos : 0 < G := Nat.pos_of_dvd_of_pos hG hC
  have hcount : volume [1, N * G, C / G * volume spatial] = t.numel :=
    (volume_groups hG).trans (congrArg volume hdims.symm)
  have hword : signedWord (N * G) = (N * G : Nat) :=
    signedWord_eq (Nat.le_trans (Nat.mul_le_mul_left _ (Nat.le_of_dvd hC hG))
      (mul_le_maxExtent h hN hC))
  obtain ⟨r, hr, _⟩ := t.reshape_ok hcount (addressable_groups h hN hC hG)
  refine ⟨r, ?_, hr⟩
  rw [fold, hword, ← hr]
  exact t.reshapeInfer_eq_reshape (Nat.mul_pos Nat.one_pos (Nat.mul_pos hN hpos)) hcount

/-- Sums are taken in planes: what has as many elements as the input has one for
every channel of every sample. -/
theorem GroupNormPlan.exists_planes (h : Addressable (N :: C :: spatial)) (hN : 1 ≤ N)
    (hC : 1 ≤ C) {t : Tensor α} (ht : t.numel = volume (N :: C :: spatial)) :
    ∃ planes, t.reshapeInfer [signedWord N, signedWord C, -1] = .ok planes
      ∧ planes.dims = [N, C, volume spatial] ∧ planes.toList = t.toList := by
  have hNC := mul_le_maxExtent h hN hC
  have hcount : volume [N, C, volume spatial] = t.numel := by
    rw [ht]
    show N * (C * (volume spatial * 1)) = N * (C * volume spatial)
    rw [Nat.mul_one]
  rw [signedWord_eq (Nat.le_trans (Nat.le_mul_of_pos_right _ hC) hNC),
    signedWord_eq (Nat.le_trans (Nat.le_mul_of_pos_left _ hN) hNC)]
  exact t.reshapeInfer_ok (Nat.mul_pos hN hC) hcount (addressable_planes h)

end

/-- **The plan of group normalization is sound.** -/
theorem GroupNormPlan.sound (h : Addressable (N :: C :: spatial)) (hN : 1 ≤ N) (hC : 1 ≤ C)
    (hG : G ∣ C) :
    (GroupNormPlan.toBlocks ⟨N, C, spatial, G⟩ : BlockPlan ℝ).Sound (N :: C :: spatial)
      (N * G) (C / G * volume spatial) (channelOf (N :: C :: spatial)) [C] := by
  refine ⟨volume_groups hG, ?_, ?_, ?_⟩
  · intro t ht
    obtain ⟨r, hr, hreshape⟩ := exists_fold ht hN hC hG
    refine ⟨r, ?_, Tensor.dims_reshape hreshape, Tensor.toList_reshape hreshape⟩
    rw [GroupNormPlan.fold_toBlocks]
    exact hr
  · intro t ht
    have hcount : volume (N :: C :: spatial) = t.numel :=
      (volume_groups hG).symm.trans (congrArg volume ht.symm)
    exact t.reshape_ok hcount h
  · intro t ht
    obtain ⟨planes, hplanes, hdims, hlist⟩ :=
      GroupNormPlan.exists_planes h hN hC (congrArg volume ht)
    refine ⟨(planes.sumAxis 2).sumAxis 0, ?_, ?_, ?_⟩
    · rw [GroupNormPlan.reduce_toBlocks, GroupNormPlan.reduceToChannels, hplanes]
      rfl
    · rw [Tensor.dims_sumAxis, Tensor.dims_sumAxis, hdims]
      rfl
    · intro c hc
      rw [volume_singleton] at hc
      rw [planes.elem_sumAxis_planes hdims hc, channelSet_planes,
        Tensor.elem_of_toList_eq hlist]

end

/-! ## §2. The forward call. -/

section
variable {α : Type} {N C G : Nat} {spatial : List Nat} {input : Tensor α}
  {weight bias : Option (Tensor α)}

/-- A parameter passes when it is a vector of one value per channel. -/
theorem GroupNormPlan.checkParam_eq_ok {name : String} {param : Option (Tensor α)} :
    GroupNormPlan.checkParam name C param = .ok () ↔ ∀ t, param = some t → t.dims = [C] := by
  have hvector : ∀ t : Tensor α, t.rank = 1 ∧ t.numel = C ↔ t.dims = [C] := by
    intro t
    constructor
    · rintro ⟨hrank, hnumel⟩
      obtain ⟨d, hdims⟩ := List.length_eq_one_iff.1 hrank
      rw [hdims, ← hnumel, Tensor.numel_of_dims_singleton hdims]
    · intro hdims
      exact ⟨congrArg List.length hdims, Tensor.numel_of_dims_singleton hdims⟩
  cases param with
  | none => exact iff_of_true rfl nofun
  | some t =>
      unfold GroupNormPlan.checkParam
      rw [checking_eq_ok, hvector]
      exact ⟨fun h u hu => Option.some.inj hu ▸ h, fun h => h t rfl⟩

/-- An input whose channels split into that many groups has a plan. -/
theorem GroupNormPlan.ofInput_ok (hdims : input.dims = N :: C :: spatial) (hpos : 0 < G)
    (hG : G ∣ C) (hweight : ∀ t, weight = some t → t.dims = [C])
    (hbias : ∀ t, bias = some t → t.dims = [C]) :
    GroupNormPlan.ofInput input G weight bias = .ok ⟨N, C, spatial, G⟩ := by
  have hmod : C % G = 0 := Nat.mod_eq_zero_of_dvd hG
  have hsplit : ¬ (G = 0 ∨ C % G ≠ 0) := by omega
  unfold GroupNormPlan.ofInput
  rw [hdims]
  dsimp only
  rw [if_neg hsplit, GroupNormPlan.checkParam_eq_ok.2 hweight,
    GroupNormPlan.checkParam_eq_ok.2 hbias]
  rfl

/-- Stretching a parameter over `[1, C, 1, …]` keeps its entries, and every
place reads that of its channel. -/
theorem GroupNormPlan.broadcastParam_ok [Zero α] (N G : Nat) (spatial : List Nat)
    {param : Option (Tensor α)} (h : ∀ t, param = some t → t.dims = [C]) :
    ∃ q, GroupNormPlan.broadcastParam ⟨N, C, spatial, G⟩ param = .ok q
      ∧ (∀ d, paramAt q d = paramAt param d) ∧ q.isSome = param.isSome
      ∧ ∀ t, q = some t → t.StretchedBy (N :: C :: spatial) (channelOf (N :: C :: spatial)) := by
  cases param with
  | none =>
      refine ⟨none, rfl, fun _ => rfl, rfl, ?_⟩
      rintro t ⟨⟩
  | some t =>
      have hdims := h t rfl
      -- axes of length one do not count for the extent
      have hones : extent (spatial.map fun _ => 1) = 1 := by
        induction spatial with
        | nil => rfl
        | cons d ds ih =>
            show extent (1 :: ds.map fun _ => 1) = 1
            rw [extent_cons, if_neg Nat.one_ne_zero, ih]
      have haddr : Addressable (1 :: C :: spatial.map fun _ => 1) := by
        have ht := t.addressable
        rw [hdims] at ht
        refine Addressable.one_cons ?_
        unfold Addressable at ht ⊢
        rw [extent_cons] at ht ⊢
        rw [hones]
        exact ht
      have hcount : volume (1 :: C :: spatial.map fun _ => 1) = t.numel := by
        rw [Tensor.numel, hdims]
        show 1 * (C * volume (spatial.map fun _ => 1)) = C * 1
        rw [volume_map_one, Nat.one_mul]
      obtain ⟨r, hr, hrdims, hrlist⟩ := t.reshape_ok hcount haddr
      refine ⟨some r, ?_, fun d => Tensor.elem_of_toList_eq hrlist, rfl, ?_⟩
      · show (t.reshape (1 :: C :: spatial.map fun _ => 1)).map some = _
        rw [hr]
        rfl
      · rintro u ⟨⟩
        exact r.stretchedBy_channel hrdims

end

section
variable {N C G : Nat} {spatial : List Nat} {input : Tensor ℝ} {weight bias : Option (Tensor ℝ)}

/-- **A group-norm call returns and records what a block normalization by groups
does.** -/
theorem GroupNormContext.forward_ok (ex : Executor) (registry : Registry ℝ ℝ) (enabled : Bool)
    (eps : ℝ) (hdims : input.dims = N :: C :: spatial) (hN : 1 ≤ N) (hC : 1 ≤ C) (hG : G ∣ C)
    (hweight : ∀ t, weight = some t → t.dims = [C])
    (hbias : ∀ t, bias = some t → t.dims = [C]) :
    ∃ output s,
      (GroupNormContext.forward ex registry enabled input G weight bias eps).result
        = .ok (output, ⟨⟨N, C, spatial, G⟩, s⟩)
      ∧ BlockForward (GroupNormPlan.toBlocks ⟨N, C, spatial, G⟩) (N :: C :: spatial) (N * G)
          (C / G * volume spatial) (channelOf (N :: C :: spatial)) [C] eps input weight bias
          output s := by
  have haddr : Addressable (N :: C :: spatial) := hdims ▸ input.addressable
  have hplan := GroupNormPlan.ofInput_ok hdims (Nat.pos_of_dvd_of_pos hG hC) hG hweight hbias
  obtain ⟨folded, forward, normalized, hfold, _, _, hforward, hsaved, hbackend, hunfold, hndims,
    hnelem⟩ := (GroupNormPlan.sound haddr hN hC hG).normalize ex registry enabled hdims eps
  obtain ⟨w, hw, hwat, hwsome, hwt⟩ :=
    GroupNormPlan.broadcastParam_ok N G spatial hweight
  obtain ⟨b, hb, hbat, _, hbt⟩ :=
    GroupNormPlan.broadcastParam_ok N G spatial hbias
  obtain ⟨output, houtput, hodims, hoelem⟩ :=
    applyAffine_ok normalized (p := channelOf (N :: C :: spatial))
      (fun t ht => hndims.symm ▸ hwt t ht) (fun t ht => hndims.symm ▸ hbt t ht)
  rw [GroupNormPlan.fold_toBlocks] at hfold
  refine ⟨output,
    { input, normalized, weight := w, hasBias := bias.isSome, saved := forward.saved,
      backend := forward.backend, eps }, ?_, rfl, rfl, ?_, ?_, hodims.trans hndims,
    ?_⟩
  · have hgroup : (groupNormForward ex registry enabled input G weight bias eps).result
        = .ok { output, normalized, saved := forward.saved, backend := forward.backend } := by
      unfold groupNormForward
      rw [Logged.result_lift_bind hplan]
      -- one line for each step of the call, in order
      refine (Logged.result_lift_bind hfold).trans ?_
      refine (Logged.result_bind hforward).trans ?_
      refine (Logged.result_lift_bind hunfold).trans ?_
      refine (Logged.result_lift_bind hw).trans ?_
      refine (Logged.result_lift_bind hb).trans ?_
      exact Logged.result_lift_bind houtput
    unfold GroupNormContext.forward
    rw [Logged.result_lift_bind hplan]
    refine (Logged.result_bind hgroup).trans ?_
    exact Logged.result_lift_bind hw
  · refine ⟨hdims, hndims, hnelem, hwt, fun t ht => ?_, hbackend⟩
    rw [GroupNormPlan.fold_toBlocks] at ht
    have heq : folded = t := Except.ok.inj (hfold.symm.trans ht)
    subst heq
    exact hsaved
  · exact ⟨hwat 1, hwsome, rfl, hweight, hbias⟩
  · intro k hk
    have hk' : k < normalized.numel := by
      unfold Tensor.numel
      rwa [hndims]
    rw [hoelem k hk', hnelem k hk, hwat, hbat]

end

end ChannelNorm

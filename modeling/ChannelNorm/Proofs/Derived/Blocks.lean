/-
  ChannelNorm.Proofs.Derived.Blocks
  ─────────────────────────────────
  **WITHOUT PARAMETERS EVERY DERIVED VARIANT NORMALIZES BLOCKS OF THE CONTENTS.**

  Layer, group and instance normalization fold their input to one sample, whose
  channel `b` is a stretch of the contents: block `b`, the `len` elements from
  place `b * len` on.  Neither the strides of the input nor how the trailing axes
  were kept or merged is left to see.  A call without affine parameters returns

      output k   =  (x k - mean (k / len)) * invstd (k / len) * 1 + 0
      saved      =  mean and invstd of every block

  and the variants differ in the blocks they make of their input only:

      layer      volume leading  blocks of  volume row
      group      N * G           blocks of  C / G * volume spatial
      instance   N * C           blocks of  volume spatial

  where no law of arithmetic is used.
-/
import Mathlib
import ChannelNorm.Proofs.InstanceNorm.Failure
import ChannelNorm.Proofs.Replay.Recorded

namespace ChannelNorm

/-! ## §1. Folded inputs. -/

theorem volume_blocks (blocks len : Nat) : volume [1, blocks, len] = blocks * len := by
  rw [volume_cons, volume_pair, Nat.one_mul]

section
variable {α : Type}

/-- A reshape back to the shape of a tensor lays contents out afresh. -/
theorem Tensor.reshape_eq_withContents {t u : Tensor α} {xs : List α} (len : xs.length = u.numel)
    (hcontents : t.toList = xs) (hdevice : t.device = u.device) :
    t.reshape u.dims = .ok (u.withContents xs len) := by
  subst hcontents
  have hvolume : volume u.dims = t.numel := len.symm.trans t.length_toList
  unfold reshape
  rw [dif_pos hvolume, dif_pos u.addressable]
  unfold withContents
  simp only [hdevice]

/-- The contents of `t` as one sample of `blocks` channels of `len` elements. -/
structure Tensor.HoldsBlocks (folded t : Tensor α) (blocks len : Nat) : Prop where
  dims : ∃ rest, folded.dims = 1 :: blocks :: rest ∧ volume rest = len
  contents : folded.toList = t.toList
  device : folded.device = t.device

namespace Tensor.HoldsBlocks

variable {folded t : Tensor α} {blocks len : Nat}

/-- Reshaping to one sample makes channels of blocks. -/
theorem of_reshape {rest : List Nat} (h : t.reshape (1 :: blocks :: rest) = .ok folded)
    (hlen : volume rest = len) : folded.HoldsBlocks t blocks len :=
  ⟨⟨rest, dims_reshape h, hlen⟩, toList_reshape h, device_reshape h⟩

variable (h : folded.HoldsBlocks t blocks len)
include h

theorem rank : 2 ≤ folded.rank := by
  obtain ⟨rest, hdims, _⟩ := h.dims
  exact two_le_rank hdims

theorem channels : folded.channels = blocks := by
  obtain ⟨rest, hdims, _⟩ := h.dims
  exact channels_of_cons hdims

theorem addressable : Addressable [blocks] := by
  obtain ⟨rest, hdims, _⟩ := h.dims
  refine addressable_singleton_of_mem ?_ folded.addressable
  rw [hdims]
  exact List.mem_cons_of_mem _ (List.mem_cons_self ..)

theorem numel : folded.numel = t.numel := by
  rw [← length_toList, h.contents, length_toList]

/-- The blocks fill the contents. -/
theorem numel_eq : folded.numel = blocks * len := by
  obtain ⟨rest, hdims, rfl⟩ := h.dims
  unfold Tensor.numel
  rw [hdims, volume_cons, volume_cons, Nat.one_mul]

/-- Each of them holds as many elements. -/
theorem elementsPerChannel {b : Nat} (hb : b < blocks) : folded.elementsPerChannel = len := by
  unfold Tensor.elementsPerChannel
  rw [h.channels, h.numel_eq, Nat.mul_div_cancel_left _ (Nat.zero_lt_of_lt hb)]

/-- A place belongs to a block. -/
theorem div_lt {k : Nat} (hk : k < t.numel) : k / len < blocks := by
  apply Nat.div_lt_of_lt_mul
  rwa [Nat.mul_comm, ← h.numel_eq, h.numel]

/-- That is its channel. -/
theorem channelOf_eq {k : Nat} (hk : k < t.numel) : channelOf folded.dims k = k / len := by
  have hlt := h.div_lt hk
  obtain ⟨rest, hdims, rfl⟩ := h.dims
  rw [hdims]
  exact Nat.mod_eq_of_lt hlt

/-- **A channel is a block of the contents**, in the same order. -/
theorem plane_eq [Zero α] {b : Nat} (hb : b < blocks) : folded.plane b = t.block len b := by
  obtain ⟨rest, hdims, hlen⟩ := h.dims
  have hvolume : volume [1, blocks, len] = t.numel := by
    rw [volume_blocks, ← h.numel_eq, h.numel]
  rw [block_eq_map hvolume hb, folded.plane_eq_map h.rank (h.channels.symm ▸ hb), hdims,
    channelPlaces_one_cons, hlen, List.map_map, elem_of_toList_eq h.contents]
  rfl

end Tensor.HoldsBlocks

/-- The input of a folded call holds the channels of every sample as blocks. -/
theorem InstanceNormPlan.FoldsTo.holdsBlocks {A : Type} {p : InstanceNormPlan}
    {args folded : ForwardArgs α A} {running tiled : ChannelStats α}
    (hf : p.FoldsTo args running folded tiled) :
    folded.input.HoldsBlocks args.input (p.batch * p.channels) (volume p.spatial) :=
  .of_reshape hf.input rfl

end

/-! ## §2. Normalizing blocks. -/

variable {α A : Type} [OrderedArith A] [Element α A]

namespace Tensor

/-- The moments of block `b`. -/
def blockMoments (t : Tensor α) (len b : Nat) : ChannelMoments α A :=
  .ofValues (ofCount len) (t.block len b)

/-- Mean of a block. -/
def blockMean (t : Tensor α) (len b : Nat) : α :=
  (t.blockMoments len b).mean

/-- Inverse standard deviation of a block. -/
def blockInvstd (t : Tensor α) (eps : A) (len b : Nat) : α :=
  narrow (VarTransform.inverseStd.apply ((t.blockMoments len b).varSum / ofCount len) eps)

/-- An element normalized within its block. -/
def blockNormalizedAt (t : Tensor α) (eps : A) (len k : Nat) : α :=
  normalizeElement (t.blockMean len (k / len)) (t.blockInvstd eps len (k / len)) 1 0 (t.elem k)

/-- **The result of normalizing `blocks` blocks of `len` elements.** -/
def normalizeBlocks (t : Tensor α) (eps : A) (blocks len : Nat) (h : Addressable [blocks]) :
    Forward α where
  output := t.withContents ((List.range t.numel).map (t.blockNormalizedAt eps len)) (by simp)
  saved :=
    { mean := some (.ofVector (.ofFn fun b : Fin blocks => t.blockMean len b) h t.device)
      var := some (.ofVector (.ofFn fun b : Fin blocks => t.blockInvstd eps len b) h t.device) }
  backend := .native

@[simp] theorem dims_normalizeBlocks (t : Tensor α) (eps : A) {blocks : Nat} (len : Nat)
    (h : Addressable [blocks]) : (t.normalizeBlocks eps blocks len h).output.dims = t.dims := by
  unfold normalizeBlocks
  dsimp only
  rw [dims_withContents]

theorem elem_normalizeBlocks (t : Tensor α) (eps : A) {blocks : Nat} (len : Nat)
    (h : Addressable [blocks]) {k : Nat} (hk : k < t.numel) :
    (t.normalizeBlocks eps blocks len h).output.elem k = t.blockNormalizedAt eps len k := by
  unfold normalizeBlocks
  dsimp only
  exact elem_of_toList_eq_map toList_withContents hk

/-- A value computed for each entry of a vector is read back from it. -/
theorem elem_ofVector_ofFn {n b : Nat} (f : Nat → α) (h : Addressable [n]) (device : Device)
    (hb : b < n) : (ofVector (.ofFn fun b : Fin n => f b) h device).elem b = f b := by
  refine elem_of_toList_eq_map (n := n) (f := f) ?_ hb
  unfold ofVector
  rw [toList_build, Vector.toList_ofFn, List.ofFn_eq_map, ← List.map_coe_finRange_eq_range,
    List.map_map]
  rfl

namespace HoldsBlocks

variable {folded t : Tensor α} {blocks len : Nat} (h : folded.HoldsBlocks t blocks len)
include h

theorem momentsAt_eq {b : Nat} (hb : b < blocks) : folded.momentsAt b = t.blockMoments len b := by
  unfold momentsAt blockMoments
  rw [h.elementsPerChannel hb, h.plane_eq hb]

theorem batchMean_eq {b : Nat} (hb : b < blocks) : folded.batchMean b = t.blockMean len b := by
  unfold batchMean blockMean
  rw [h.momentsAt_eq hb]

theorem batchInvstd_eq (eps : A) {b : Nat} (hb : b < blocks) :
    folded.batchInvstd eps b = t.blockInvstd eps len b := by
  unfold batchInvstd blockInvstd
  rw [h.momentsAt_eq hb, h.elementsPerChannel hb]

end HoldsBlocks

end Tensor

/-- The same result where no affine part follows. -/
def Forward.unscaled (f : Forward α) : NormalizedForward α where
  output := f.output
  normalized := f.output
  saved := f.saved
  backend := f.backend

/-- A call on a folded input returned `g`, but for the shape of its output. -/
structure Forward.UnfoldsTo (f g : Forward α) (dims : List Nat) : Prop where
  output : f.output.reshape dims = .ok g.output
  saved : f.saved = g.saved
  backend : f.backend = g.backend

section
variable (ex : Executor) (registry : Registry α A) (enabled : Bool) {args : ForwardArgs α A}
  {running : ChannelStats α} {t : Tensor α} {blocks len : Nat}

/-- **A native call without affine parameters normalizes the blocks.** -/
theorem nativeBatchNorm_blocks (h : args.input.HoldsBlocks t blocks len)
    (haccepted : args.Accepted running) (ht : args.training = true) (hweight : args.weight = none)
    (hbias : args.bias = none) :
    ∃ f, (nativeBatchNorm ex args running).result = .ok f ∧ f.output.dims = args.input.dims
      ∧ f.UnfoldsTo (t.normalizeBlocks args.eps blocks len h.addressable) t.dims := by
  refine ⟨_, nativeBatchNorm_training ex haccepted ht, ?dims, ?output, ?saved, rfl⟩
  case dims =>
    dsimp only
    rw [Tensor.dims_withContents]
  case output =>
    refine Tensor.reshape_eq_withContents (by simp) ?_ h.device
    rw [Tensor.toList_withContents, h.numel]
    refine List.map_congr_left fun k hk => ?_
    have hk : k < t.numel := List.mem_range.1 hk
    have hb := h.div_lt hk
    unfold ForwardArgs.trainingAt Tensor.blockNormalizedAt
    dsimp only
    rw [h.channelOf_eq hk, h.batchMean_eq hb, h.batchInvstd_eq args.eps hb, hweight, hbias,
      Tensor.elem_of_toList_eq h.contents]
    rfl
  case saved =>
    have hmean := Tensor.perChannel_eq_ofVector h.channels h.addressable
      (fun b hb => h.batchMean_eq hb)
    have hinvstd := Tensor.perChannel_eq_ofVector h.channels h.addressable
      (fun b hb => h.batchInvstd_eq args.eps hb)
    unfold ForwardArgs.batchStats Tensor.normalizeBlocks
    rw [hmean, hinvstd, h.device]

/-- A call without a weight runs natively. -/
theorem batchNormForward_blocks (h : args.input.HoldsBlocks t blocks len)
    (haccepted : args.Accepted running) (ht : args.training = true) (hweight : args.weight = none)
    (hbias : args.bias = none) :
    ∃ f, (batchNormForward ex registry enabled args running).result = .ok f
      ∧ f.UnfoldsTo (t.normalizeBlocks args.eps blocks len h.addressable) t.dims := by
  obtain ⟨_, _, f, hnative, hf⟩ :=
    native_ran_of_no_weight ex registry enabled args running haccepted hweight
  obtain ⟨g, hg, _, hunfolds⟩ := nativeBatchNorm_blocks ex h haccepted ht hweight hbias
  obtain rfl : g = f := Except.ok.inj (hg.symm.trans hnative)
  exact ⟨g, hf, hunfolds⟩

/-- In particular that of layer and group normalization. -/
theorem batchNormForward_plain_blocks {folded : Tensor α} (eps : A)
    (h : folded.HoldsBlocks t blocks len) :
    ∃ f, (batchNormForward ex registry enabled (.plain folded eps) .none).result = .ok f
      ∧ f.UnfoldsTo (t.normalizeBlocks eps blocks len h.addressable) t.dims :=
  @batchNormForward_blocks α A _ _ ex registry enabled (.plain folded eps) .none t blocks len h
    (accepted_plain eps h.rank) rfl rfl rfl

end

/-! ## §3. The three variants. -/

section
variable (ex : Executor) (registry : Registry α A) (enabled : Bool) {input : Tensor α} (eps : A)

/-- **Layer normalization normalizes rows**, and applies its affine part to
them. -/
theorem layerNormForward_of_affine {leading row : List Nat} {weight bias : Option (Tensor α)}
    {output : Tensor α} (hdims : input.dims = leading ++ row) (hrow : row ≠ [])
    (hweight : ∀ t, weight = some t → t.dims = row) (hbias : ∀ t, bias = some t → t.dims = row)
    (h : Addressable [volume leading])
    (houtput : applyAffine (input.normalizeBlocks eps (volume leading) (volume row) h).output
      weight bias = .ok output) :
    (layerNormForward ex registry enabled input row weight bias eps).result
      = .ok { (input.normalizeBlocks eps (volume leading) (volume row) h).unscaled with
          output } := by
  have hplan := LayerNormPlan.ofInput_ok hdims hrow hweight hbias
  have hpair : Addressable [volume leading, volume row] :=
    Addressable.pair (hdims ▸ input.addressable)
  have hcount : volume [1, volume leading, volume row] = input.numel :=
    (volume_rows leading row).trans (congrArg volume hdims.symm)
  obtain ⟨folded, hfold, _⟩ := input.reshape_ok hcount hpair.one_cons
  have hblocks := Tensor.HoldsBlocks.of_reshape hfold (volume_singleton _)
  obtain ⟨f, hf, hunfolds⟩ := batchNormForward_plain_blocks ex registry enabled eps hblocks
  have hunfold := hunfolds.output
  rw [hdims] at hunfold
  exact layerNormForward_eq_ok.2 ⟨_, hplan, folded, f, hfold, hf, hunfold, houtput,
    hunfolds.saved.symm, hunfolds.backend.symm⟩

theorem layerNormForward_blocks {leading row : List Nat} (hdims : input.dims = leading ++ row)
    (hrow : row ≠ []) :
    ∃ h, (layerNormForward ex registry enabled input row none none eps).result
      = .ok (input.normalizeBlocks eps (volume leading) (volume row) h).unscaled := by
  have hpair : Addressable [volume leading, volume row] :=
    Addressable.pair (hdims ▸ input.addressable)
  have hnone : ∀ t : Tensor α, none = some t → t.dims = row := nofun
  exact ⟨hpair.left, layerNormForward_of_affine ex registry enabled eps hdims hrow hnone hnone
    hpair.left rfl⟩

/-- **Group normalization normalizes groups of channels**, and applies its affine
part, stretched over the channels, to them. -/
theorem groupNormForward_of_affine {N C G : Nat} {spatial : List Nat}
    {weight bias stretched shift : Option (Tensor α)} {output : Tensor α}
    (hdims : input.dims = N :: C :: spatial) (hN : 1 ≤ N) (hC : 1 ≤ C) (hG : G ∣ C)
    (hweight : ∀ t, weight = some t → t.dims = [C]) (hbias : ∀ t, bias = some t → t.dims = [C])
    (hstretched : GroupNormPlan.broadcastParam ⟨N, C, spatial, G⟩ weight = .ok stretched)
    (hshift : GroupNormPlan.broadcastParam ⟨N, C, spatial, G⟩ bias = .ok shift)
    (h : Addressable [N * G])
    (houtput : applyAffine (input.normalizeBlocks eps (N * G) (C / G * volume spatial) h).output
      stretched shift = .ok output) :
    (groupNormForward ex registry enabled input G weight bias eps).result
      = .ok { (input.normalizeBlocks eps (N * G) (C / G * volume spatial) h).unscaled with
          output } := by
  have hplan := GroupNormPlan.ofInput_ok hdims (Nat.pos_of_dvd_of_pos hG hC) hG hweight hbias
  obtain ⟨folded, hfold, hreshape⟩ := GroupNormPlan.exists_fold hdims hN hC hG
  have hblocks := Tensor.HoldsBlocks.of_reshape hreshape (volume_singleton _)
  obtain ⟨f, hf, hunfolds⟩ := batchNormForward_plain_blocks ex registry enabled eps hblocks
  have hunfold := hunfolds.output
  rw [hdims] at hunfold
  rw [← GroupNormPlan.fold_toBlocks] at hfold
  refine groupNormForward_eq_ok.2 ⟨_, stretched, shift, hplan, hstretched, hshift, folded, f,
    hfold, hf, ?_, houtput, hunfolds.saved.symm, hunfolds.backend.symm⟩
  rw [GroupNormPlan.unfold_toBlocks]
  exact hunfold

/-- One entry for every group of every sample. -/
theorem GroupNormPlan.addressable_blocks {N C G : Nat} {spatial : List Nat}
    (h : Addressable (N :: C :: spatial)) (hN : 1 ≤ N) (hC : 1 ≤ C) (hG : G ∣ C) :
    Addressable [N * G] :=
  addressable_singleton_of_mem (by simp) (addressable_groups h hN hC hG)

theorem groupNormForward_blocks {N C G : Nat} {spatial : List Nat}
    (hdims : input.dims = N :: C :: spatial) (hN : 1 ≤ N) (hC : 1 ≤ C) (hG : G ∣ C) :
    ∃ h, (groupNormForward ex registry enabled input G none none eps).result
      = .ok (input.normalizeBlocks eps (N * G) (C / G * volume spatial) h).unscaled := by
  have h := GroupNormPlan.addressable_blocks (hdims ▸ input.addressable) hN hC hG
  have hnone : ∀ t : Tensor α, none = some t → t.dims = [C] := nofun
  -- there are no parameters to stretch
  exact ⟨h, groupNormForward_of_affine ex registry enabled eps hdims hN hC hG hnone hnone rfl rfl
    h rfl⟩

/-- **Instance normalization normalizes the channels of every sample**, when it
uses the statistics of its input and has no affine parameters. -/
theorem instanceNormForward_blocks {N C : Nat} {spatial : List Nat} {args : ForwardArgs α A}
    {running : ChannelStats α} (hdims : args.input.dims = N :: C :: spatial)
    (haccepted : args.Accepted running) (ht : args.training = true) (hweight : args.weight = none)
    (hbias : args.bias = none) :
    ∃ h, (instanceNormForward ex registry enabled args running).result
      = .ok (args.input.normalizeBlocks args.eps (N * C) (volume spatial) h) := by
  let p : InstanceNormPlan := ⟨N, C, spatial, hdims ▸ args.input.addressable⟩
  have hp : args.input.dims = p.inputDims := hdims
  have hchannels : args.input.channels = p.channels := InstanceNormPlan.channels_of_dims hp
  obtain ⟨folded, tiled, hf⟩ := InstanceNormPlan.exists_foldsTo haccepted hp
  have hfaccepted : folded.Accepted tiled := (hf.accepted_iff hp).2 haccepted.foldable
  have hblocks : folded.input.HoldsBlocks args.input (N * C) (volume spatial) := hf.holdsBlocks
  -- a parameter that is absent is tiled to none
  have hfweight := hf.weight
  rw [hweight] at hfweight
  have hfbias := hf.bias
  rw [hbias] at hfbias
  obtain ⟨f, hok, hunfolds⟩ := batchNormForward_blocks ex registry enabled hblocks hfaccepted
    (hf.training.trans ht) (Except.ok.inj hfweight).symm (Except.ok.inj hfbias).symm
  have hfinish := hf.finishable hfaccepted
    (native_ran_of_no_weight ex registry enabled folded tiled hfaccepted
      (Except.ok.inj hfweight).symm)
  obtain ⟨forward, _, _, hforward, _⟩ :=
    hfinish.result_ok (hchannels ▸ haccepted.mean) (hchannels ▸ haccepted.var)
  obtain ⟨f', output, hok', hunfold, rfl⟩ := InstanceNormPlan.finish_eq_ok hforward
  obtain rfl : f' = f := Except.ok.inj (hok'.symm.trans hok)
  have hreshape := hunfolds.output
  rw [hp] at hreshape
  obtain rfl := Except.ok.inj (hunfold.symm.trans hreshape)
  refine ⟨hblocks.addressable, ?_⟩
  rw [instanceNormForward_eq_finish ex registry enabled hp hf haccepted.foldable, hforward,
    hunfolds.saved, hunfolds.backend, hf.eps]

end

/-! ## §4. Where the variants overlap. -/

/-- **Where the derived variants overlap they agree, bit for bit.**  With one
group for every channel, group normalization of a non-empty batch returns the
output and the saved statistics that instance normalization of the same input
returns, whatever running statistics that one keeps; and over all axes but the
first, layer normalization returns what group normalization with one group
does. -/
theorem derived_variants_agree (ex ex' : Executor) (registry registry' : Registry α A)
    (enabled enabled' : Bool) (input : Tensor α) {N C : Nat} {spatial : List Nat}
    (hdims : input.dims = N :: C :: spatial) (hN : 1 ≤ N) (hC : 1 ≤ C) (eps momentum : A)
    (running : ChannelStats α) (hmean : OnePerChannel C running.mean)
    (hvar : OnePerChannel C running.var) :
    (∃ f, (groupNormForward ex registry enabled input C none none eps).result = .ok f.unscaled
        ∧ (instanceNormForward ex' registry' enabled'
            { input, weight := none, bias := none, training := true, momentum, eps }
            running).result = .ok f
        ∧ f.output.dims = input.dims ∧ f.saved.mean.isSome ∧ f.saved.var.isSome
        ∧ f.backend = .native)
      ∧ ∃ f, (layerNormForward ex registry enabled input (C :: spatial) none none eps).result
            = .ok f
          ∧ (groupNormForward ex' registry' enabled' input 1 none none eps).result = .ok f
          ∧ f.output.dims = input.dims ∧ f.saved.mean.isSome ∧ f.saved.var.isSome
          ∧ f.backend = .native := by
  constructor
  · have hchannels : input.channels = C := Tensor.channels_of_cons hdims
    have haccepted : ForwardArgs.Accepted
        { input, weight := none, bias := none, training := true, momentum, eps } running :=
      ⟨Tensor.two_le_rank hdims, nofun, nofun, hchannels ▸ hmean, hchannels ▸ hvar, nofun⟩
    obtain ⟨h, hgroup⟩ := groupNormForward_blocks ex registry enabled eps hdims hN hC (dvd_refl C)
    obtain ⟨_, hinstance⟩ := instanceNormForward_blocks ex' registry' enabled' hdims haccepted rfl
      rfl rfl
    -- a group is a single channel
    rw [Nat.div_self hC, Nat.one_mul] at hgroup
    exact ⟨_, hgroup, hinstance, input.dims_normalizeBlocks eps _ h, rfl, rfl, rfl⟩
  · obtain ⟨h, hlayer⟩ := layerNormForward_blocks ex registry enabled eps
      (show input.dims = [N] ++ C :: spatial from hdims) (List.cons_ne_nil _ _)
    obtain ⟨_, hgroup⟩ := groupNormForward_blocks ex' registry' enabled' eps hdims hN hC
      (one_dvd C)
    -- the only group of a sample is its row
    rw [Nat.div_one] at hgroup
    exact ⟨_, hlayer, hgroup, input.dims_normalizeBlocks eps _ h, rfl, rfl, rfl⟩

/-- Two samples of two channels: every second column of two rows of four. -/
def stridedBatch : Tensor Float32 :=
  (Tensor.build [2, 4] (by decide) [1, 2, 3, 4, 5, 6, 7, 8] rfl .cpu).everyNth 1 2 (by decide)

/-- The folds read the same elements of a buffer that holds others in between. -/
theorem derived_variants_agree_strided :
    let eps : Float := 1
    stridedBatch.isContiguous = false
      ∧ (∃ f : Forward Float32,
          (groupNormForward ⟨.standard, 4⟩ .empty true stridedBatch 2 none none eps).result
            = .ok f.unscaled
          ∧ (instanceNormForward ⟨.standard, 1⟩ .empty false
              { input := stridedBatch, weight := none, bias := none, training := true,
                momentum := 0, eps } .none).result = .ok f)
      ∧ ∃ f : NormalizedForward Float32,
          (layerNormForward ⟨.standard, 4⟩ .empty true stridedBatch [2] none none eps).result
            = .ok f
          ∧ (groupNormForward ⟨.standard, 1⟩ .empty false stridedBatch 1 none none eps).result
            = .ok f := by
  intro eps
  have hdims : stridedBatch.dims = [2, 2] := by decide
  obtain ⟨⟨f, hgroup, hinstance, _⟩, g, hlayer, hone, _⟩ := derived_variants_agree ⟨.standard, 4⟩
    ⟨.standard, 1⟩ .empty .empty true false stridedBatch hdims (by decide) (by decide) eps 0 .none
    nofun nofun
  exact ⟨by decide, ⟨f, hgroup, hinstance⟩, g, hlayer, hone⟩

end ChannelNorm

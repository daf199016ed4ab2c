/-
  ChannelNorm.Proofs.Derived.Fold
  ───────────────────────────────
  **A FOLD CUTS THE CONTENTS INTO CONSECUTIVE BLOCKS.**

  Instance, layer and group normalization see their input as one sample whose
  channels are

      instance   N * C           channels of  spatial
      layer      rows            channels of  row length
      group      N * G           channels of  C / G * |spatial|

  Each of the three multiplies out to the number of elements, so channel `q` of
  the folded tensor is the `q`-th block of the row-major contents, however `t`
  was strided, and unfolding gives them back.  Empty axes make empty blocks.
-/
import ChannelNorm.Proofs.Derived.Blocks

namespace ChannelNorm

section
variable {α : Type} [Zero α]

/-! ## §1. Folding and unfolding. -/

namespace Tensor

/-- `t` folded to one sample of `blocks` channels of shape `rest`, and back. -/
structure Refolded (t folded back : Tensor α) (blocks : Nat) (rest : List Nat) : Prop where
  dims : folded.dims = 1 :: blocks :: rest
  /-- The blocks leave nothing over. -/
  count : blocks * volume rest = t.numel
  /-- Channel `q` is the `q`-th block of the contents. -/
  plane : ∀ q < blocks, folded.plane q = t.block (volume rest) q
  backDims : back.dims = t.dims
  backDevice : back.device = t.device
  backContents : back.toList = t.toList

/-- Both directions succeed on `t`. -/
def FoldsThrough (t : Tensor α) (fold unfold : Tensor α → Except TensorError (Tensor α))
    (blocks : Nat) (rest : List Nat) : Prop :=
  ∃ folded back, fold t = .ok folded ∧ unfold folded = .ok back
    ∧ t.Refolded folded back blocks rest

/-- **A reshape to one sample folds**, and the reshape to the old dimensions
unfolds. -/
theorem foldsThrough_reshape {t folded : Tensor α} {blocks : Nat} {rest : List Nat}
    {fold unfold : Tensor α → Except TensorError (Tensor α)}
    (hreshape : t.reshape (1 :: blocks :: rest) = .ok folded) (hfold : fold t = .ok folded)
    (hunfold : unfold folded = folded.reshape t.dims) : t.FoldsThrough fold unfold blocks rest := by
  have hblocks : folded.HoldsBlocks t blocks (volume rest) := .of_reshape hreshape rfl
  have hvolume : volume t.dims = folded.numel := hblocks.numel.symm
  obtain ⟨back, hback, hdims, hcontents⟩ := folded.reshape_ok hvolume t.addressable
  refine ⟨folded, back, hfold, hunfold.trans hback, ?_⟩
  exact
    { dims := dims_reshape hreshape
      count := hblocks.numel_eq.symm.trans hblocks.numel
      plane := fun q hq => hblocks.plane_eq hq
      backDims := hdims
      backDevice := (device_reshape hback).trans hblocks.device
      backContents := hcontents.trans hblocks.contents }

end Tensor

/-! ## §2. The three plans. -/

variable {t : Tensor α}

theorem InstanceNormPlan.foldsThrough {p : InstanceNormPlan} (h : t.dims = p.inputDims) :
    t.FoldsThrough p.fold p.unfold (p.batch * p.channels) p.spatial := by
  obtain ⟨folded, hfold, _⟩ := p.fold_ok h
  refine Tensor.foldsThrough_reshape hfold hfold ?_
  rw [h]
  rfl

theorem LayerNormPlan.foldsThrough {p : LayerNormPlan} (h : t.dims = p.inputDims) :
    t.FoldsThrough p.fold p.unfold p.rows [p.rowLen] := by
  have hcount : volume [1, p.rows, p.rowLen] = t.numel :=
    (volume_rows p.leading p.normalizedShape).trans (congrArg volume h.symm)
  have haddressable : Addressable p.inputDims := h ▸ t.addressable
  obtain ⟨folded, hfold, _⟩ := t.reshape_ok hcount haddressable.pair.one_cons
  refine Tensor.foldsThrough_reshape hfold hfold ?_
  rw [h]
  rfl

/-- Without a sample or a channel the length of a block could not be inferred. -/
theorem GroupNormPlan.foldsThrough {p : GroupNormPlan} (h : t.dims = p.inputDims)
    (hN : 1 ≤ p.batch) (hC : 1 ≤ p.channels) (hG : p.numGroups ∣ p.channels) :
    t.FoldsThrough p.fold p.unfold (p.batch * p.numGroups)
      [p.channels / p.numGroups * volume p.spatial] := by
  obtain ⟨folded, hfold, hreshape⟩ := GroupNormPlan.exists_fold h hN hC hG
  refine Tensor.foldsThrough_reshape hreshape hfold ?_
  rw [h]
  rfl

/-! ## §3. Plans of accepted inputs. -/

/-- **Every fold cuts the contents into consecutive blocks, and unfolding gives
them back.**  For a plan of `input` and any `t` of its shape, fold and unfold
succeed; the folded tensor is one sample of `N * C`, `rows` or `N * G` channels
of shape `spatial`, `[rowLen]` or `[C / G * |spatial|]`; its channel `q` in
row-major order is the `q`-th consecutive block of the contents of `t`; and what
is unfolded has the shape, device and contents of `t`.  Group normalization has
to be given a sample and a channel; any other axis may be empty. -/
theorem folds_cut_contents (input t : Tensor α) (ht : t.dims = input.dims) :
    (∀ p, InstanceNormPlan.ofInput input = .ok p →
      p.batch :: p.channels :: p.spatial = input.dims
        ∧ t.FoldsThrough p.fold p.unfold (p.batch * p.channels) p.spatial)
    ∧ (∀ row weight bias p, LayerNormPlan.ofInput input row weight bias = .ok p →
      p.leading ++ row = input.dims ∧ p.rows = volume p.leading ∧ p.rowLen = volume row
        ∧ t.FoldsThrough p.fold p.unfold p.rows [p.rowLen])
    ∧ ∀ G weight bias p, GroupNormPlan.ofInput input G weight bias = .ok p →
      1 ≤ p.batch → 1 ≤ p.channels →
      p.batch :: p.channels :: p.spatial = input.dims
        ∧ t.FoldsThrough p.fold p.unfold (p.batch * G)
            [p.channels / G * volume p.spatial] := by
  refine ⟨?_, ?_, ?_⟩
  · intro p hp
    have hdims := InstanceNormPlan.dims_of_ofInput hp
    exact ⟨hdims.symm, p.foldsThrough (ht.trans hdims)⟩
  · intro row weight bias p hp
    obtain ⟨_, _, _, leading, hdims, rfl⟩ := LayerNormPlan.ofInput_eq_ok.1 hp
    exact ⟨hdims.symm, rfl, rfl, LayerNormPlan.foldsThrough (ht.trans hdims)⟩
  · intro G weight bias p hp hN hC
    obtain ⟨N, C, spatial, hdims, rfl, _, hG, _⟩ := GroupNormPlan.ofInput_eq_ok.1 hp
    exact ⟨hdims.symm, GroupNormPlan.foldsThrough (ht.trans hdims) hN hC hG⟩

end

/-- Two samples of two channels without an element. -/
def emptyPlanes : Tensor Float32 :=
  .full [2, 2, 0] (by decide) 0

/-- Every second column of two rows of four is cut into its four elements, its
two rows and its four channels; planes without elements into empty blocks. -/
theorem folds_cut_contents_strided :
    stridedBatch.isContiguous = false
      ∧ (∃ p, InstanceNormPlan.ofInput stridedBatch = .ok p
          ∧ stridedBatch.FoldsThrough p.fold p.unfold 4 [])
      ∧ (∃ p, LayerNormPlan.ofInput stridedBatch [2] none none = .ok p
          ∧ stridedBatch.FoldsThrough p.fold p.unfold 2 [2])
      ∧ ∃ p, GroupNormPlan.ofInput emptyPlanes 1 none none = .ok p
          ∧ emptyPlanes.FoldsThrough p.fold p.unfold 2 [0] := by
  obtain ⟨hinstance, hlayer, _⟩ := folds_cut_contents stridedBatch stridedBatch rfl
  obtain ⟨_, _, hgroup⟩ := folds_cut_contents emptyPlanes emptyPlanes rfl
  have hnone : ∀ {dims : List Nat}, ∀ t : Tensor Float32, none = some t → t.dims = dims := nofun
  let samples : InstanceNormPlan := ⟨2, 2, [], by decide⟩
  have hsamples : InstanceNormPlan.ofInput stridedBatch = .ok samples :=
    InstanceNormPlan.ofInput_ok (by decide)
  have hrows : LayerNormPlan.ofInput stridedBatch [2] none none = .ok ⟨[2], [2]⟩ :=
    LayerNormPlan.ofInput_ok (by decide) (by decide) hnone hnone
  have hgroups : GroupNormPlan.ofInput emptyPlanes 1 none none = .ok ⟨2, 2, [0], 1⟩ :=
    GroupNormPlan.ofInput_ok (by decide) (by decide) (by decide) hnone hnone
  obtain ⟨_, hsamples'⟩ := hinstance _ hsamples
  obtain ⟨_, _, _, hrows'⟩ := hlayer _ _ _ _ hrows
  obtain ⟨_, hgroups'⟩ := hgroup _ _ _ _ hgroups (by decide) (by decide)
  exact ⟨by decide, ⟨_, hsamples, hsamples'⟩, ⟨_, hrows, hrows'⟩, ⟨_, hgroups, hgroups'⟩⟩

end ChannelNorm

/-
  ChannelNorm.Proofs.Derived.Piece
  ────────────────────────────────
  **PIECES OF A TENSOR, TAKEN ALONE.**

  Where contents fall into pieces of as many elements as an array of dimensions
  `dims` holds, every piece is a tensor of these dimensions of its own:

      (t.piece dims h b).elem j  =  t.elem (b * volume dims + j)

  It is contiguous and on the device of `t`, whatever the strides of `t` are.
  Piece `i` of dimensions `1 :: ds` of a tensor of dimensions `N :: ds` is its
  sample `i`, and a piece made of `n` blocks has the blocks of the tensor:

      (t.piece (1 :: ds) h i).get? (0 :: js)  =  t.get? (i :: js)
      (t.piece dims h b).block len c          =  t.block len (b * n + c)

  A statistic of a block is therefore the same in the piece and in the tensor.
-/
import Mathlib
import ChannelNorm.Proofs.Derived.Blocks
import ChannelNorm.Proofs.Tensor.Buffer
import ChannelNorm.Proofs.Tensor.Slice

namespace ChannelNorm

namespace Tensor

/-! ## §1. Pieces. -/

section
variable {α : Type} [Zero α]

/-- Piece `b` of the contents, as an array of dimensions `dims`. -/
def piece (t : Tensor α) (dims : List Nat) (h : Addressable dims) (b : Nat) : Tensor α :=
  build dims h ((List.range (volume dims)).map fun j => t.elem (b * volume dims + j)) (by simp)
    t.device

variable {t : Tensor α} {dims : List Nat} {h : Addressable dims} {b : Nat}

@[simp] theorem dims_piece : (t.piece dims h b).dims = dims :=
  dims_build

@[simp] theorem numel_piece : (t.piece dims h b).numel = volume dims :=
  congrArg volume dims_piece

theorem isContiguous_piece : (t.piece dims h b).isContiguous = true :=
  isContiguous_build

theorem elem_piece {j : Nat} (hj : j < volume dims) :
    (t.piece dims h b).elem j = t.elem (b * volume dims + j) :=
  elem_of_toList_eq_map toList_build hj

/-- The element at an index in range is the one at its place. -/
theorem get?_at_place {index : List Nat} {k : Nat} (ht : t.dims = dims)
    (hindex : index ∈ indicesOf dims) (hk : flatIndex dims index = k) :
    t.get? index = some (t.elem k) := by
  subst ht hk
  rw [t.get?_of_mem hindex, t.getElem?_toList_eq_elem (flatIndex_lt hindex)]

/-- In one block it is the last coordinate. -/
theorem get?_one_block {len j : Nat} (ht : t.dims = [1, 1, len]) (hj : j < len) :
    t.get? [0, 0, j] = some (t.elem j) := by
  refine get?_at_place ht (by simpa using hj) ?_
  rw [flatIndex_cons, flatIndex_cons, flatIndex_cons]
  simp [flatIndex, positionOf]

/-- What has the elements of piece `i` is read where sample `i` is. -/
theorem get?_sample {u : Tensor α} {N i : Nat} {ds : List Nat} (ht : t.dims = N :: ds)
    (hu : u.dims = 1 :: ds) (hi : i < N)
    (helem : ∀ j < volume ds, u.elem j = t.elem (i * volume ds + j)) (js : List Nat) :
    u.get? (0 :: js) = t.get? (i :: js) := by
  have hu' : 0 :: js ∈ indicesOf (1 :: ds) ↔ js ∈ indicesOf ds :=
    cons_mem_indicesOf.trans (and_iff_right Nat.one_pos)
  have ht' : i :: js ∈ indicesOf (N :: ds) ↔ js ∈ indicesOf ds :=
    cons_mem_indicesOf.trans (and_iff_right hi)
  by_cases hjs : js ∈ indicesOf ds
  · have hzero : flatIndex (1 :: ds) (0 :: js) = flatIndex ds js := by
      rw [flatIndex_cons, Nat.zero_mul, Nat.zero_add]
    rw [get?_at_place hu (hu'.2 hjs) hzero, get?_at_place ht (ht'.2 hjs) (flatIndex_cons ..),
      helem _ (flatIndex_lt hjs)]
  · rw [get?_of_notMem _ (hu.symm ▸ hu'.not.2 hjs), get?_of_notMem _ (ht.symm ▸ ht'.not.2 hjs)]

/-- Piece `i` of dimensions `1 :: ds` is sample `i`. -/
theorem get?_piece {N i : Nat} {ds : List Nat} {h : Addressable (1 :: ds)} (ht : t.dims = N :: ds)
    (hi : i < N) (js : List Nat) : (t.piece (1 :: ds) h i).get? (0 :: js) = t.get? (i :: js) := by
  have hvolume : volume (1 :: ds) = volume ds := by rw [volume_cons, Nat.one_mul]
  refine get?_sample ht dims_piece hi (fun j hj => ?_) js
  rw [elem_piece (hvolume.symm ▸ hj), hvolume]

/-! ## §2. Blocks of a piece. -/

/-- A piece of `n` blocks has the blocks of the tensor, from block `b * n` on. -/
theorem block_piece {n blocks len c : Nat} (hdims : volume dims = n * len)
    (ht : t.numel = blocks * len) (hc : c < n) (hb : b * n + c < blocks) :
    (t.piece dims h b).block len c = t.block len (b * n + c) := by
  have hpiece : volume [1, n, len] = (t.piece dims h b).numel := by
    rw [numel_piece, hdims, volume_blocks]
  have htensor : volume [1, blocks, len] = t.numel := by
    rw [ht, volume_blocks]
  rw [block_eq_map hpiece hc, block_eq_map htensor hb]
  apply List.map_congr_left
  intro s hs
  have hlt : c * len + s < volume dims := hdims.symm ▸ place_lt hc (List.mem_range.1 hs)
  rw [elem_piece hlt, hdims, ← Nat.add_assoc, ← Nat.mul_assoc, Nat.add_mul]

/-- A piece of one sample holds its channels as blocks. -/
theorem holdsBlocks_piece (t : Tensor α) {n : Nat} {rest : List Nat}
    (h : Addressable (1 :: n :: rest)) (b : Nat) :
    (t.piece _ h b).HoldsBlocks (t.piece _ h b) n (volume rest) :=
  ⟨⟨rest, dims_piece, rfl⟩, rfl, rfl⟩

end

section
variable {α A : Type} [OrderedArith A] [Element α A] {t : Tensor α} {dims : List Nat}
  {h : Addressable dims} {n blocks len b c : Nat} (hdims : volume dims = n * len)
  (ht : t.numel = blocks * len) (hc : c < n) (hb : b * n + c < blocks)
include hdims ht hc hb

/-- The moments of a block are those it has in a piece. -/
theorem blockMoments_piece :
    (t.piece dims h b).blockMoments len c = t.blockMoments len (b * n + c) := by
  unfold blockMoments
  rw [block_piece hdims ht hc hb]

theorem blockMean_piece : (t.piece dims h b).blockMean len c = t.blockMean len (b * n + c) :=
  congrArg ChannelMoments.mean (blockMoments_piece hdims ht hc hb)

theorem blockInvstd_piece (eps : A) :
    (t.piece dims h b).blockInvstd eps len c = t.blockInvstd eps len (b * n + c) := by
  unfold blockInvstd
  rw [blockMoments_piece hdims ht hc hb]

end

end Tensor

/-! ## §3. A block normalized alone. -/

section
variable {α A : Type} [OrderedArith A] [Element α A]

/-- **A block alone is normalized as it is among the others**: the places and the
statistics of the native call on it are those of the block. -/
theorem nativeBatchNorm_piece (ex : Executor) {t : Tensor α} {blocks len b : Nat}
    (ht : t.numel = blocks * len) (hb : b < blocks) (h : Addressable [1, 1, len])
    (momentum eps : A) :
    ∃ (alone : Forward α) (mean invstd : Tensor α),
      (nativeBatchNorm ex
          { input := t.piece [1, 1, len] h b, weight := none, bias := none, training := true,
            momentum, eps } .none).result = .ok alone
      ∧ alone.output.dims = [1, 1, len] ∧ alone.saved = ⟨some mean, some invstd⟩
      ∧ mean.elem 0 = t.blockMean len b ∧ invstd.elem 0 = t.blockInvstd eps len b
      ∧ ∀ j < len, alone.output.elem j = t.blockNormalizedAt eps len (b * len + j) := by
  have hvolume : volume [1, 1, len] = len := by rw [volume_blocks, Nat.one_mul]
  have hblocks := t.holdsBlocks_piece h b
  rw [volume_singleton] at hblocks
  have haccepted : ForwardArgs.Accepted
      { input := t.piece [1, 1, len] h b, weight := none, bias := none, training := true,
        momentum, eps } .none :=
    ⟨hblocks.rank, nofun, nofun, nofun, nofun, nofun⟩
  obtain ⟨alone, halone, hdims, hunfolds⟩ := nativeBatchNorm_blocks ex hblocks haccepted rfl rfl rfl
  -- its only block is block `b`
  have hmean := t.blockMean_piece (h := h) (volume_blocks 1 len) ht Nat.one_pos
    (show b * 1 + 0 < blocks by omega)
  have hinvstd := t.blockInvstd_piece (h := h) (volume_blocks 1 len) ht Nat.one_pos
    (show b * 1 + 0 < blocks by omega) eps
  rw [Nat.mul_one, Nat.add_zero] at hmean hinvstd
  refine ⟨alone, _, _, halone, hdims.trans Tensor.dims_piece, hunfolds.saved, ?mean, ?invstd,
    ?output⟩
  case mean => rw [Tensor.elem_ofVector_ofFn _ _ _ Nat.one_pos, hmean]
  case invstd => rw [Tensor.elem_ofVector_ofFn _ _ _ Nat.one_pos, hinvstd]
  case output =>
    intro j hj
    have hj' : j < volume [1, 1, len] := hvolume.symm ▸ hj
    have helem : (t.piece [1, 1, len] h b).elem j = t.elem (b * len + j) := by
      rw [Tensor.elem_piece hj', hvolume]
    rw [← Tensor.elem_of_toList_eq (Tensor.toList_reshape hunfolds.output),
      Tensor.elem_normalizeBlocks _ _ _ _ (by rwa [Tensor.numel_piece])]
    unfold Tensor.blockNormalizedAt
    rw [place_div hj, Nat.div_eq_of_lt hj, hmean, hinvstd, helem]

end

end ChannelNorm

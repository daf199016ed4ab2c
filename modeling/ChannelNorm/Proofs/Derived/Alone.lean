/-
  ChannelNorm.Proofs.Derived.Alone
  ────────────────────────────────
  **LAYER AND GROUP NORMALIZATION NORMALIZE EVERY BLOCK ALONE.**

  What a row, or a group of channels of a sample, is normalized to does not
  depend on anything outside of it: it is, bit for bit, what the native kernel
  makes of it as a tensor of its own, of one sample and one channel.

      layer   row r                    block r          L = volume row
      group   group g of sample i      block i * G + g  L = C / G * volume spatial

  Place `j` of block `b` is place `b * L + j` of the contents.  For groups the
  index `(i, c, p)` lies in group `c / (C / G)` at the channel `c % (C / G)` of
  the block, since the channels of a group follow one another.  The affine part
  comes after that and reads entry `j` of a row, or the entry of the channel; an
  absent factor or summand is left out.
-/
import Mathlib
import ChannelNorm.Proofs.Derived.Piece

namespace ChannelNorm

variable {α A : Type} [OrderedArith A] [Element α A]

/-! ## §1. Blocks that are scaled and shifted. -/

/-- **A block normalized, scaled and shifted among others**: the statistics and the
places of the block are those of the native call on it alone, place `k` of the whole
then being scaled and shifted by entry `entry k` of the parameters. -/
theorem normalizeBlocks_alone (ex : Executor) {input output : Tensor α} {blocks len : Nat}
    {weight bias : Option (Tensor α)} {entry : Nat → Nat} (eps momentum : A)
    (hnumel : input.numel = blocks * len) (hone : Addressable [1, 1, len])
    (h : Addressable [blocks])
    (helem : ∀ k < input.numel,
      output.elem k = affineAt weight bias (entry k) (input.blockNormalizedAt eps len k))
    {b : Nat} (hb : b < blocks) :
    let whole := input.normalizeBlocks eps blocks len h
    let alone := input.piece [1, 1, len] hone b
    ∃ (r : Forward α) (m s : Tensor α),
      (nativeBatchNorm ex
          { input := alone, weight := none, bias := none, training := true, momentum, eps }
          .none).result = .ok r
      ∧ r.output.dims = [1, 1, len] ∧ r.saved = ⟨some m, some s⟩
      ∧ paramAt whole.saved.mean 0 b = m.elem 0 ∧ paramAt whole.saved.var 0 b = s.elem 0
      ∧ ∀ j < len,
          alone.elem j = input.elem (b * len + j)
          ∧ whole.output.elem (b * len + j) = r.output.elem j
          ∧ output.elem (b * len + j)
            = affineAt weight bias (entry (b * len + j)) (r.output.elem j) := by
  intro whole alone
  obtain ⟨r, m, s, hr, hdims, hsaved, hm, hs, hplaces⟩ :=
    nativeBatchNorm_piece ex hnumel hb hone momentum eps
  refine ⟨r, m, s, hr, hdims, hsaved, ?mean, ?invstd, fun j hj => ?places⟩
  case mean => exact (Tensor.elem_ofVector_ofFn _ _ _ hb).trans hm.symm
  case invstd => exact (Tensor.elem_ofVector_ofFn _ _ _ hb).trans hs.symm
  case places =>
    have hplace : b * len + j < input.numel := hnumel.symm ▸ place_lt hb hj
    have hvolume : volume [1, 1, len] = len := by rw [volume_blocks, Nat.one_mul]
    rw [hplaces j hj]
    refine ⟨?_, input.elem_normalizeBlocks eps len h hplace, helem _ hplace⟩
    rw [Tensor.elem_piece (hvolume.symm ▸ hj), hvolume]

/-! ## §2. Rows. -/

section
variable (ex ex' : Executor) (registry : Registry α A) (enabled : Bool) {input : Tensor α}
  {leading row : List Nat} {weight bias : Option (Tensor α)} (eps momentum : A)

/-- The affine part of layer normalization reads the parameters row by row. -/
theorem layerNormForward_rows (hdims : input.dims = leading ++ row) (hrow : row ≠ [])
    (hweight : ∀ t, weight = some t → t.dims = row) (hbias : ∀ t, bias = some t → t.dims = row)
    (h : Addressable [volume leading]) :
    ∃ output, (layerNormForward ex registry enabled input row weight bias eps).result
        = .ok { (input.normalizeBlocks eps (volume leading) (volume row) h).unscaled with output }
      ∧ output.dims = input.dims
      ∧ ∀ k < input.numel, output.elem k
        = affineAt weight bias (k % volume row) (input.blockNormalizedAt eps (volume row) k) := by
  let normalized := (input.normalizeBlocks eps (volume leading) (volume row) h).output
  have hndims : normalized.dims = input.dims := input.dims_normalizeBlocks eps _ h
  have hstretch : ∀ {param : Option (Tensor α)}, (∀ t, param = some t → t.dims = row) →
      ∀ t, param = some t → t.StretchedBy normalized.dims fun k => k % volume row := by
    intro param hparam
    rw [hndims, hdims]
    exact stretchedBy_row leading hparam
  obtain ⟨output, houtput, hodims, helem⟩ :=
    applyAffine_pointwise normalized (hstretch hweight) (hstretch hbias)
  refine ⟨output, layerNormForward_of_affine ex registry enabled eps hdims hrow hweight hbias h
    houtput, hodims.trans hndims, fun k hk => ?_⟩
  have hk' : k < normalized.numel := by
    rw [Tensor.numel, hndims]
    exact hk
  rw [helem k hk', input.elem_normalizeBlocks eps _ h hk]

/-- **Layer normalization normalizes every row alone, bit for bit.**  For
parameters of the shape of a row, or none, the call succeeds.  Row `r` of what it
normalizes is what the native training call returns for the row as a tensor of
dimensions `(1, 1, L)`, its saved statistics are those of that call, and place `j`
of the row is scaled and shifted by entry `j` of the parameters.  That the call
succeeds takes memory to be there: no allocation fails and no capacity overflows. -/
theorem layer_rows_normalized_alone (hdims : input.dims = leading ++ row) (hrow : row ≠ [])
    (hweight : ∀ t, weight = some t → t.dims = row)
    (hbias : ∀ t, bias = some t → t.dims = row) :
    ∃ (h : Addressable [1, 1, volume row]) (f : NormalizedForward α) (mean invstd : Tensor α),
      (layerNormForward ex registry enabled input row weight bias eps).result = .ok f
      ∧ f.normalized.dims = input.dims ∧ f.output.dims = input.dims
      ∧ f.saved = ⟨some mean, some invstd⟩
      ∧ mean.dims = [volume leading] ∧ invstd.dims = [volume leading]
      ∧ ∀ r < volume leading,
          let L := volume row
          let alone := input.piece [1, 1, L] h r
          ∃ (g : Forward α) (m s : Tensor α),
            (nativeBatchNorm ex'
                { input := alone, weight := none, bias := none, training := true, momentum, eps }
                .none).result = .ok g
            ∧ g.output.dims = [1, 1, L] ∧ g.saved = ⟨some m, some s⟩
            ∧ mean.elem r = m.elem 0 ∧ invstd.elem r = s.elem 0
            ∧ ∀ j < L,
                alone.elem j = input.elem (r * L + j)
                ∧ f.normalized.elem (r * L + j) = g.output.elem j
                ∧ f.output.elem (r * L + j) = affineAt weight bias j (g.output.elem j) := by
  have hpair : Addressable [volume leading, volume row] :=
    Addressable.pair (hdims ▸ input.addressable)
  have halone : Addressable [1, 1, volume row] :=
    (addressable_singleton_of_mem (by simp) hpair).one_cons.one_cons
  have hnumel : input.numel = volume leading * volume row := by
    unfold Tensor.numel
    rw [hdims, volume_append]
  have hndims := input.dims_normalizeBlocks eps (volume row) hpair.left
  obtain ⟨output, hresult, hodims, helem⟩ := layerNormForward_rows ex registry enabled eps hdims
    hrow hweight hbias hpair.left
  refine ⟨halone, _, _, _, hresult, hndims, hodims, rfl, Tensor.dims_build, Tensor.dims_build,
    fun r hr => ?_⟩
  obtain ⟨g, m, s, hg, hgdims, hsaved, hmean, hinvstd, hplaces⟩ :=
    normalizeBlocks_alone ex' eps momentum hnumel halone hpair.left helem hr
  refine ⟨g, m, s, hg, hgdims, hsaved, hmean, hinvstd, fun j hj => ?_⟩
  obtain ⟨hread, hnormalized, hscaled⟩ := hplaces j hj
  rw [Nat.mul_add_mod_of_lt hj] at hscaled
  exact ⟨hread, hnormalized, hscaled⟩

end

/-- The second row of a batch of two, with every element doubled in the end. -/
theorem layer_rows_normalized_alone_strided :
    let eps : Float := 1
    let weight : Tensor Float32 := .few 2 2
    stridedBatch.isContiguous = false
      ∧ ∃ (h : Addressable [1, 1, 2]) (f : NormalizedForward Float32) (g : Forward Float32),
        (layerNormForward ⟨.standard, 4⟩ .empty true stridedBatch [2] (some weight) none eps).result
          = .ok f
        ∧ (nativeBatchNorm ⟨.standard, 1⟩
            { input := stridedBatch.piece [1, 1, 2] h 1, weight := none, bias := none,
              training := true, momentum := 0, eps } .none).result = .ok g
        ∧ ∀ j < 2, f.normalized.elem (2 + j) = g.output.elem j
            ∧ f.output.elem (2 + j) = affineAt (some weight) none j (g.output.elem j) := by
  intro eps weight
  have hdims : stridedBatch.dims = [2] ++ [2] := by decide
  have hweight : ∀ t, some weight = some t → t.dims = [2] := by
    rintro t ⟨⟩
    rfl
  have hbias : ∀ t : Tensor Float32, none = some t → t.dims = [2] := nofun
  obtain ⟨h, f, _, _, hf, _, _, _, _, _, hrows⟩ := layer_rows_normalized_alone ⟨.standard, 4⟩
    ⟨.standard, 1⟩ .empty true eps 0 hdims (by decide) hweight hbias
  obtain ⟨g, _, _, hg, _, _, _, _, hplaces⟩ := hrows 1 (by decide)
  exact ⟨by decide, h, f, g, hf, hg, fun j hj => (hplaces j hj).2⟩

/-! ## §3. Groups of channels. -/

section
variable {N C G : Nat} {spatial : List Nat}

/-- Channel `c` belongs to one of the groups. -/
theorem group_lt (hG : G ∣ C) {c : Nat} (hc : c < C) : c / (C / G) < G := by
  apply Nat.div_lt_of_lt_mul
  rwa [Nat.div_mul_cancel hG]

/-- **Groups are blocks**: a position of channel `c` of sample `i` lies in block
`i * G + c / (C / G)`, at the same position of channel `c % (C / G)`. -/
theorem flatIndex_group (hG : G ∣ C) (i c : Nat) (p : List Nat) :
    flatIndex (N :: C :: spatial) (i :: c :: p)
      = (i * G + c / (C / G)) * (C / G * volume spatial)
        + (c % (C / G) * volume spatial + flatIndex spatial p) := by
  -- whole groups in front of the channel, then the channels of its group
  have hgroups : G * (C / G) = C := Nat.mul_div_cancel' hG
  have hchannel : C / G * (c / (C / G)) + c % (C / G) = c := Nat.div_add_mod c (C / G)
  calc i * (C * volume spatial) + (c * volume spatial + flatIndex spatial p)
      = i * (G * (C / G) * volume spatial)
        + ((C / G * (c / (C / G)) + c % (C / G)) * volume spatial + flatIndex spatial p) := by
          rw [hgroups, hchannel]
    _ = _ := by ring

end

section
variable (ex ex' : Executor) (registry : Registry α A) (enabled : Bool) {input : Tensor α}
  {N C G : Nat} {spatial : List Nat} {weight bias : Option (Tensor α)} (eps momentum : A)

/-- The affine part of group normalization reads the parameters by channel. -/
theorem groupNormForward_channels (hdims : input.dims = N :: C :: spatial) (hN : 1 ≤ N)
    (hC : 1 ≤ C) (hG : G ∣ C) (hweight : ∀ t, weight = some t → t.dims = [C])
    (hbias : ∀ t, bias = some t → t.dims = [C]) (h : Addressable [N * G]) :
    ∃ output, (groupNormForward ex registry enabled input G weight bias eps).result
        = .ok { (input.normalizeBlocks eps (N * G) (C / G * volume spatial) h).unscaled with
            output }
      ∧ output.dims = input.dims
      ∧ ∀ k < input.numel, output.elem k
        = affineAt weight bias (channelOf input.dims k)
            (input.blockNormalizedAt eps (C / G * volume spatial) k) := by
  let normalized := (input.normalizeBlocks eps (N * G) (C / G * volume spatial) h).output
  have hndims : normalized.dims = input.dims := input.dims_normalizeBlocks eps _ h
  obtain ⟨stretched, hstretched, hwat, hwsome, hscale⟩ :=
    GroupNormPlan.broadcastParam_ok N G spatial hweight
  obtain ⟨shift, hshift, hbat, hbsome, hoffset⟩ :=
    GroupNormPlan.broadcastParam_ok N G spatial hbias
  rw [← hdims, ← hndims] at hscale hoffset
  obtain ⟨output, houtput, hodims, helem⟩ := applyAffine_pointwise normalized hscale hoffset
  refine ⟨output, groupNormForward_of_affine ex registry enabled eps hdims hN hC hG hweight hbias
    hstretched hshift h houtput, hodims.trans hndims, fun k hk => ?_⟩
  have hk' : k < normalized.numel := by
    rw [Tensor.numel, hndims]
    exact hk
  -- stretched parameters have the entries of those given
  rw [helem k hk', hndims, input.elem_normalizeBlocks eps _ h hk]
  unfold affineAt
  rw [combinedAt_congr hwsome fun d => congrFun (hwat d) _,
    combinedAt_congr hbsome fun d => congrFun (hbat d) _]

/-- **Group normalization normalizes every group of a sample alone, bit for
bit.**  For a batch that is not empty, groups that divide the channels and
parameters of one entry for every channel, or none, the call succeeds.  Group `g`
of sample `i`, the channels `g * (C / G)` and those that follow, is taken as a
tensor of dimensions `(1, 1, L)`; what is normalized holds what the native training
call returns for it, each position where it was, the saved statistics are those of
that call, and channel `c` is scaled and shifted by entry `c` of the parameters.
That the call succeeds takes memory to be there: no allocation fails and no
capacity overflows. -/
theorem groups_normalized_alone (hdims : input.dims = N :: C :: spatial) (hN : 1 ≤ N)
    (hC : 1 ≤ C) (hG : G ∣ C) (hweight : ∀ t, weight = some t → t.dims = [C])
    (hbias : ∀ t, bias = some t → t.dims = [C]) :
    let L := C / G * volume spatial
    ∃ (h : Addressable [1, 1, L]) (f : NormalizedForward α) (mean invstd : Tensor α),
      (groupNormForward ex registry enabled input G weight bias eps).result = .ok f
      ∧ f.normalized.dims = input.dims ∧ f.output.dims = input.dims
      ∧ f.saved = ⟨some mean, some invstd⟩ ∧ mean.dims = [N * G] ∧ invstd.dims = [N * G]
      ∧ ∀ i < N, ∀ c < C,
          let g := c / (C / G)
          let alone := input.piece [1, 1, L] h (i * G + g)
          ∃ (r : Forward α) (m s : Tensor α),
            (nativeBatchNorm ex'
                { input := alone, weight := none, bias := none, training := true, momentum, eps }
                .none).result = .ok r
            ∧ r.output.dims = [1, 1, L] ∧ r.saved = ⟨some m, some s⟩
            ∧ mean.elem (i * G + g) = m.elem 0 ∧ invstd.elem (i * G + g) = s.elem 0
            ∧ ∀ p ∈ indicesOf spatial,
                let place := [0, 0, c % (C / G) * volume spatial + flatIndex spatial p]
                alone.get? place = input.get? (i :: c :: p)
                ∧ ∃ x, r.output.get? place = some x
                    ∧ f.normalized.get? (i :: c :: p) = some x
                    ∧ f.output.get? (i :: c :: p) = some (affineAt weight bias c x) := by
  intro L
  have hgroups : Addressable [1, N * G, L] :=
    addressable_groups (hdims ▸ input.addressable) hN hC hG
  have hone : Addressable [1, 1, L] :=
    (addressable_singleton_of_mem (by simp) hgroups).one_cons.one_cons
  have hblocks : Addressable [N * G] := addressable_singleton_of_mem (by simp) hgroups
  -- the groups of all samples fill the contents
  have hnumel : input.numel = N * G * L := by
    unfold Tensor.numel
    rw [hdims, ← volume_groups hG, volume_blocks]
  have hndims := input.dims_normalizeBlocks eps L hblocks
  obtain ⟨output, hresult, hodims, helem⟩ := groupNormForward_channels ex registry enabled eps
    hdims hN hC hG hweight hbias hblocks
  refine ⟨hone, _, _, _, hresult, hndims, hodims, rfl, Tensor.dims_build, Tensor.dims_build,
    fun i hi c hc => ?_⟩
  intro g alone
  obtain ⟨r, m, s, hr, hrdims, hsaved, hmean, hinvstd, hplaces⟩ := normalizeBlocks_alone ex' eps
    momentum hnumel hone hblocks helem (place_lt hi (group_lt hG hc))
  refine ⟨r, m, s, hr, hrdims, hsaved, hmean, hinvstd, fun p hp => ?_⟩
  have hindex : i :: c :: p ∈ indicesOf (N :: C :: spatial) :=
    cons_mem_indicesOf.2 ⟨hi, cons_mem_indicesOf.2 ⟨hc, hp⟩⟩
  have hflat : flatIndex (N :: C :: spatial) (i :: c :: p) = _ := flatIndex_group hG i c p
  -- the position within the group
  have hwithin : c % (C / G) < C / G :=
    Nat.mod_lt c (Nat.div_pos (Nat.le_of_dvd hC hG) (Nat.pos_of_dvd_of_pos hG hC))
  have hj : c % (C / G) * volume spatial + flatIndex spatial p < L :=
    place_lt hwithin (flatIndex_lt hp)
  obtain ⟨hread, hnormalized, hscaled⟩ := hplaces _ hj
  rw [← hflat, hdims, channelOf_flatIndex hindex, hflat] at hscaled
  refine ⟨?_, r.output.elem _, Tensor.get?_one_block hrdims hj, ?_, ?_⟩
  · rw [Tensor.get?_one_block Tensor.dims_piece hj, hread]
    exact (Tensor.get?_at_place hdims hindex hflat).symm
  · exact (Tensor.get?_at_place (hndims.trans hdims) hindex hflat).trans
      (congrArg some hnormalized)
  · exact (Tensor.get?_at_place (hodims.trans hdims) hindex hflat).trans (congrArg some hscaled)

end

/-- The second channel of a second sample whose channels form one group, one added
to each element in the end. -/
theorem groups_normalized_alone_strided :
    let eps : Float := 1
    let bias : Tensor Float32 := .few 2 1
    stridedBatch.isContiguous = false
      ∧ ∃ (h : Addressable [1, 1, 2]) (f : NormalizedForward Float32) (r : Forward Float32)
          (x : Float32),
        (groupNormForward ⟨.standard, 4⟩ .empty true stridedBatch 1 none (some bias) eps).result
          = .ok f
        ∧ (nativeBatchNorm ⟨.standard, 1⟩
            { input := stridedBatch.piece [1, 1, 2] h 1, weight := none, bias := none,
              training := true, momentum := 0, eps } .none).result = .ok r
        ∧ r.output.get? [0, 0, 1] = some x ∧ f.normalized.get? [1, 1] = some x
        ∧ f.output.get? [1, 1] = some (affineAt none (some bias) 1 x) := by
  intro eps bias
  have hdims : stridedBatch.dims = [2, 2] := by decide
  have hbias : ∀ t, some bias = some t → t.dims = [2] := by
    rintro t ⟨⟩
    rfl
  have hweight : ∀ t : Tensor Float32, none = some t → t.dims = [2] := nofun
  obtain ⟨h, f, _, _, hf, _, _, _, _, _, hgroups⟩ := groups_normalized_alone ⟨.standard, 4⟩
    ⟨.standard, 1⟩ .empty true eps 0 hdims (by decide) (by decide) (one_dvd 2) hweight hbias
  obtain ⟨r, _, _, hr, _, _, _, _, hplaces⟩ := hgroups 1 (by decide) 1 (by decide)
  obtain ⟨_, x, hx, hnormalized, houtput⟩ := hplaces [] (mem_indicesOf_nil.2 rfl)
  exact ⟨by decide, h, f, r, x, hf, hr, hx, hnormalized, houtput⟩

end ChannelNorm

/-
  ChannelNorm.Proofs.Replay.Adjoint
  ─────────────────────────────────
  **REDUCTIONS ARE THE ADJOINTS OF EXPANSIONS.**

  A forward expands a parameter `p` to one value per place, place `k` reading
  entry `slot k`; its backward reduces a gradient `g` to one value per entry:

                 expansion                  slot k              reduction
      instance   N copies end to end        k % C               sum over samples
      layer      over the leading axes      k % |row|           sum over rows
      group      over `[1, C, 1, …]`        channel of k        sum over planes, samples

  In exact arithmetic entry `j` of each reduction is the sum of `g` over the
  places that read `j`.  A place reads one entry, so every element is counted
  once, and with `⟨x, y⟩` the sum of products

      ⟨expand p, g⟩ = ⟨p, reduce g⟩
-/
import Mathlib
import ChannelNorm.Proofs.BatchNorm.Inference
import ChannelNorm.Proofs.Replay.Recorded
import ChannelNorm.Proofs.Replay.Tile

namespace ChannelNorm

open Finset

/-! ## §1. Products added up place by place, and entry by entry. -/

/-- **What is read from a parameter may be collected by the entry read.** -/
theorem sum_read_mul {R : Type} [CommSemiring R] {n m : ℕ} {slot : ℕ → ℕ}
    (hslot : ∀ k < n, slot k < m) (p g : ℕ → R) :
    ∑ k ∈ range n, p (slot k) * g k
      = ∑ j ∈ range m, p j * ∑ k ∈ range n with slot k = j, g k := by
  have hmaps : ∀ k ∈ range n, slot k ∈ range m := fun k hk =>
    mem_range.2 (hslot k (mem_range.1 hk))
  rw [← sum_fiberwise_of_maps_to hmaps]
  refine sum_congr rfl fun j _ => ?_
  rw [mul_sum]
  refine sum_congr rfl fun k hk => ?_
  rw [(mem_filter.1 hk).2]

section
variable {α : Type} [Arith α]

/-- The sum of the products of values in the same place. -/
def innerProduct (xs ys : List α) : α :=
  sumInOrder (List.zipWith (· * ·) xs ys)

/-- The sum of the elements at the places that read entry `j`. -/
def Tensor.sumReading (g : Tensor α) (slot : ℕ → ℕ) (j : ℕ) : α :=
  sumInOrder (((List.range g.numel).filter fun k => slot k = j).map g.elem)

/-- Every place reads an entry of `p`; `expanded` are the values read, and
`reduced` holds for each entry the sum of `g` over the places that read it. -/
structure SumsWhatReads (slot : ℕ → ℕ) (p g : Tensor α) (expanded : List α)
    (reduced : Tensor α) : Prop where
  slot_lt : ∀ k < g.numel, slot k < p.numel
  expanded : expanded = (List.range g.numel).map fun k => p.elem (slot k)
  reduced : reduced.toList = (List.range p.numel).map (g.sumReading slot)

variable [LawfulArith α]

/-- **Reading and summing what reads are adjoint.** -/
theorem SumsWhatReads.adjoint {slot : ℕ → ℕ} {p g : Tensor α} {expanded : List α}
    {reduced : Tensor α} (h : SumsWhatReads slot p g expanded reduced) :
    innerProduct expanded g.toList = innerProduct p.toList reduced.toList := by
  let _ := LawfulArith.commRing α
  have hreading : ∀ j, g.sumReading slot j = ∑ k ∈ range g.numel with slot k = j, g.elem k :=
    fun j => sumInOrder_eq_sum _
  have hread := sum_read_mul h.slot_lt p.elem g.elem
  simp only [← hreading] at hread
  unfold innerProduct
  rw [h.expanded, h.reduced, g.toList_eq_map_elem, p.toList_eq_map_elem, List.zipWith_map,
    List.zipWith_self, List.zipWith_map, List.zipWith_self, sumInOrder_eq_sum, sumInOrder_eq_sum]
  exact hread

/-! ## §2. Sums over rows and over planes. -/

/-- A visit of a channel goes through the places that read its entry. -/
theorem sumInOrder_channelPlaces {dims : List Nat} {g : Tensor α} {c : Nat}
    (hrank : 2 ≤ dims.length) (hc : c < dims.getD 1 0) (hvolume : volume dims = g.numel) :
    sumInOrder ((channelPlaces .rows dims c).map g.elem) = g.sumReading (channelOf dims) c := by
  have hvisit : (channelPlaces .rows dims c).Perm
      ((List.range g.numel).filter fun k => channelOf dims k = c) := by
    refine (List.perm_ext_iff_of_nodup (nodup_channelPlaces .rows hrank hc)
      (List.nodup_range.filter _)).2 fun k => ?_
    rw [mem_channelPlaces hrank hc, List.mem_filter, List.mem_range, decide_eq_true_iff, hvolume]
  exact sumInOrder_perm (hvisit.map g.elem)

variable {g : Tensor α}

/-- Summing the rows of the contents sums, for each column, the places in it. -/
theorem toList_sumRows {rows : Tensor α} {R L : Nat} (hdims : rows.dims = [R, L])
    (hlist : rows.toList = g.toList) (hvolume : volume [R, L] = g.numel) :
    (rows.sumAxis 0).toList = (List.range L).map (g.sumReading (· % L)) := by
  have hslot : channelOf [R, L] = (· % L) := funext fun k => by
    show k / 1 % L = k % L
    rw [Nat.div_one]
  rw [rows.toList_sumAxis_pair hdims, Tensor.elem_of_toList_eq hlist, ← hslot]
  refine List.map_congr_left fun j hj => ?_
  exact sumInOrder_channelPlaces (show 2 ≤ [R, L].length from Nat.le_refl 2)
    (List.mem_range.1 hj) hvolume

/-- Summing planes and then samples sums, for each channel, the places in it. -/
theorem toList_sumPlanes {planes : Tensor α} {N C : Nat} {spatial : List Nat}
    (hdims : planes.dims = [N, C, volume spatial]) (hlist : planes.toList = g.toList)
    (hvolume : volume [N, C, volume spatial] = g.numel) :
    ((planes.sumAxis 2).sumAxis 0).toList
      = (List.range C).map (g.sumReading (channelOf (N :: C :: spatial))) := by
  have hslot : channelOf [N, C, volume spatial] = channelOf (N :: C :: spatial) :=
    funext fun k => by
      show k / volume [volume spatial] % C = k / volume spatial % C
      rw [volume_singleton]
  rw [planes.toList_sumAxis_planes hdims, Tensor.elem_of_toList_eq hlist, ← hslot]
  refine List.map_congr_left fun c hc => ?_
  exact sumInOrder_channelPlaces (show 2 ≤ [N, C, volume spatial].length from Nat.le_succ 2)
    (List.mem_range.1 hc) hvolume

/-! ## §3. The three plans. -/

variable {p : Tensor α}

/-- **Tiling a parameter and summing over the samples.** -/
theorem InstanceNormPlan.sumsWhatReads (plan : InstanceNormPlan) (hp : p.numel = plan.channels)
    (hg : g.numel = plan.batch * plan.channels) :
    ∃ tiled reduced, plan.repeatParam (some p) = .ok (some tiled) ∧ plan.sumParam g = .ok reduced
      ∧ reduced.dims = [plan.channels]
      ∧ SumsWhatReads (· % plan.channels) p g tiled.toList reduced := by
  have hone : OnePerChannel plan.channels (some p) := by
    rintro _ ⟨⟩
    exact hp
  obtain ⟨stretched, hstretched⟩ := InstanceNormPlan.repeatParam_ok hone
  have htiled := InstanceNormPlan.repeatParam_tiled hone hstretched
  obtain ⟨tiled, rfl⟩ := Option.isSome_iff_exists.1 htiled.isSome
  have hnumel : tiled.numel = g.numel := (htiled.onePerChannel tiled rfl).trans hg.symm
  have hvolume : volume [plan.batch, plan.channels] = g.numel := (volume_pair _ _).trans hg.symm
  obtain ⟨rows, hrows, hdims, hlist⟩ := g.reshape_ok hvolume plan.addressable_samples
  refine ⟨tiled, rows.sumAxis 0, hstretched, ?_, ?_, ?_, ?_, ?_⟩
  · unfold sumParam
    rw [hrows]
    rfl
  · rw [Tensor.dims_sumAxis, hdims]
    rfl
  · intro k hk
    rw [hg] at hk
    rw [hp]
    exact Nat.mod_lt k (Nat.pos_of_mul_pos_left (Nat.zero_lt_of_lt hk))
  · rw [tiled.toList_eq_map_elem, hnumel]
    refine List.map_congr_left fun k hk => ?_
    exact htiled.reads 0 k (hg ▸ List.mem_range.1 hk)
  · rw [hp]
    exact toList_sumRows hdims hlist hvolume

/-- **Repeating a row and summing over the rows.** -/
theorem LayerNormPlan.sumsWhatReads {leading row : List Nat} (h : Addressable (leading ++ row))
    (hp : p.dims = row) (hg : g.numel = volume (leading ++ row)) :
    ∃ values reduced, p.broadcast? (leading ++ row) = some values
      ∧ reduceToParam ⟨leading, row⟩ g = .ok reduced ∧ reduced.dims = row
      ∧ SumsWhatReads (· % volume row) p g values.toList reduced := by
  have hrow : ∀ t, some p = some t → t.dims = row := by
    rintro _ ⟨⟩
    exact hp
  obtain ⟨values, hvalues, hread⟩ := stretchedBy_row leading hrow p rfl
  have hnumel : p.numel = volume row := congrArg volume hp
  have hvolume : volume [volume leading, volume row] = g.numel := by
    rw [volume_pair, ← volume_append, hg]
  obtain ⟨rows, hrows, hdims, hlist⟩ := g.reshape_ok hvolume h.pair
  have hsdims : (rows.sumAxis 0).dims = [volume row] := by
    rw [Tensor.dims_sumAxis, hdims]
    rfl
  obtain ⟨reduced, hreduced, hrdims, hrlist⟩ := (rows.sumAxis 0).reshape_ok
    (Tensor.numel_of_dims_singleton hsdims).symm h.right
  refine ⟨values, reduced, hvalues, ?_, hrdims, ?_, ?_, ?_⟩
  · unfold reduceToParam
    exact bind_eq_ok.2 ⟨rows, hrows, hreduced⟩
  · intro k hk
    rw [hg, volume_append] at hk
    rw [hnumel]
    exact Nat.mod_lt k (Nat.pos_of_mul_pos_left (Nat.zero_lt_of_lt hk))
  · rw [hread, hg]
  · rw [hrlist, hnumel]
    exact toList_sumRows hdims hlist hvolume

/-- **Stretching a vector over the channels and summing every channel.** -/
theorem GroupNormPlan.sumsWhatReads {N C : Nat} (G : Nat) {spatial : List Nat}
    (h : Addressable (N :: C :: spatial)) (hN : 1 ≤ N) (hC : 1 ≤ C) (hp : p.dims = [C])
    (hg : g.numel = volume (N :: C :: spatial)) :
    ∃ stretched values reduced,
      broadcastParam ⟨N, C, spatial, G⟩ (some p) = .ok (some stretched)
      ∧ stretched.broadcast? (N :: C :: spatial) = some values
      ∧ reduceToChannels ⟨N, C, spatial, G⟩ g = .ok reduced ∧ reduced.dims = [C]
      ∧ SumsWhatReads (channelOf (N :: C :: spatial)) p g values.toList reduced := by
  have hvector : ∀ t, some p = some t → t.dims = [C] := by
    rintro _ ⟨⟩
    exact hp
  obtain ⟨q, hq, hentry, hsome, hby⟩ := GroupNormPlan.broadcastParam_ok N G spatial hvector
  obtain ⟨stretched, rfl⟩ := Option.isSome_iff_exists.1 hsome
  obtain ⟨values, hvalues, hread⟩ := hby stretched rfl
  have helem : stretched.elem = p.elem := hentry 0
  have hnumel : p.numel = C := Tensor.numel_of_dims_singleton hp
  obtain ⟨planes, hplanes, hdims, hlist⟩ := GroupNormPlan.exists_planes h hN hC hg
  have hvolume : volume [N, C, volume spatial] = g.numel := by
    rw [← hdims]
    exact (Tensor.length_toList planes).symm.trans (hlist ▸ g.length_toList)
  refine ⟨stretched, values, (planes.sumAxis 2).sumAxis 0, hq, hvalues, ?_, ?_, ?_, ?_, ?_⟩
  · unfold reduceToChannels
    exact bind_eq_ok.2 ⟨planes, hplanes, rfl⟩
  · rw [Tensor.dims_sumAxis, Tensor.dims_sumAxis, hdims]
    rfl
  · intro k hk
    rw [hg] at hk
    rw [hnumel]
    exact channelOf_lt (show 2 ≤ (N :: C :: spatial).length from Nat.le_add_left 2 _) hk
  · rw [hread, hg, helem]
  · rw [hnumel]
    exact toList_sumPlanes hdims hlist hvolume

/-! ## §4. Adjoint pairs. -/

/-- **The parameter reductions are the adjoints of the parameter expansions.**  In
exact arithmetic, for every plan and every gradient `g` of as many elements as
are expanded to, laid out in any way: tiling a parameter of one value per
channel and summing over the samples; broadcasting a parameter of the shape of a
row and summing over the rows; stretching a vector over the channels and summing
over all other axes.  In each pair entry `j` of the sums adds up exactly the
places whose expanded value is entry `j` of the parameter. -/
theorem reductions_adjoint_to_expansions :
    (∀ (plan : InstanceNormPlan) (p g : Tensor α), p.numel = plan.channels →
      g.numel = plan.batch * plan.channels →
      ∃ tiled reduced, plan.repeatParam (some p) = .ok (some tiled)
        ∧ plan.sumParam g = .ok reduced ∧ reduced.dims = [plan.channels]
        ∧ innerProduct tiled.toList g.toList = innerProduct p.toList reduced.toList
        ∧ SumsWhatReads (· % plan.channels) p g tiled.toList reduced)
    ∧ (∀ (input : Tensor α) (row : List Nat) (weight bias : Option (Tensor α)) plan,
      LayerNormPlan.ofInput input row weight bias = .ok plan →
      ∀ p g : Tensor α, p.dims = row → g.numel = input.numel →
      ∃ values reduced, p.broadcast? input.dims = some values
        ∧ plan.reduceToParam g = .ok reduced ∧ reduced.dims = row
        ∧ innerProduct values.toList g.toList = innerProduct p.toList reduced.toList
        ∧ SumsWhatReads (· % volume row) p g values.toList reduced)
    ∧ ∀ (input : Tensor α) (G : Nat) (weight bias : Option (Tensor α)) plan,
      GroupNormPlan.ofInput input G weight bias = .ok plan → 0 < plan.batch * plan.channels →
      ∀ p g : Tensor α, p.dims = [plan.channels] → g.numel = input.numel →
      ∃ stretched values reduced, plan.broadcastParam (some p) = .ok (some stretched)
        ∧ stretched.broadcast? input.dims = some values
        ∧ plan.reduceToChannels g = .ok reduced ∧ reduced.dims = [plan.channels]
        ∧ innerProduct values.toList g.toList = innerProduct p.toList reduced.toList
        ∧ SumsWhatReads (channelOf input.dims) p g values.toList reduced := by
  refine ⟨?samples, ?rows, ?channels⟩
  case samples =>
    intro plan p g hp hg
    obtain ⟨tiled, reduced, htiled, hreduced, hdims, hreads⟩ := plan.sumsWhatReads hp hg
    exact ⟨tiled, reduced, htiled, hreduced, hdims, hreads.adjoint, hreads⟩
  case rows =>
    intro input row weight bias plan hplan p g hp hg
    obtain ⟨_, _, _, leading, hdims, rfl⟩ := LayerNormPlan.ofInput_eq_ok.1 hplan
    have haddressable : Addressable (leading ++ row) := hdims ▸ input.addressable
    obtain ⟨values, reduced, hvalues, hreduced, hrdims, hreads⟩ :=
      LayerNormPlan.sumsWhatReads haddressable hp (hg.trans (congrArg volume hdims))
    rw [hdims]
    exact ⟨values, reduced, hvalues, hreduced, hrdims, hreads.adjoint, hreads⟩
  case channels =>
    intro input G weight bias plan hplan hpos p g hp hg
    obtain ⟨N, C, spatial, hdims, rfl, _⟩ := GroupNormPlan.ofInput_eq_ok.1 hplan
    have haddressable : Addressable (N :: C :: spatial) := hdims ▸ input.addressable
    obtain ⟨stretched, values, reduced, hstretched, hvalues, hreduced, hrdims, hreads⟩ :=
      GroupNormPlan.sumsWhatReads G haddressable (Nat.pos_of_mul_pos_right hpos)
        (Nat.pos_of_mul_pos_left hpos) hp (hg.trans (congrArg volume hdims))
    rw [hdims]
    exact ⟨stretched, values, reduced, hstretched, hvalues, hreduced, hrdims, hreads.adjoint,
      hreads⟩

end

/-- Two samples of two channels: whichever plan expands `[2, 3]` and reduces
`[1, 2, 3, 4]`, both products are `2 · 1 + 3 · 2 + 2 · 3 + 3 · 4`. -/
theorem reductions_adjoint_to_expansions_sample :
    (∃ (plan : InstanceNormPlan) (tiled reduced : Tensor ℝ),
      plan.repeatParam (some (samplePair 2 3)) = .ok (some tiled)
        ∧ plan.sumParam sampleBatch = .ok reduced
        ∧ innerProduct tiled.toList sampleBatch.toList = 26
        ∧ innerProduct (samplePair 2 3).toList reduced.toList = 26)
    ∧ (∃ (plan : LayerNormPlan) (reduced : Tensor ℝ),
      LayerNormPlan.ofInput sampleBatch [2] none none = .ok plan
        ∧ plan.reduceToParam sampleBatch = .ok reduced
        ∧ innerProduct (samplePair 2 3).toList reduced.toList = 26)
    ∧ ∃ (plan : GroupNormPlan) (reduced : Tensor ℝ),
      GroupNormPlan.ofInput sampleBatch 1 none none = .ok plan
        ∧ plan.reduceToChannels sampleBatch = .ok reduced
        ∧ innerProduct (samplePair 2 3).toList reduced.toList = 26 := by
  obtain ⟨hsamples, hrows, hchannels⟩ := @reductions_adjoint_to_expansions ℝ _ _
  have hnone : ∀ {dims : List Nat}, ∀ t : Tensor ℝ, none = some t → t.dims = dims := nofun
  -- all three read the entries in turn
  have hproduct : ∀ {slot : ℕ → ℕ} {expanded : List ℝ} {reduced : Tensor ℝ},
      (List.range 4).map slot = [0, 1, 0, 1] →
      SumsWhatReads slot (samplePair 2 3) sampleBatch expanded reduced →
      innerProduct expanded sampleBatch.toList = 26 := by
    intro slot expanded reduced hslot hreads
    have hread : expanded = ((List.range 4).map slot).map (samplePair 2 3).elem := by
      rw [hreads.expanded, List.map_map]
      rfl
    rw [hread, hslot]
    show (0 : ℝ) + 2 * 1 + 3 * 2 + 2 * 3 + 3 * 4 = 26
    norm_num
  refine ⟨?_, ?_, ?_⟩
  · obtain ⟨tiled, reduced, htiled, hreduced, _, hadjoint, hreads⟩ :=
      hsamples ⟨2, 2, [], by decide⟩ (samplePair 2 3) sampleBatch rfl rfl
    have htotal := hproduct rfl hreads
    exact ⟨_, tiled, reduced, htiled, hreduced, htotal, hadjoint.symm.trans htotal⟩
  · have hplan : LayerNormPlan.ofInput sampleBatch [2] none none = .ok ⟨[2], [2]⟩ :=
      LayerNormPlan.ofInput_ok rfl (by decide) hnone hnone
    obtain ⟨_, reduced, _, hreduced, _, hadjoint, hreads⟩ :=
      hrows sampleBatch [2] none none _ hplan (samplePair 2 3) sampleBatch rfl rfl
    exact ⟨_, reduced, hplan, hreduced, hadjoint.symm.trans (hproduct rfl hreads)⟩
  · have hplan : GroupNormPlan.ofInput sampleBatch 1 none none = .ok ⟨2, 2, [], 1⟩ :=
      GroupNormPlan.ofInput_ok rfl (by decide) (by decide) hnone hnone
    obtain ⟨_, _, reduced, _, _, hreduced, _, hadjoint, hreads⟩ :=
      hchannels sampleBatch 1 none none _ hplan (by decide) (samplePair 2 3) sampleBatch rfl rfl
    exact ⟨_, reduced, hplan, hreduced, hadjoint.symm.trans (hproduct rfl hreads)⟩

end ChannelNorm

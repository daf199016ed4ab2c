/-
  ChannelNorm.Proofs.Replay.Tile
  ──────────────────────────────
  **PARAMETERS LAID END TO END, SUMMED AND AVERAGED.**

  Instance normalization turns `N` samples of `C` channels into `N * C`
  channels, channel `j` of which is channel `j % C` of sample `j / C`.  A tiled
  parameter holds at `j` the entry `j % C`; a tiled gradient is summed, and a
  tiled statistic averaged, over the `N` channels `c, C + c, 2 C + c, …`:

      tile      t ↦ (j ↦ t (j % C))
      sum       t ↦ (c ↦ Σ t (n C + c))
      average   t ↦ (c ↦ Σ t (n C + c) / N)

  Over the reals the average of a tiled statistic is the statistic.
-/
import Mathlib
import ChannelNorm.InstanceNorm
import ChannelNorm.Proofs.BatchNorm.Check
import ChannelNorm.Proofs.Tensor.Alike
import ChannelNorm.Proofs.Tensor.Reduce

namespace ChannelNorm

open Finset

variable {α : Type}

/-! ## §1. Copies laid end to end. -/

theorem length_flatten_replicate (n : Nat) (xs : List α) :
    (List.replicate n xs).flatten.length = n * xs.length := by
  rw [List.length_flatten, List.map_replicate, List.sum_replicate_nat]

/-- Copies of one list repeat with its length. -/
theorem getD_flatten_replicate {n j : Nat} {xs : List α} (hj : j < n * xs.length) (d : α) :
    (List.replicate n xs).flatten.getD j d = xs.getD (j % xs.length) d := by
  -- on the copies; the first one is passed over
  induction n generalizing j with
  | zero =>
      rw [Nat.zero_mul] at hj
      exact absurd hj (Nat.not_lt_zero j)
  | succ n ih =>
      rw [List.replicate_succ, List.flatten_cons]
      rcases Nat.lt_or_ge j xs.length with hlt | hge
      · rw [List.getD_append _ _ _ _ hlt, Nat.mod_eq_of_lt hlt]
      · rw [List.getD_append_right _ _ _ _ hge, Nat.mod_eq_sub_mod hge]
        apply ih
        rw [Nat.succ_mul] at hj
        omega

/-- The copies of a parameter, one per sample, can be addressed. -/
def Tileable (samples : Nat) (param : Option (Tensor α)) : Prop :=
  ∀ t, param = some t → Addressable [samples * t.numel]

/-- The average of copies of one value, added up one after the other. -/
def averageOfCopies [Arith α] (n : Nat) (x : α) : α :=
  sumInOrder (List.replicate n x) / ofCount n

/-- Over the reals the average of copies is the value. -/
theorem averageOfCopies_real {n : Nat} (hn : 0 < n) (x : ℝ) : averageOfCopies n x = x := by
  have hne : (n : ℝ) ≠ 0 := Nat.cast_ne_zero.2 (Nat.pos_iff_ne_zero.1 hn)
  unfold averageOfCopies
  rw [sumInOrder_real, List.sum_replicate, nsmul_eq_mul, ofCount_real,
    mul_div_cancel_left₀ _ hne]

namespace InstanceNormPlan

variable {p : InstanceNormPlan}

/-! ## §2. Shapes of a plan. -/

theorem addressable_foldedDims (p : InstanceNormPlan) : Addressable p.foldedDims := by
  have hle := extent_volume_cons_le [p.batch, p.channels] p.spatial
  rw [volume_pair] at hle
  exact Addressable.one_cons (Nat.le_trans hle p.addressable)

theorem addressable_tiled (p : InstanceNormPlan) : Addressable [p.batch * p.channels] := by
  refine addressable_singleton_of_mem ?_ p.addressable_foldedDims
  exact List.mem_cons_of_mem _ List.mem_cons_self

theorem addressable_samples (p : InstanceNormPlan) : Addressable [p.batch, p.channels] :=
  Addressable.left p.addressable

/-- Folding keeps the number of elements. -/
theorem volume_foldedDims (p : InstanceNormPlan) : volume p.foldedDims = volume p.inputDims := by
  show 1 * (p.batch * p.channels * volume p.spatial) = p.batch * (p.channels * volume p.spatial)
  rw [Nat.one_mul, Nat.mul_assoc]

/-- The channel of a place is that of its folded channel. -/
theorem channelOf_foldedDims_mod (p : InstanceNormPlan) (k : Nat) :
    channelOf p.foldedDims k % p.channels = channelOf p.inputDims k := by
  show k / volume p.spatial % (p.batch * p.channels) % p.channels
    = k / volume p.spatial % p.channels
  exact Nat.mod_mod_of_dvd _ (Nat.dvd_mul_left _ _)

/-! ## §3. Tiling. -/

/-- **A parameter is tiled exactly if its copies can be addressed**, to a vector of
the copies. -/
theorem tileParam_outcome (p : InstanceNormPlan) (t : Tensor α) :
    (Addressable [p.batch * t.numel] ∧ ∃ r, p.tileParam t = .ok r ∧ r.dims = [p.batch * t.numel])
      ∨ (¬ Addressable [p.batch * t.numel] ∧ p.tileParam t = .error .addressOverflow) := by
  have hnumel : Addressable [t.numel] := by
    have hle := extent_volume_cons_le t.dims []
    rw [List.append_nil] at hle
    exact Nat.le_trans hle t.addressable
  obtain ⟨flat, hflat, hdims, hlist⟩ := t.reshape_ok (volume_singleton _) hnumel
  have hrank : flat.rank = 1 := congrArg List.length hdims
  have hlen : (Tensor.tiled p.batch flat.toList).length = p.batch * t.numel := by
    rw [Tensor.tiled_eq_flatten, length_flatten_replicate, hlist, Tensor.length_toList]
  have htile : p.tileParam t = flat.tile p.batch := by
    unfold tileParam
    rw [hflat]
    rfl
  rw [htile, ← hlen]
  unfold Tensor.tile
  rw [if_pos hrank]
  dsimp only
  split
  next haddr => exact .inl ⟨haddr, _, rfl, Tensor.dims_build⟩
  next haddr => exact .inr ⟨haddr, rfl⟩

/-- One value per channel can be tiled. -/
theorem tileParam_ok {t : Tensor α} (h : t.numel = p.channels) :
    ∃ r, p.tileParam t = .ok r := by
  rcases p.tileParam_outcome t with ⟨_, r, hr, _⟩ | ⟨hnot, _⟩
  · exact ⟨r, hr⟩
  · rw [h] at hnot
    exact absurd p.addressable_tiled hnot

/-- What was tiled holds one copy per sample. -/
theorem tileParam_eq {t r : Tensor α} (h : p.tileParam t = .ok r) :
    r.numel = p.batch * t.numel ∧ r.toList = (List.replicate p.batch t.toList).flatten := by
  unfold tileParam at h
  cases hflat : t.reshape [t.numel] with
  | error e =>
      rw [hflat] at h
      cases h
  | ok flat =>
      rw [hflat] at h
      replace h : flat.tile p.batch = .ok r := h
      have hlist : r.toList = (List.replicate p.batch t.toList).flatten := by
        obtain ⟨_, _, rfl⟩ := Tensor.tile_eq_build h
        rw [Tensor.toList_build, Tensor.tiled_eq_flatten, Tensor.toList_reshape hflat]
      refine ⟨?_, hlist⟩
      rw [← Tensor.length_toList, hlist, length_flatten_replicate, Tensor.length_toList]

/-- Tiling reads nothing of a tensor but its contents and device. -/
theorem tileParam_alike {t u : Tensor α} (h : t.Alike u) : p.tileParam t = p.tileParam u := by
  unfold tileParam Tensor.reshape
  simp only [h.numel, h.contents, h.device, h.dims]

section
variable {param tiled : Option (Tensor α)}

/-- A parameter that fits a plan: one value per channel, or, where there is no
sample to tile it for, anything. -/
def Fits (p : InstanceNormPlan) (param : Option (Tensor α)) : Prop :=
  0 < p.batch → OnePerChannel p.channels param

/-- A parameter that may be missing is tiled exactly if its copies can be
addressed. -/
theorem repeatParam_outcome (p : InstanceNormPlan) (param : Option (Tensor α)) :
    (Tileable p.batch param ∧ ∃ tiled, p.repeatParam param = .ok tiled)
      ∨ (¬ Tileable p.batch param ∧ p.repeatParam param = .error .addressOverflow) := by
  cases param with
  | none => exact .inl ⟨nofun, none, rfl⟩
  | some t =>
      have hmap : p.repeatParam (some t) = (p.tileParam t).map some := rfl
      rw [hmap]
      rcases p.tileParam_outcome t with ⟨haddr, r, hr, _⟩ | ⟨hnot, hr⟩
      · rw [hr]
        exact .inl ⟨fun _ hu => Option.some.inj hu ▸ haddr, some r, rfl⟩
      · rw [hr]
        exact .inr ⟨fun htileable => hnot (htileable t rfl), rfl⟩

theorem repeatParam_ok_of_tileable (h : Tileable p.batch param) :
    ∃ tiled, p.repeatParam param = .ok tiled :=
  (p.repeatParam_outcome param).elim (·.2) fun hnot => absurd h hnot.1

/-- A parameter that fits can be tiled. -/
theorem Fits.repeatParam_ok (h : p.Fits param) : ∃ tiled, p.repeatParam param = .ok tiled := by
  apply repeatParam_ok_of_tileable
  intro t ht
  rcases Nat.eq_zero_or_pos p.batch with hzero | hpos
  · rw [hzero, Nat.zero_mul]
    decide
  · rw [h hpos t ht]
    exact p.addressable_tiled

theorem repeatParam_ok (h : OnePerChannel p.channels param) :
    ∃ tiled, p.repeatParam param = .ok tiled :=
  Fits.repeatParam_ok fun _ => h

/-- A tiled parameter is missing, or holds the copies. -/
theorem repeatParam_cases (h : p.repeatParam param = .ok tiled) :
    (param = none ∧ tiled = none)
      ∨ ∃ t r, param = some t ∧ tiled = some r ∧ p.tileParam t = .ok r := by
  cases param with
  | none =>
      cases h
      exact .inl ⟨rfl, rfl⟩
  | some t =>
      replace h : (p.tileParam t).map some = .ok tiled := h
      cases hr : p.tileParam t with
      | error e =>
          rw [hr] at h
          cases h
      | ok r =>
          rw [hr] at h
          cases h
          exact .inr ⟨t, r, rfl, rfl, hr⟩

/-- A parameter tiled by a plan: a copy of each entry for each sample. -/
structure Tiled [Zero α] (p : InstanceNormPlan) (param tiled : Option (Tensor α)) : Prop where
  isSome : tiled.isSome = param.isSome
  onePerChannel : OnePerChannel (p.batch * p.channels) tiled
  reads : ∀ default, ∀ j < p.batch * p.channels,
    paramAt tiled default j = paramAt param default (j % p.channels)

/-- What fits is tiled to copies. -/
theorem Fits.repeatParam_tiled [Zero α] (h : p.Fits param)
    (hr : p.repeatParam param = .ok tiled) : p.Tiled param tiled := by
  rcases repeatParam_cases hr with ⟨rfl, rfl⟩ | ⟨t, r, rfl, rfl, htile⟩
  · exact ⟨rfl, nofun, fun _ _ _ => rfl⟩
  · obtain ⟨hnumel, hlist⟩ := tileParam_eq htile
    rcases Nat.eq_zero_or_pos p.batch with hzero | hpos
    · -- no sample, no copy
      refine ⟨rfl, ?_, ?_⟩
      · rintro _ ⟨⟩
        rw [hnumel, hzero, Nat.zero_mul, Nat.zero_mul]
      · intro default j hj
        rw [hzero, Nat.zero_mul] at hj
        exact absurd hj (Nat.not_lt_zero j)
    · have hchannels : t.numel = p.channels := h hpos t rfl
      have hlen : t.toList.length = p.channels := t.length_toList.trans hchannels
      refine ⟨rfl, ?_, ?_⟩
      · rintro _ ⟨⟩
        rw [hnumel, hchannels]
      · intro default j hj
        show r.toList.getD j 0 = t.toList.getD (j % p.channels) 0
        rw [← hlen] at hj ⊢
        rw [hlist, getD_flatten_replicate hj]

theorem repeatParam_tiled [Zero α] (h : OnePerChannel p.channels param)
    (hr : p.repeatParam param = .ok tiled) : p.Tiled param tiled :=
  Fits.repeatParam_tiled (fun _ => h) hr

/-- Only one value per channel tiles to one value per sample and channel. -/
theorem onePerChannel_of_repeatParam (hbatch : 0 < p.batch)
    (hr : p.repeatParam param = .ok tiled)
    (h : OnePerChannel (p.batch * p.channels) tiled) : OnePerChannel p.channels param := by
  rcases repeatParam_cases hr with ⟨rfl, rfl⟩ | ⟨t, r, rfl, rfl, htile⟩
  · exact nofun
  · rintro _ ⟨⟩
    have hnumel := (tileParam_eq htile).1
    rw [h r rfl] at hnumel
    exact Nat.eq_of_mul_eq_mul_left hbatch hnumel.symm

theorem repeatParam_alike {q : Option (Tensor α)} (h : OptionAlike param q) :
    p.repeatParam param = p.repeatParam q := by
  cases h with
  | none => rfl
  | some h => exact congrArg (Except.map some) (tileParam_alike h)

end

/-! ## §4. Sums and averages over the samples. -/

/-- Channel `c` of sample `n` is a folded channel. -/
theorem sample_lt {n c : Nat} (hn : n < p.batch) (hc : c < p.channels) :
    n * p.channels + c < p.batch * p.channels :=
  place_lt hn hc

/-- A tiled parameter holds there the entry of its channel. -/
theorem Tiled.reads_sample [Zero α] {param tiled : Option (Tensor α)} (h : p.Tiled param tiled)
    (default : α) {n c : Nat} (hn : n < p.batch) (hc : c < p.channels) :
    paramAt tiled default (n * p.channels + c) = paramAt param default c := by
  rw [h.reads default _ (sample_lt hn hc), Nat.mul_add_mod_of_lt hc]

/-- The average of each channel of a tiled statistic, added up in the order of
the samples; without samples, the value of an average over nothing. -/
def averages [Arith α] (p : InstanceNormPlan) (tiled : Tensor α) : List α :=
  (List.range p.channels).map fun c =>
    sumInOrder ((List.range p.batch).map fun n => tiled.elem (n * p.channels + c))
      / ofCount p.batch

theorem length_averages [Arith α] (p : InstanceNormPlan) (tiled : Tensor α) :
    (p.averages tiled).length = p.channels := by
  simp [averages]

/-- Without samples every channel averages over nothing. -/
theorem averages_of_batch_eq_zero [Arith α] (hbatch : p.batch = 0) (tiled : Tensor α) :
    p.averages tiled = List.replicate p.channels Arith.undefined := by
  unfold averages
  rw [hbatch]
  show (List.range p.channels).map (fun _ => Arith.undefined) = _
  rw [List.map_const', List.length_range]

/-- **The averages of a tiled parameter are averages of copies.** -/
theorem averages_tiled [Arith α] {t u : Tensor α} (h : p.Tiled (some t) (some u))
    (hsize : t.numel = p.channels) :
    p.averages u = t.toList.map (averageOfCopies p.batch) := by
  unfold averages
  rw [t.toList_eq_map_elem, List.map_map, hsize]
  apply List.map_congr_left
  intro c hc
  have hc : c < p.channels := List.mem_range.1 hc
  have hcopies : (List.range p.batch).map (fun n => u.elem (n * p.channels + c))
      = List.replicate p.batch (t.elem c) := by
    rw [← List.length_range (n := p.batch), ← List.map_const', List.length_range]
    apply List.map_congr_left
    intro n hn
    exact h.reads_sample 0 (List.mem_range.1 hn) hc
  rw [hcopies]
  rfl

/-- **Averaging over the samples**, whatever arithmetic is. -/
theorem averageParam_eq [Arith α] {tiled : Tensor α} (h : tiled.numel = p.batch * p.channels) :
    ∃ r, p.averageParam tiled = .ok r ∧ r.dims = [p.channels]
      ∧ r.toList = p.averages tiled := by
  unfold averageParam
  split
  next hbatch =>
    have hchannels : Addressable [p.channels] :=
      addressable_singleton_of_mem (by simp) p.addressable
    refine ⟨_, rfl, ?_, ?_⟩
    · show (Tensor.full [p.channels] hchannels (Arith.undefined : α)).dims = _
      exact Tensor.dims_build
    · show (Tensor.full [p.channels] hchannels (Arith.undefined : α)).toList = _
      rw [averages_of_batch_eq_zero hbatch, Tensor.full, Tensor.toList_build, volume_singleton]
  next =>
    obtain ⟨rows, hrows, hdims, hlist⟩ :=
      tiled.reshape_ok ((volume_pair _ _).trans h.symm) p.addressable_samples
    have hsums := Tensor.toList_sumAxis_rows (Tensor.axes_reshape hrows)
    have hsdims : (rows.sumAxis 0).dims = [p.channels] := by
      rw [Tensor.dims_sumAxis, hdims]
      rfl
    rw [hrows]
    refine ⟨rows.averageAxis0, rfl, hsdims, ?_⟩
    unfold Tensor.averageAxis0
    dsimp only
    rw [Tensor.toList_overwrite (by rw [List.length_map, Tensor.length_toList]), hsums, hdims,
      List.map_map, Tensor.elem_of_toList_eq hlist]
    rfl

/-- The places of one channel among those of all samples. -/
theorem sum_samples {N C c : Nat} (hc : c < C) (f : ℕ → ℝ) :
    ∑ j ∈ channelSet [N, C] c, f j = ∑ n ∈ range N, f (n * C + c) := by
  have hflat : ∀ n, flatIndex [N, C] [n, c] = n * C + c := fun n => by
    show n * (C * 1) + (c * 1 + 0) = _
    rw [Nat.mul_one, Nat.mul_one, Nat.add_zero]
  rw [← sum_channelPlaces .rows (show 2 ≤ [N, C].length from Nat.le_refl 2) hc,
    channelPlaces_pair, List.map_map,
    ← List.sum_toFinset _ List.nodup_range, List.toFinset_range]
  exact sum_congr rfl fun n _ => congrArg f (hflat n)

section
variable {tiled : Tensor ℝ}

/-- The contents of a tiled tensor, sample by sample, summed over the samples. -/
theorem sumAxis_samples (h : tiled.numel = p.batch * p.channels) :
    ∃ rows, tiled.reshape [p.batch, p.channels] = .ok rows ∧ rows.dims = [p.batch, p.channels]
      ∧ (rows.sumAxis 0).dims = [p.channels]
      ∧ ∀ c < p.channels,
          (rows.sumAxis 0).elem c = ∑ n ∈ range p.batch, tiled.elem (n * p.channels + c) := by
  obtain ⟨rows, hrows, hdims, hlist⟩ :=
    tiled.reshape_ok ((volume_pair _ _).trans h.symm) p.addressable_samples
  refine ⟨rows, hrows, hdims, ?_, fun c hc => ?_⟩
  · rw [Tensor.dims_sumAxis, hdims]
    rfl
  · rw [rows.elem_sumAxis_rows hdims hc, Tensor.elem_of_toList_eq hlist, sum_samples hc]

/-- A tensor that sums a tiled one over the samples. -/
structure SumOverSamples (N C : ℕ) (tiled summed : Tensor ℝ) : Prop where
  dims : summed.dims = [C]
  elem : ∀ c < C, summed.elem c = ∑ n ∈ range N, tiled.elem (n * C + c)

theorem sumParam_ok (h : tiled.numel = p.batch * p.channels) :
    ∃ r, p.sumParam tiled = .ok r ∧ SumOverSamples p.batch p.channels tiled r := by
  obtain ⟨rows, hrows, _, hdims, helem⟩ := sumAxis_samples h
  refine ⟨rows.sumAxis 0, ?_, hdims, helem⟩
  unfold sumParam
  rw [hrows]
  rfl

end

/-! ## §5. Statistics written back. -/

section
variable {A : Type} [OrderedArith A] [Element α A] {caller tiled : Option (Tensor α)}

/-- **Writing back**: the averages are written through the caller's strides, if
there is one for each of its elements. -/
theorem writeBack_eq {caller tiled : Tensor α} (h : tiled.numel = p.batch * p.channels) :
    p.writeBack (some caller) (some tiled)
      = if caller.numel = p.channels then .ok (some (caller.overwrite (p.averages tiled)))
        else .error (.reshapeCount p.channels caller.dims [p.channels]) := by
  obtain ⟨averaged, haverage, hdims, hlist⟩ := averageParam_eq h
  have hnumel : averaged.numel = p.channels := Tensor.numel_of_dims_singleton hdims
  have hunfolded : p.writeBack (some caller) (some tiled)
      = averaged.reshape caller.dims >>= fun shaped => (caller.copyFrom shaped).map some := by
    unfold writeBack
    dsimp only
    rw [haverage]
    rfl
  rw [hunfolded]
  split
  next hcaller =>
    obtain ⟨shaped, hshaped, hsdims, hslist⟩ :=
      averaged.reshape_ok (hcaller.trans hnumel.symm) caller.addressable
    have hsame : caller.sameShape shaped = true := Tensor.sameShape_of_dims hsdims.symm
    rw [hshaped]
    show (caller.copyFrom shaped).map some = _
    unfold Tensor.copyFrom
    rw [if_pos hsame, hslist, hlist]
    rfl
  next hcaller =>
    have hvolume : ¬ volume caller.dims = averaged.numel := by
      rwa [hnumel]
    unfold Tensor.reshape
    rw [dif_neg hvolume, hnumel, hdims]
    rfl

theorem writeBack_ok (hcaller : OnePerChannel p.channels caller)
    (htiled : OnePerChannel (p.batch * p.channels) tiled) :
    ∃ r, p.writeBack caller tiled = .ok r ∧ OnePerChannel p.channels r := by
  cases caller with
  | none => exact ⟨none, rfl, nofun⟩
  | some t =>
      cases tiled with
      | none => exact ⟨some t, rfl, hcaller⟩
      | some u =>
          refine ⟨some (t.overwrite (p.averages u)), ?_, ?_⟩
          · rw [writeBack_eq (htiled u rfl), if_pos (hcaller t rfl)]
          · rintro _ ⟨⟩
            exact hcaller t rfl

end

section
variable {caller tiled : Option (Tensor ℝ)}

/-- **Writing back a statistic that is still as it was tiled changes no value.** -/
theorem writeBack_tiled (hbatch : 0 < p.batch) (hcaller : OnePerChannel p.channels caller)
    (h : p.Tiled caller tiled) :
    ∃ r, p.writeBack caller tiled = .ok r ∧ OptionAlike r caller := by
  cases caller with
  | none => exact ⟨none, rfl, .refl _⟩
  | some t =>
      obtain ⟨u, rfl⟩ := Option.isSome_iff_exists.1 h.isSome
      have hchannels : t.numel = p.channels := hcaller t rfl
      have hlist : p.averages u = t.toList := by
        rw [averages_tiled h hchannels, funext (averageOfCopies_real hbatch)]
        exact List.map_id' _
      refine ⟨some (t.overwrite (p.averages u)), ?_, .some ⟨rfl, rfl, ?_⟩⟩
      · rw [writeBack_eq (h.onePerChannel u rfl), if_pos hchannels]
      · rw [Tensor.toList_overwrite (by rw [length_averages, hchannels]), hlist]

end

end InstanceNormPlan

end ChannelNorm

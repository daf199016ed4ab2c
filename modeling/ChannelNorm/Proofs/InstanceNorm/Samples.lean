/-
  ChannelNorm.Proofs.InstanceNorm.Samples
  ───────────────────────────────────────
  **INSTANCE NORMALIZATION NORMALIZES EVERY SAMPLE ALONE.**

  Sample `i` as a contiguous tensor of one sample can be normalized by a native
  call of its own, with contiguous copies of the parameters and of the running
  statistics the caller has.  The folded call does the same as these calls, one
  in every `C` of its channels:

      sample i, alone                       folded call
      place k                               place i * (C * volume spatial) + k
      channel c                             channel i * C + c

  So the output and the saved statistics are those of the calls one after the
  other, and what is written back is the average, in the order of the samples,
  of the running statistics that they leave:

      c  ↦  (alone 0 c + alone 1 c + … + alone (N - 1) c) / N

  No law of arithmetic is used.  In evaluation mode the same kernel runs in both:
  everything that is folded or tiled is contiguous.
-/
import Mathlib
import ChannelNorm.Proofs.Backend.Handover
import ChannelNorm.Proofs.BatchNorm.History
import ChannelNorm.Proofs.Derived.Piece
import ChannelNorm.Proofs.InstanceNorm.Evaluation
import ChannelNorm.Proofs.Tensor.Constant

namespace ChannelNorm

variable {α A : Type}

/-! ## §1. A native call in either mode. -/

section
variable [OrderedArith A] [Element α A] {args : ForwardArgs α A} {running : ChannelStats α}

/-- What a native call puts at a place. -/
def ForwardArgs.returnedAt (args : ForwardArgs α A) (running : ChannelStats α) : Nat → α :=
  if args.training then args.trainingAt else args.inferredAt running

/-- What a native call saves. -/
def ForwardArgs.savedStats (args : ForwardArgs α A) : ChannelStats α :=
  if args.training then args.batchStats else .none

/-- What an accepted native call returns, element by element. -/
structure Forward.ReturnedBy (f : Forward α) (args : ForwardArgs α A)
    (running : ChannelStats α) : Prop where
  dims : f.output.dims = args.input.dims
  elem : ∀ k < args.input.numel, f.output.elem k = args.returnedAt running k
  saved : f.saved = args.savedStats
  backend : f.backend = .native

/-- **An accepted native call returns that**, in either mode. -/
theorem nativeBatchNorm_returns (ex : Executor) (h : args.Accepted running) :
    ∃ f, (nativeBatchNorm ex args running).result = .ok f ∧ f.ReturnedBy args running := by
  have hresult : (nativeBatchNorm ex args running).result = .ok
      { output := args.input.withContents
          ((List.range args.input.numel).map (args.returnedAt running)) (by simp)
        saved := args.savedStats
        backend := .native } := by
    unfold ForwardArgs.returnedAt ForwardArgs.savedStats
    cases ht : args.training with
    | true => exact nativeBatchNorm_training ex h ht
    | false => exact (nativeBatchNorm_inferred ex h ht).1
  refine ⟨_, hresult, ?dims, fun k hk => ?elem, rfl, rfl⟩
  case dims =>
    dsimp only
    rw [Tensor.dims_withContents]
  case elem =>
    dsimp only
    exact Tensor.elem_of_toList_eq_map Tensor.toList_withContents hk

/-- The running statistics it leaves. -/
theorem running_nativeBatchNorm (ex : Executor) (h : args.Accepted running) :
    (nativeBatchNorm ex args running).running
      = if args.training then running.afterBatch args.input args.momentum else running :=
  congrArg Prod.snd (StatsCall.outcome_forward ex h)

/-- An evaluation of contiguous tensors runs over the flat buffers. -/
theorem inferredAt_of_contiguous (h : args.Accepted running) (ht : args.training = false)
    (hinput : args.input.isContiguous = true)
    (hparams : ∀ t, args.weight = some t ∨ args.bias = some t → t.isContiguous = true)
    (hstats : ∀ t, running.mean = some t ∨ running.var = some t → t.isContiguous = true) :
    args.inferredAt running = args.hoistedAt running := by
  obtain ⟨hmean, hvar⟩ := h.statistics ht
  obtain ⟨mean, hmean⟩ := Option.isSome_iff_exists.1 hmean
  obtain ⟨var, hvar⟩ := Option.isSome_iff_exists.1 hvar
  have hweight : args.weight.all (·.isContiguous) = true :=
    (Option.all_eq_true ..).2 fun t hw => hparams t (.inl hw)
  have hbias : args.bias.all (·.isContiguous) = true :=
    (Option.all_eq_true ..).2 fun t hb => hparams t (.inr hb)
  have hflat : contiguousInference args running = true := by
    unfold contiguousInference
    rw [ht, hinput, hweight, hbias, hmean, hvar, Option.any_some, Option.any_some,
      hstats mean (.inl hmean), hstats var (.inr hvar)]
    rfl
  exact if_pos hflat

end

/-! ## §2. The call on one sample. -/

/-- Number of elements of a sample. -/
theorem volume_sample (C : Nat) (spatial : List Nat) :
    volume (1 :: C :: spatial) = C * volume spatial := by
  rw [volume_cons, volume_cons, Nat.one_mul]

/-- Statistics with contiguous copies of their tensors. -/
def ChannelStats.copied (s : ChannelStats α) : ChannelStats α where
  mean := s.mean.map .contiguous
  var := s.var.map .contiguous

/-- A call on piece `i` of its input, as an array of dimensions `dims`, with
contiguous copies of its parameters. -/
def ForwardArgs.onSample [Zero α] (args : ForwardArgs α A) {dims : List Nat} (h : Addressable dims)
    (i : Nat) : ForwardArgs α A :=
  { args with
    input := args.input.piece dims h i
    weight := args.weight.map .contiguous
    bias := args.bias.map .contiguous }

section
variable [Zero α] {C : Nat} {spatial : List Nat}

theorem ForwardArgs.dims_onSample (args : ForwardArgs α A) (h : Addressable (1 :: C :: spatial))
    (i : Nat) : (args.onSample h i).input.dims = 1 :: C :: spatial :=
  Tensor.dims_piece

theorem ForwardArgs.channels_onSample (args : ForwardArgs α A)
    (h : Addressable (1 :: C :: spatial)) (i : Nat) : (args.onSample h i).input.channels = C :=
  Tensor.channels_of_cons (args.dims_onSample h i)

end

section
variable {param : Option (Tensor α)}

/-- A copy has the entries of the original. -/
theorem paramAt_contiguous [Zero α] (param : Option (Tensor α)) (default : α) (c : Nat) :
    paramAt (param.map .contiguous) default c = paramAt param default c := by
  cases param with
  | none => rfl
  | some t => exact t.contiguousCopy_contiguous.alike.elem c

/-- And its size. -/
theorem OnePerChannel.contiguous {n : Nat} (h : OnePerChannel n param) :
    OnePerChannel n (param.map .contiguous) := by
  intro t ht
  obtain ⟨u, rfl, rfl⟩ := Option.map_eq_some_iff.1 ht
  exact u.contiguousCopy_contiguous.alike.numel.trans (h u rfl)

theorem isContiguous_of_map_contiguous {t : Tensor α} (h : param.map .contiguous = some t) :
    t.isContiguous = true := by
  obtain ⟨u, rfl, rfl⟩ := Option.map_eq_some_iff.1 h
  exact u.contiguousCopy_contiguous.contiguous

end

section
variable [OrderedArith A] [Element α A] {args : ForwardArgs α A} {running : ChannelStats α}
  {C : Nat} {spatial : List Nat}

/-- The call on a sample passes its checks when the call on all of them does. -/
theorem ForwardArgs.Accepted.onSample (h : args.Accepted running) (hC : args.input.channels = C)
    (hdims : Addressable (1 :: C :: spatial)) (i : Nat) :
    (args.onSample hdims i).Accepted running.copied := by
  have hchannels : (args.onSample hdims i).input.channels = args.input.channels :=
    (args.channels_onSample hdims i).trans hC.symm
  refine ⟨Tensor.two_le_rank (args.dims_onSample hdims i), ?_, ?_, ?_, ?_, fun ht => ?_⟩
  · exact hchannels ▸ h.weight.contiguous
  · exact hchannels ▸ h.bias.contiguous
  · exact hchannels ▸ h.mean.contiguous
  · exact hchannels ▸ h.var.contiguous
  · obtain ⟨hmean, hvar⟩ := h.statistics ht
    exact ⟨Option.isSome_map.trans hmean, Option.isSome_map.trans hvar⟩

/-- When it evaluates, it does so over the flat buffers. -/
theorem inferredAt_onSample (h : args.Accepted running) (ht : args.training = false)
    (hC : args.input.channels = C) (hdims : Addressable (1 :: C :: spatial)) (i : Nat) :
    (args.onSample hdims i).inferredAt running.copied
      = (args.onSample hdims i).hoistedAt running.copied := by
  refine inferredAt_of_contiguous (h.onSample hC hdims i) ht Tensor.isContiguous_piece ?_ ?_
  · rintro t (hw | hb)
    · exact isContiguous_of_map_contiguous hw
    · exact isContiguous_of_map_contiguous hb
  · rintro t (hm | hv)
    · exact isContiguous_of_map_contiguous hm
    · exact isContiguous_of_map_contiguous hv

end

/-! ## §3. One sample of the folded call. -/

/-- Of one value for each folded channel, entry `i * C + c` is entry `c` of one value
for each channel of sample `i`. -/
def InstanceNormPlan.SampleEntries [Zero α] (p : InstanceNormPlan) (i : Nat)
    (tiled own : Option (Tensor α)) : Prop :=
  ∀ default, ∀ c < p.channels,
    paramAt tiled default (i * p.channels + c) = paramAt own default c

/-- A tiled parameter holds a copy for each sample. -/
theorem InstanceNormPlan.Tiled.sampleEntries [Zero α] {p : InstanceNormPlan} {i : Nat}
    {param tiled : Option (Tensor α)} (h : p.Tiled param tiled) (hi : i < p.batch) :
    p.SampleEntries i tiled (param.map .contiguous) := fun default _ hc =>
  (h.reads_sample default hi hc).trans (paramAt_contiguous param default _).symm

/-- A value for each channel of a sample is a stretch of those for all channels. -/
theorem Tensor.block_perChannel [Zero α] {t u : Tensor α} {N C i : Nat} (ht : t.channels = N * C)
    (hu : u.channels = C) (hi : i < N) {f g : Nat → α} (hfg : ∀ c < C, f (i * C + c) = g c) :
    (t.perChannel (.ofFn fun c => f c)).block C i = (u.perChannel (.ofFn fun c => g c)).toList := by
  have hvolume : volume [1, N, C] = (t.perChannel (.ofFn fun c => f c)).numel := by
    rw [numel_perChannel, ht, volume_blocks]
  have hnumel : (u.perChannel (.ofFn fun c => g c)).numel = C := (u.numel_perChannel _).trans hu
  rw [block_eq_map hvolume hi, toList_eq_map_elem, hnumel]
  apply List.map_congr_left
  intro c hc
  have hc : c < C := List.mem_range.1 hc
  rw [elem_perChannel_ofFn t f (ht.symm ▸ place_lt hi hc), elem_perChannel_ofFn u g (hu.symm ▸ hc),
    hfg c hc]

/-- Entries that are the same stay the same when the same is folded into them. -/
theorem paramAt_overwrite_zipWith [Zero α] {β : Type} {q r : Option (Tensor α)} {m n j c : Nat}
    (hq : OnePerChannel m q) (hr : OnePerChannel n r) (hsome : q.isSome = r.isSome)
    (hj : j < m) (hc : c < n) (hentry : ∀ default, paramAt q default j = paramAt r default c)
    (blend : β → α → α) {x : Fin m → β} {y : Fin n → β} (hxy : x ⟨j, hj⟩ = y ⟨c, hc⟩)
    (default : α) :
    paramAt (q.map fun t => t.overwrite (List.zipWith blend (List.ofFn x) t.toList)) default j
      = paramAt (r.map fun t => t.overwrite (List.zipWith blend (List.ofFn y) t.toList))
          default c := by
  cases q with
  | none =>
      cases r with
      | none => rfl
      | some u => cases hsome
  | some t =>
      cases r with
      | none => cases hsome
      | some u =>
          have hold : t.elem j = u.elem c := hentry 0
          show Tensor.elem _ _ = Tensor.elem _ _
          rw [Tensor.elem_overwrite_zipWith (hq t rfl) blend x hj,
            Tensor.elem_overwrite_zipWith (hr u rfl) blend y hc, hxy, hold]

namespace InstanceNormPlan.FoldsTo

variable [OrderedArith A] [Element α A] {p : InstanceNormPlan} {args folded : ForwardArgs α A}
  {running tiled : ChannelStats α}
  (hf : p.FoldsTo args running folded tiled) (hdims : args.input.dims = p.inputDims)
  (haccepted : args.Accepted running) {h : Addressable (1 :: p.channels :: p.spatial)} {i : Nat}
  (hi : i < p.batch)

section
include hf

/-- The folded input holds the samples one after the other. -/
theorem elem_sample {k : Nat} (hk : k < p.channels * volume p.spatial) :
    folded.input.elem (i * (p.channels * volume p.spatial) + k)
      = (args.onSample h i).input.elem k := by
  have hvolume := volume_sample p.channels p.spatial
  refine (congrFun hf.elem _).trans ?_
  unfold ForwardArgs.onSample
  rw [Tensor.elem_piece (hvolume.symm ▸ hk), hvolume]

include hi

/-- And their channels. -/
theorem channelOf_sample {k : Nat} (hk : k < p.channels * volume p.spatial) :
    channelOf folded.input.dims (i * (p.channels * volume p.spatial) + k)
      = i * p.channels + channelOf (args.onSample h i).input.dims k := by
  -- there is a place, so that planes are not empty
  have hpos : 0 < volume p.spatial := Nat.pos_of_mul_pos_left (Nat.zero_lt_of_lt hk)
  have hc : k / volume p.spatial < p.channels := by
    apply Nat.div_lt_of_lt_mul
    rwa [Nat.mul_comm]
  have hdiv : (i * (p.channels * volume p.spatial) + k) / volume p.spatial
      = i * p.channels + k / volume p.spatial := by
    rw [← Nat.mul_assoc, Nat.mul_comm, Nat.mul_add_div hpos]
  rw [hf.dims, args.dims_onSample h i]
  show _ / volume p.spatial % (p.batch * p.channels)
    = i * p.channels + k / volume p.spatial % p.channels
  rw [hdiv, Nat.mod_eq_of_lt (sample_lt hi hc), Nat.mod_eq_of_lt hc]

variable {c : Nat} (hc : c < p.channels)
include hc

/-- A channel has as many elements in a sample as folded. -/
theorem elementsPerChannel_sample :
    folded.input.elementsPerChannel = (args.onSample h i).input.elementsPerChannel :=
  (hf.holdsBlocks.elementsPerChannel (sample_lt hi hc)).trans
    ((args.input.holdsBlocks_piece h i).elementsPerChannel hc).symm

/-- Its moments are those of the folded channel. -/
theorem momentsAt_sample :
    (folded.input.momentsAt (i * p.channels + c) : ChannelMoments α A)
      = (args.onSample h i).input.momentsAt c := by
  have hnumel : args.input.numel = p.batch * p.channels * volume p.spatial :=
    hf.holdsBlocks.numel.symm.trans hf.holdsBlocks.numel_eq
  have hlt := sample_lt hi hc
  calc (folded.input.momentsAt (i * p.channels + c) : ChannelMoments α A)
      = args.input.blockMoments (volume p.spatial) (i * p.channels + c) :=
        hf.holdsBlocks.momentsAt_eq hlt
    _ = (args.input.piece _ h i).blockMoments (volume p.spatial) c :=
        (Tensor.blockMoments_piece (volume_sample _ _) hnumel hc hlt).symm
    _ = (args.onSample h i).input.momentsAt c :=
        ((args.input.holdsBlocks_piece h i).momentsAt_eq hc).symm

theorem batchMean_sample :
    folded.input.batchMean (i * p.channels + c) = (args.onSample h i).input.batchMean c :=
  congrArg ChannelMoments.mean (hf.momentsAt_sample hi hc)

theorem batchInvstd_sample (eps : A) :
    folded.input.batchInvstd eps (i * p.channels + c)
      = (args.onSample h i).input.batchInvstd eps c := by
  unfold Tensor.batchInvstd
  rw [hf.momentsAt_sample hi hc, hf.elementsPerChannel_sample hi hc]

end

section
include hf hi

/-- **What the folded call saves is what the calls on the samples save, one after the
other.** -/
theorem savedStats_sample :
    folded.savedStats.mean.map (·.block p.channels i)
        = (args.onSample h i).savedStats.mean.map Tensor.toList
      ∧ folded.savedStats.var.map (·.block p.channels i)
        = (args.onSample h i).savedStats.var.map Tensor.toList := by
  have htraining : (args.onSample h i).training = args.training := rfl
  have hchannels := args.channels_onSample h i
  unfold ForwardArgs.savedStats
  rw [hf.training, htraining]
  cases args.training with
  | false => exact ⟨rfl, rfl⟩
  | true =>
      refine ⟨congrArg some ?_, congrArg some ?_⟩
      · exact Tensor.block_perChannel hf.channels hchannels hi fun c hc =>
          hf.batchMean_sample hi hc
      · refine Tensor.block_perChannel hf.channels hchannels hi fun c hc => ?_
        rw [hf.eps]
        exact hf.batchInvstd_sample hi hc args.eps

end

include hf hdims haccepted

/-- An evaluation of the folded call runs over the flat buffers, too. -/
theorem inferredAt_folded (ht : args.training = false) :
    folded.inferredAt tiled = folded.hoistedAt tiled := by
  refine inferredAt_of_contiguous (hf.accepted haccepted hdims) (hf.training.trans ht)
    (Tensor.isContiguous_reshape hf.input) ?_ ?_
  · rintro t (hw | hb)
    · exact isContiguous_of_repeatParam (hw ▸ hf.weight)
    · exact isContiguous_of_repeatParam (hb ▸ hf.bias)
  · rintro t (hm | hv)
    · exact isContiguous_of_repeatParam (hm ▸ hf.mean)
    · exact isContiguous_of_repeatParam (hv ▸ hf.var)

include hi

/-- The tiled parameters hold those of the sample. -/
theorem sampleEntries :
    p.SampleEntries i folded.weight (args.onSample h i).weight
      ∧ p.SampleEntries i folded.bias (args.onSample h i).bias
      ∧ p.SampleEntries i tiled.mean running.copied.mean
      ∧ p.SampleEntries i tiled.var running.copied.var := by
  have hchannels := channels_of_dims hdims
  refine ⟨?_, ?_, ?_, ?_⟩
  · exact (repeatParam_tiled (hchannels ▸ haccepted.weight) hf.weight).sampleEntries hi
  · exact (repeatParam_tiled (hchannels ▸ haccepted.bias) hf.bias).sampleEntries hi
  · exact (repeatParam_tiled (hchannels ▸ haccepted.mean) hf.mean).sampleEntries hi
  · exact (repeatParam_tiled (hchannels ▸ haccepted.var) hf.var).sampleEntries hi

/-- **The folded call puts at every place what the call on its sample puts
there**, in either mode. -/
theorem returnedAt_sample {k : Nat} (hk : k < p.channels * volume p.spatial) :
    folded.returnedAt tiled (i * (p.channels * volume p.spatial) + k)
      = (args.onSample h i).returnedAt running.copied k := by
  have hc : channelOf (args.onSample h i).input.dims k < p.channels := by
    rw [args.dims_onSample h i]
    exact channelOf_lt (Nat.le_add_left 2 _) ((volume_sample _ _).symm ▸ hk)
  have hchannel := hf.channelOf_sample hi (h := h) hk
  have helem := hf.elem_sample (h := h) (i := i) hk
  obtain ⟨hweight, hbias, hmean, hvar⟩ := hf.sampleEntries hdims haccepted hi (h := h)
  have htraining : (args.onSample h i).training = args.training := rfl
  -- both kernels read the place itself and the entries of its channel
  unfold ForwardArgs.returnedAt
  rw [hf.training, htraining]
  cases ht : args.training with
  | true =>
      show folded.trainingAt _ = (args.onSample h i).trainingAt k
      unfold ForwardArgs.trainingAt
      dsimp only
      rw [hchannel, helem, hf.batchMean_sample hi hc, hf.eps,
        hf.batchInvstd_sample hi hc, hweight _ _ hc, hbias _ _ hc]
      rfl
  | false =>
      show folded.inferredAt tiled _ = (args.onSample h i).inferredAt running.copied k
      rw [hf.inferredAt_folded hdims haccepted ht,
        inferredAt_onSample haccepted ht (channels_of_dims hdims)]
      unfold ForwardArgs.hoistedAt
      dsimp only
      rw [hchannel, helem, hf.eps, hweight _ _ hc, hbias _ _ hc,
        hmean _ _ hc, hvar _ _ hc]
      rfl

/-- **The running statistics it leaves are those the calls on the samples leave.** -/
theorem running_sample (ex ex' : Executor) :
    let left := (nativeBatchNorm ex folded tiled).running
    let own := (nativeBatchNorm ex' (args.onSample h i) running.copied).running
    p.SampleEntries i left.mean own.mean ∧ p.SampleEntries i left.var own.var := by
  intro left own
  have hchannels := args.channels_onSample h i
  have hfolded := hf.accepted haccepted hdims
  have hown := haccepted.onSample (channels_of_dims hdims) h i
  obtain ⟨_, _, hmean, hvar⟩ := hf.sampleEntries hdims haccepted hi (h := h)
  have hleft : left = _ := running_nativeBatchNorm ex hfolded
  have hown' : own = _ := running_nativeBatchNorm ex' hown
  have htraining : (args.onSample h i).training = args.training := rfl
  rw [hleft, hown', hf.training, htraining]
  -- an evaluation keeps what was tiled; training folds the same moments into the same entries
  cases args.training with
  | false => exact ⟨hmean, hvar⟩
  | true =>
      obtain ⟨hmeans, hvars⟩ := hf.isSome_statistics
      rw [if_pos rfl, if_pos rfl]
      unfold ChannelStats.afterBatch ChannelStats.blend
      rw [Vector.toList_ofFn, Vector.toList_ofFn, hf.momentum]
      have hj : ∀ {c : Nat}, c < p.channels → i * p.channels + c < folded.input.channels :=
        fun hc => hf.channels.symm ▸ sample_lt hi hc
      constructor
      · intro default c hc
        exact paramAt_overwrite_zipWith hfolded.mean hown.mean
          (hmeans.trans Option.isSome_map.symm) (hj hc) (hchannels.symm ▸ hc)
          (fun default => hmean default c hc) _ (hf.momentsAt_sample hi hc) default
      · intro default c hc
        rw [hf.elementsPerChannel_sample hi hc (h := h)]
        exact paramAt_overwrite_zipWith hfolded.var hown.var
          (hvars.trans Option.isSome_map.symm) (hj hc) (hchannels.symm ▸ hc)
          (fun default => hvar default c hc) _ (hf.momentsAt_sample hi hc) default

end InstanceNormPlan.FoldsTo

/-! ## §4. Every sample. -/

/-- Sample `i` of what `f` returns is what `g` returns: of the output, and of the saved
statistics, of which every sample has `C`. -/
structure Forward.SampleAgrees (f g : Forward α) (C i : Nat) : Prop where
  output : ∀ js, f.output.get? (i :: js) = g.output.get? (0 :: js)
  mean : f.saved.mean.map (·.block C i) = g.saved.mean.map Tensor.toList
  var : f.saved.var.map (·.block C i) = g.saved.var.map Tensor.toList

/-- `r` is `t`, overwritten with the average over the samples of the `C` values that
each of them has, added up in the order of the samples. -/
structure AveragesSamples [Arith α] (N C : Nat) (own : Nat → Option (Tensor α))
    (t r : Tensor α) : Prop where
  layout : r.layout = t.layout
  device : r.device = t.device
  supplied : ∀ i < N, Supplied C (own i)
  elem : ∀ c < C, r.elem c
    = sumInOrder ((List.range N).map fun i => paramAt (own i) 0 c) / ofCount N

/-- **Writing back averages over the samples.** -/
theorem InstanceNormPlan.averagesSamples_of_writeBack [OrderedArith A] [Element α A]
    {p : InstanceNormPlan} {caller tiled written : Option (Tensor α)}
    {own : Nat → Option (Tensor α)} (hcaller : OnePerChannel p.channels caller)
    (htiled : OnePerChannel (p.batch * p.channels) tiled)
    (hsome : tiled.isSome = caller.isSome)
    (hown : ∀ i < p.batch, (own i).isSome = caller.isSome ∧ OnePerChannel p.channels (own i))
    (hentries : ∀ i < p.batch, p.SampleEntries i tiled (own i))
    (hok : p.writeBack caller tiled = .ok written) :
    Option.Rel (AveragesSamples p.batch p.channels own) caller written := by
  cases caller with
  | none =>
      cases hok
      exact .none
  | some t =>
      obtain ⟨u, rfl⟩ := Option.isSome_iff_exists.1 hsome
      have hsize : t.numel = p.channels := hcaller t rfl
      rw [writeBack_eq (htiled u rfl), if_pos hsize] at hok
      cases hok
      refine .some ⟨rfl, rfl, fun i hi => (hown i hi).2.supplied (hown i hi).1, fun c hc => ?_⟩
      have hlist : (t.overwrite (p.averages u)).toList = p.averages u :=
        Tensor.toList_overwrite (by rw [length_averages, hsize])
      have hsamples : (List.range p.batch).map (fun i => u.elem (i * p.channels + c))
          = (List.range p.batch).map fun i => paramAt (own i) 0 c := by
        apply List.map_congr_left
        intro i hi
        exact hentries i (List.mem_range.1 hi) 0 c hc
      rw [← hsamples]
      exact Tensor.elem_of_toList_eq_map hlist hc

/-- A call on a sample keeps the statistics that are there, one value per channel. -/
theorem statistics_onSample [OrderedArith A] [Element α A] (ex : Executor)
    {args : ForwardArgs α A} {running : ChannelStats α} {C : Nat} {spatial : List Nat}
    (haccepted : args.Accepted running) (hC : args.input.channels = C)
    (h : Addressable (1 :: C :: spatial)) (i : Nat) :
    let own := (nativeBatchNorm ex (args.onSample h i) running.copied).running
    (own.mean.isSome = running.mean.isSome ∧ OnePerChannel C own.mean)
      ∧ own.var.isSome = running.var.isSome ∧ OnePerChannel C own.var := by
  intro own
  have hchannels := args.channels_onSample h i
  obtain ⟨⟨hmeans, hvars⟩, hmean, hvar⟩ :=
    statistics_nativeBatchNorm ex (haccepted.onSample hC h i)
  exact ⟨⟨hmeans.trans Option.isSome_map, hchannels ▸ hmean⟩, hvars.trans Option.isSome_map,
    hchannels ▸ hvar⟩

namespace InstanceNormPlan.FoldsTo

variable [OrderedArith A] [Element α A] {p : InstanceNormPlan} {args folded : ForwardArgs α A}
  {running tiled : ChannelStats α} (hf : p.FoldsTo args running folded tiled)
  (hdims : args.input.dims = p.inputDims) (haccepted : args.Accepted running)
include hf hdims haccepted

/-- **What the folded call returns is, sample by sample, what the calls on the samples
return.** -/
theorem sampleAgrees {h : Addressable (1 :: p.channels :: p.spatial)} {f g : Forward α}
    {output : Tensor α} {i : Nat} (hi : i < p.batch) (hfolded : f.ReturnedBy folded tiled)
    (hown : g.ReturnedBy (args.onSample h i) running.copied)
    (hunfold : p.unfold f.output = .ok output) :
    ({ f with output } : Forward α).SampleAgrees g p.channels i := by
  obtain ⟨hmean, hvar⟩ := hf.savedStats_sample hi (h := h)
  rw [← hfolded.saved, ← hown.saved] at hmean hvar
  refine ⟨fun js => (Tensor.get?_sample (Tensor.dims_reshape hunfold)
    (hown.dims.trans (args.dims_onSample h i)) hi (fun k hk => ?_) js).symm, hmean, hvar⟩
  rw [volume_cons] at hk ⊢
  have hplace : i * (p.channels * volume p.spatial) + k < folded.input.numel := by
    rw [hf.holdsBlocks.numel_eq, Nat.mul_assoc]
    exact place_lt hi hk
  have hk' : k < (args.onSample h i).input.numel := by
    show k < (args.input.piece _ h i).numel
    rwa [Tensor.numel_piece, volume_sample]
  calc g.output.elem k
      = (args.onSample h i).returnedAt running.copied k := hown.elem k hk'
    _ = folded.returnedAt tiled (i * (p.channels * volume p.spatial) + k) :=
        (hf.returnedAt_sample hdims haccepted hi hk).symm
    _ = f.output.elem _ := (hfolded.elem _ hplace).symm
    _ = output.elem _ :=
        congrFun (Tensor.elem_of_toList_eq (Tensor.toList_reshape hunfold)).symm _

/-- **What is written back after the folded call averages what the calls on the samples
leave.** -/
theorem averagesSamples (ex ex' : Executor) (h : Addressable (1 :: p.channels :: p.spatial))
    {mean var : Option (Tensor α)}
    (hmean : p.writeBack running.mean (nativeBatchNorm ex folded tiled).running.mean = .ok mean)
    (hvar : p.writeBack running.var (nativeBatchNorm ex folded tiled).running.var = .ok var) :
    let alone := fun i => nativeBatchNorm ex' (args.onSample h i) running.copied
    Option.Rel (AveragesSamples p.batch p.channels fun i => (alone i).running.mean)
        running.mean mean
      ∧ Option.Rel (AveragesSamples p.batch p.channels fun i => (alone i).running.var)
          running.var var := by
  intro alone
  have hchannels : args.input.channels = p.channels := channels_of_dims hdims
  have hfolded := hf.accepted haccepted hdims
  obtain ⟨hsomeMean, hsomeVar⟩ := hf.isSome_statistics
  obtain ⟨⟨hkeptMean, hkeptVar⟩, hleftMean, hleftVar⟩ := statistics_nativeBatchNorm ex hfolded
  rw [hf.channels] at hleftMean hleftVar
  have hentries := fun i (hi : i < p.batch) => hf.running_sample hdims haccepted (h := h) hi ex ex'
  have hstatistics := statistics_onSample ex' haccepted hchannels h
  constructor
  · exact averagesSamples_of_writeBack (hchannels ▸ haccepted.mean) hleftMean
      (hkeptMean.trans hsomeMean) (fun i _ => (hstatistics i).1) (fun i hi => (hentries i hi).1)
      hmean
  · exact averagesSamples_of_writeBack (hchannels ▸ haccepted.var) hleftVar
      (hkeptVar.trans hsomeVar) (fun i _ => (hstatistics i).2) (fun i hi => (hentries i hi).2) hvar

/-- An accepted call that spares the accelerators is the native folded call, written
back and unfolded. -/
theorem finish_native (ex : Executor) {registry : Registry α A} {enabled : Bool}
    (hspares :
      (instanceNormForward ex registry enabled args running).toLogged.SparesAccelerators) :
    let call := instanceNormForward ex registry enabled args running
    let native := nativeBatchNorm ex folded tiled
    ∃ f output mean var, native.result = .ok f ∧ p.unfold f.output = .ok output
      ∧ p.writeBack running.mean native.running.mean = .ok mean
      ∧ p.writeBack running.var native.running.var = .ok var
      ∧ call.result = .ok { f with output } ∧ call.running = ⟨mean, var⟩ := by
  intro call native
  have hchannels : args.input.channels = p.channels := channels_of_dims hdims
  have hfolded := hf.accepted haccepted hdims
  have hcall : call = _ :=
    instanceNormForward_eq_finish ex registry enabled hdims hf haccepted.foldable
  have hran := folded_ran_native ex hfolded hcall hspares
  obtain ⟨f, _, _, hresult, _⟩ := (hf.finishable hfolded hran).result_ok
    (hchannels ▸ haccepted.mean) (hchannels ▸ haccepted.var)
  obtain ⟨mean, var, hmean, hvar, hleft⟩ := running_finish_of_ok hresult
  obtain ⟨returned, output, hreturned, hunfold, rfl⟩ := finish_eq_ok hresult
  -- what the folded call returned and left is what the native one returns and leaves
  obtain ⟨_, hrunning, forward, hnative, hforward⟩ := hran
  obtain rfl : forward = returned := Except.ok.inj (hforward.symm.trans hreturned)
  rw [hrunning] at hmean hvar
  rw [← hcall] at hresult hleft
  exact ⟨forward, output, mean, var, hnative, hunfold, hmean, hvar, hresult, hleft⟩

end InstanceNormPlan.FoldsTo

/-- **Instance normalization is batch normalization of every sample alone, bit for
bit.**  A native call on `N` samples of `C` channels succeeds, in either mode.
Sample `i` of its output and of its saved statistics is what the native
batch-norm call on sample `i` as a contiguous tensor of dimensions `(1, C, …)`
returns, with contiguous copies of the parameters and of the running statistics
as they were before; and a running statistic, whatever its shape and strides,
holds in the end the averages of those that the `N` calls leave. -/
theorem samples_normalized_alone [OrderedArith A] [Element α A] (ex ex' : Executor)
    (registry : Registry α A) (enabled : Bool) {args : ForwardArgs α A}
    {running : ChannelStats α} {N C : Nat} {spatial : List Nat}
    (hdims : args.input.dims = N :: C :: spatial) (haccepted : args.Accepted running)
    (hspares :
      (instanceNormForward ex registry enabled args running).toLogged.SparesAccelerators) :
    let call := instanceNormForward ex registry enabled args running
    ∃ (h : Addressable (1 :: C :: spatial)) (f : Forward α),
      let alone := fun i => nativeBatchNorm ex' (args.onSample h i) running.copied
      call.result = .ok f ∧ f.output.dims = args.input.dims ∧ f.backend = .native
      ∧ (∀ i < N, (args.onSample h i).input.isContiguous = true
          ∧ (∀ js, (args.onSample h i).input.get? (0 :: js) = args.input.get? (i :: js))
          ∧ ∃ g, (alone i).result = .ok g ∧ g.output.dims = 1 :: C :: spatial
            ∧ f.SampleAgrees g C i)
      ∧ Option.Rel (AveragesSamples N C fun i => (alone i).running.mean)
          running.mean call.running.mean
      ∧ Option.Rel (AveragesSamples N C fun i => (alone i).running.var)
          running.var call.running.var := by
  intro call
  let p : InstanceNormPlan := ⟨N, C, spatial, hdims ▸ args.input.addressable⟩
  have hp : args.input.dims = p.inputDims := hdims
  have hchannels : args.input.channels = C := InstanceNormPlan.channels_of_dims hp
  have hN : Addressable ([N] ++ C :: spatial) := p.addressable
  have h : Addressable (1 :: C :: spatial) := hN.right.one_cons
  obtain ⟨folded, tiled, hf⟩ := InstanceNormPlan.exists_foldsTo haccepted hp
  have hfolded := hf.accepted haccepted hp
  obtain ⟨f, output, mean, var, hnative, hunfold, hmean, hvar, hresult, hleft⟩ :=
    hf.finish_native hp haccepted ex hspares
  -- what it returned has a closed form, place by place
  obtain ⟨_, hok, hby⟩ := nativeBatchNorm_returns ex hfolded
  obtain rfl := Except.ok.inj (hok.symm.trans hnative)
  obtain ⟨haverageMean, haverageVar⟩ := hf.averagesSamples hp haccepted ex ex' h hmean hvar
  refine ⟨h, _, hresult, (Tensor.dims_reshape hunfold).trans hp.symm, hby.backend,
    fun i hi => ⟨Tensor.isContiguous_piece, Tensor.get?_piece hdims hi, ?alone⟩, ?mean, ?var⟩
  case alone =>
    obtain ⟨g, hg, hown⟩ := nativeBatchNorm_returns ex' (haccepted.onSample hchannels h i)
    exact ⟨g, hg, hown.dims.trans (args.dims_onSample h i),
      hf.sampleAgrees hp haccepted hi hby hown hunfold⟩
  case mean =>
    rw [hleft]
    exact haverageMean
  case var =>
    rw [hleft]
    exact haverageVar

/-- Two samples of two channels, laid out with gaps. -/
def stridedCall (training : Bool) : ForwardArgs Float32 Float where
  input := stridedBatch
  weight := some (.few 2 2)
  bias := none
  training := training
  momentum := 1
  eps := 1

/-- Statistics of two channels. -/
def twoChannels : ChannelStats Float32 :=
  ⟨some (.few 2 3), some (.few 2 1)⟩

/-- The second sample, and the running mean, in either mode. -/
theorem samples_normalized_alone_strided :
    stridedBatch.isContiguous = false
      ∧ ∀ training,
        let call := instanceNormForward ⟨.standard, 4⟩ .empty false (stridedCall training)
          twoChannels
        (stridedCall training).Accepted twoChannels ∧ call.toLogged.SparesAccelerators
          ∧ ∃ (h : Addressable [1, 2]) (f g : Forward Float32),
            let alone := fun i =>
              nativeBatchNorm ⟨.standard, 1⟩ ((stridedCall training).onSample h i)
                twoChannels.copied
            call.result = .ok f ∧ (alone 1).result = .ok g ∧ f.SampleAgrees g 2 1
              ∧ Option.Rel (AveragesSamples 2 2 fun i => (alone i).running.mean)
                  twoChannels.mean call.running.mean := by
  refine ⟨by decide, fun training => ?_⟩
  intro call
  have hdims : (stridedCall training).input.dims = [2, 2] := by
    show stridedBatch.dims = [2, 2]
    decide
  have hone : ∀ x : Float32, OnePerChannel 2 (some (.few 2 x)) := by
    rintro x t ⟨⟩
    rfl
  have haccepted : (stridedCall training).Accepted twoChannels := by
    have hchannels : (stridedCall training).input.channels = 2 := Tensor.channels_of_cons hdims
    exact ⟨Tensor.two_le_rank hdims, hchannels ▸ hone 2, nofun, hchannels ▸ hone 3,
      hchannels ▸ hone 1, fun _ => ⟨rfl, rfl⟩⟩
  have hspares : call.toLogged.SparesAccelerators := by
    apply (instanceNormForward_switchedOff ⟨.standard, 4⟩ .empty false (.inl rfl)
      (stridedCall training) twoChannels).spares_iff.2
    rintro a ⟨_, heligible⟩
    cases heligible.installed
  obtain ⟨h, f, hf, _, _, hsamples, hmean, _⟩ := samples_normalized_alone ⟨.standard, 4⟩
    ⟨.standard, 1⟩ .empty false hdims haccepted hspares
  obtain ⟨_, _, g, hg, _, hagrees⟩ := hsamples 1 (by decide)
  exact ⟨haccepted, hspares, h, f, g, hf, hg, hagrees, hmean⟩

end ChannelNorm

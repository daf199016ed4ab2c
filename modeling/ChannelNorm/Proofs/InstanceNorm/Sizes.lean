/-
  ChannelNorm.Proofs.InstanceNorm.Sizes
  ─────────────────────────────────────
  **WHICH SIZES OF PARAMETERS AND STATISTICS ARE ACCEPTED.**

  Nothing is compared with the number of channels as the caller gave it.  Every
  tensor supplied is laid end to end once per sample first, and what the folded
  call counts is the result:

      N samples   N * size = N * channels   exactly if   size = channels,  0 < N
      none        0 = 0                     whatever the size

  With a sample, then, every size is checked, and a call with a wrong one fails
  on the first in the order of the folded call, unless the copies could not be
  addressed to begin with.  Without samples no size is looked at until the
  running statistics are written back.
-/
import ChannelNorm.Proofs.InstanceNorm.Failure

namespace ChannelNorm

variable {α A : Type}

/-! ## §1. Sizes before and after tiling. -/

/-- What a folded call finds wrong with a tensor, which it is handed laid end to
end once per sample. -/
def tiledFaults (samples channels : Nat) (name : String) :
    Option (Tensor α) → List TensorError
  | none => []
  | some t =>
      if t.numel = channels then []
      else [.channelCount "batch_norm" name (samples * channels) (samples * t.numel)
        [samples * t.numel]]

section
variable {samples channels : Nat} {name : String} {param : Option (Tensor α)}

theorem tiledFaults_eq_nil :
    tiledFaults samples channels name param = [] ↔ OnePerChannel channels param := by
  cases param with
  | none => exact iff_of_true rfl nofun
  | some t => simp [tiledFaults, OnePerChannel]

/-- Every fault is a shape mismatch. -/
theorem shapeMismatch_of_mem_tiledFaults {e : TensorError}
    (h : e ∈ tiledFaults samples channels name param) :
    ∃ expected got, e.fault = .shapeMismatch expected got := by
  unfold tiledFaults at h
  split at h
  · exact nomatch h
  · split at h
    · exact nomatch h
    · rw [List.mem_singleton.1 h]
      exact ⟨_, _, rfl⟩

end

namespace InstanceNormPlan

variable {p : InstanceNormPlan}

/-- **The folded call finds a tiled tensor wrong exactly if its size is wrong**,
where there is a sample. -/
theorem paramFaults_repeatParam {param tiled : Option (Tensor α)} (hbatch : 0 < p.batch)
    (h : p.repeatParam param = .ok tiled) (name : String) :
    paramFaults "batch_norm" name (p.batch * p.channels) tiled
      = tiledFaults p.batch p.channels name param := by
  rcases repeatParam_cases h with ⟨rfl, rfl⟩ | ⟨t, r, rfl, rfl, hr⟩
  · rfl
  · unfold paramFaults tiledFaults
    dsimp only
    have hdims : r.dims = [p.batch * t.numel] := by
      rcases p.tileParam_outcome t with ⟨_, u, hu, hdims⟩ | ⟨_, he⟩
      · exact Except.ok.inj (hu.symm.trans hr) ▸ hdims
      · exact nomatch he.symm.trans hr
    rw [(tileParam_eq hr).1, hdims]
    simp only [Nat.mul_left_cancel_iff hbatch]

end InstanceNormPlan

/-! ## §2. What a call is supplied with. -/

namespace ForwardArgs

/-- The statistics that the mode needs are there. -/
def Provided (args : ForwardArgs α A) (running : ChannelStats α) : Prop :=
  args.training = false → running.mean.isSome = true ∧ running.var.isSome = true

/-- Every tensor supplied holds one value per channel. -/
structure Sized (args : ForwardArgs α A) (running : ChannelStats α) : Prop where
  mean : OnePerChannel args.input.channels running.mean
  var : OnePerChannel args.input.channels running.var
  weight : OnePerChannel args.input.channels args.weight
  bias : OnePerChannel args.input.channels args.bias

/-- The copies of every tensor supplied, one per sample, can be addressed. -/
structure AllTileable (args : ForwardArgs α A) (running : ChannelStats α) : Prop where
  weight : Tileable (args.input.dims.headD 0) args.weight
  bias : Tileable (args.input.dims.headD 0) args.bias
  mean : Tileable (args.input.dims.headD 0) running.mean
  var : Tileable (args.input.dims.headD 0) running.var

/-- What the folded call finds wrong with the sizes, in the order of its checks. -/
def sizeFaults (args : ForwardArgs α A) (running : ChannelStats α) : List TensorError :=
  let samples := args.input.dims.headD 0
  let channels := args.input.channels
  tiledFaults samples channels "running_mean" running.mean
    ++ tiledFaults samples channels "running_var" running.var
    ++ (tiledFaults samples channels "weight" args.weight
      ++ tiledFaults samples channels "bias" args.bias)

variable {args : ForwardArgs α A} {running : ChannelStats α}

theorem accepted_iff_sized (hrank : 2 ≤ args.input.rank) :
    args.Accepted running ↔ args.Provided running ∧ args.Sized running :=
  ⟨fun h => ⟨h.statistics, h.mean, h.var, h.weight, h.bias⟩,
    fun h => ⟨hrank, h.2.weight, h.2.bias, h.2.mean, h.2.var, h.1⟩⟩

theorem sizeFaults_eq_nil : args.sizeFaults running = [] ↔ args.Sized running := by
  unfold sizeFaults
  simp only [List.append_eq_nil_iff, tiledFaults_eq_nil]
  exact ⟨fun h => ⟨h.1.1, h.1.2, h.2.1, h.2.2⟩, fun h => ⟨⟨h.mean, h.var⟩, h.weight, h.bias⟩⟩

theorem shapeMismatch_of_mem_sizeFaults {e : TensorError} (h : e ∈ args.sizeFaults running) :
    ∃ expected got, e.fault = .shapeMismatch expected got := by
  unfold sizeFaults at h
  simp only [List.mem_append] at h
  obtain (h | h) | h | h := h
  all_goals exact shapeMismatch_of_mem_tiledFaults h

end ForwardArgs

/-- A statistic that is there, or not needed, can only be of the wrong size. -/
theorem statisticFaults_of_isSome {operation name : String} {training : Bool} {channels : Nat}
    {p : Option (Tensor α)} (h : training = false → p.isSome = true) :
    statisticFaults operation name training channels p = paramFaults operation name channels p := by
  cases training with
  | true => rfl
  | false =>
      obtain ⟨t, rfl⟩ := Option.isSome_iff_exists.1 (h rfl)
      rfl

namespace InstanceNormPlan

variable {p : InstanceNormPlan} {args folded : ForwardArgs α A} {running tiled : ChannelStats α}

/-- A call whose tensors can all be tiled has a folded call. -/
theorem exists_foldsTo_of_tileable (hdims : args.input.dims = p.inputDims)
    (h : args.AllTileable running) : ∃ folded tiled, p.FoldsTo args running folded tiled := by
  obtain ⟨hweight, hbias, hmean, hvar⟩ := h
  rw [headD_of_dims hdims] at hweight hbias hmean hvar
  exact exists_foldsTo_of_repeatParam hdims (repeatParam_ok_of_tileable hweight)
    (repeatParam_ok_of_tileable hbias) (repeatParam_ok_of_tileable hmean)
    (repeatParam_ok_of_tileable hvar)

/-- Any other call has none, because an address would overflow. -/
theorem foldCall_overflow [OrderedArith A] [Element α A] (hdims : args.input.dims = p.inputDims)
    (h : ¬ args.AllTileable running) : p.foldCall args running = .error .addressOverflow := by
  have hbatch := headD_of_dims hdims
  unfold foldCall
  rcases p.repeatParam_outcome args.weight with ⟨hweight, _, hw⟩ | ⟨_, hw⟩ <;> rw [hw]
  · rcases p.repeatParam_outcome args.bias with ⟨hbias, _, hb⟩ | ⟨_, hb⟩ <;> rw [hb]
    · rcases p.repeatParam_outcome running.mean with ⟨hmean, _, hm⟩ | ⟨_, hm⟩ <;> rw [hm]
      · rcases p.repeatParam_outcome running.var with ⟨hvar, _⟩ | ⟨_, hv⟩
        · rw [← hbatch] at hweight hbias hmean hvar
          exact absurd ⟨hweight, hbias, hmean, hvar⟩ h
        · rw [hv]
          rfl
      · rfl
    · rfl
  · rfl

/-- **The faults of a folded call with a sample are those of the sizes.** -/
theorem FoldsTo.faults (hf : p.FoldsTo args running folded tiled)
    (hdims : args.input.dims = p.inputDims) (hbatch : 0 < p.batch)
    (hprovided : args.Provided running) :
    folded.faults "batch_norm" tiled = args.sizeFaults running := by
  obtain ⟨hmeans, hvars⟩ := hf.isSome_statistics
  have hmean : folded.training = false → tiled.mean.isSome = true :=
    fun ht => hmeans.trans (hprovided (hf.training ▸ ht)).1
  have hvar : folded.training = false → tiled.var.isSome = true :=
    fun ht => hvars.trans (hprovided (hf.training ▸ ht)).2
  unfold ForwardArgs.faults ForwardArgs.sizeFaults
  dsimp only
  rw [if_neg (Nat.not_lt.2 hf.rank), statisticFaults_of_isSome hmean,
    statisticFaults_of_isSome hvar, hf.channels, headD_of_dims hdims, channels_of_dims hdims,
    paramFaults_repeatParam hbatch hf.mean, paramFaults_repeatParam hbatch hf.var,
    paramFaults_repeatParam hbatch hf.weight, paramFaults_repeatParam hbatch hf.bias]

end InstanceNormPlan

/-! ## §3. Calls. -/

section
variable [OrderedArith A] [Element α A] (ex : Executor) (registry : Registry α A) (enabled : Bool)
  {p : InstanceNormPlan} {args folded : ForwardArgs α A} {running tiled : ChannelStats α}

/-- A call without the statistics of its mode is refused before anything else. -/
theorem instanceNormForward_of_not_provided (h : ¬ args.Provided running) :
    instanceNormForward ex registry enabled args running
      = .refused .instanceStatistics running := by
  have hmissing : (!args.training && (running.mean.isNone || running.var.isNone)) = true := by
    rw [← Bool.not_eq_false, statisticsMissing_eq_false]
    exact h
  unfold instanceNormForward
  rw [if_pos hmissing]

/-- A call with a sample and a wrong size fails on the first one. -/
theorem instanceNormForward_of_not_sized (hrank : 2 ≤ args.input.rank)
    (hsample : 0 < args.input.dims.headD 0) (hprovided : args.Provided running)
    (hsized : ¬ args.Sized running) :
    (args.AllTileable running → ∃ e, (args.sizeFaults running).head? = some e
        ∧ instanceNormForward ex registry enabled args running = .refused e running)
      ∧ (¬ args.AllTileable running →
        instanceNormForward ex registry enabled args running
          = .refused .addressOverflow running) := by
  obtain ⟨p, hdims⟩ := InstanceNormPlan.exists_of_rank hrank
  constructor
  · intro htileable
    obtain ⟨folded, tiled, hf⟩ := InstanceNormPlan.exists_foldsTo_of_tileable hdims htileable
    have hfaults := hf.faults hdims (InstanceNormPlan.headD_of_dims hdims ▸ hsample) hprovided
    cases hsizes : args.sizeFaults running with
    | nil => exact absurd (ForwardArgs.sizeFaults_eq_nil.1 hsizes) hsized
    | cons e more =>
        have hfirst : (folded.faults "batch_norm" tiled).head? = some e := by
          rw [hfaults, hsizes]
          rfl
        refine ⟨e, rfl, ?_⟩
        rw [instanceNormForward_of_foldsTo ex registry enabled hdims hf hprovided,
          batchNormForward_refused ex registry enabled folded tiled hfirst]
        rfl
  · intro hoverflow
    exact instanceNormForward_of_foldCall_error ex registry enabled hdims
      (InstanceNormPlan.foldCall_overflow hdims hoverflow) hprovided

/-- Without samples, sizes matter where the running statistics are written back. -/
theorem instanceNormForward_of_empty (hrank : 2 ≤ args.input.rank)
    (hempty : args.input.dims.headD 0 = 0) (hprovided : args.Provided running)
    (hspares :
      (instanceNormForward ex registry enabled args running).toLogged.SparesAccelerators) :
    let call := instanceNormForward ex registry enabled args running
    ((∃ f, call.result = .ok f) ↔ OnePerChannel args.input.channels running.mean
        ∧ OnePerChannel args.input.channels running.var)
      ∧ ∀ e, call.result = .error e → ∃ t, (running.mean = some t ∨ running.var = some t)
        ∧ t.numel ≠ args.input.channels
        ∧ e = .reshapeCount args.input.channels t.dims [args.input.channels] := by
  intro call
  have hfoldable : args.Foldable running :=
    ⟨hrank, hprovided, fun hpos => absurd hempty (Nat.ne_of_gt hpos)⟩
  obtain ⟨p, hdims⟩ := InstanceNormPlan.exists_of_rank hrank
  obtain ⟨folded, tiled, hf⟩ := hfoldable.exists_foldsTo hdims
  have haccepted := (hf.accepted_iff hdims).2 hfoldable
  have hcall := instanceNormForward_eq_finish ex registry enabled hdims hf hfoldable
  have hfinish := hf.finishable haccepted
    (InstanceNormPlan.folded_ran_native ex haccepted hcall hspares)
  have hresult : call.result
      = (p.finish running (batchNormForward ex registry enabled folded tiled)).result :=
    congrArg (·.result) hcall
  rw [InstanceNormPlan.channels_of_dims hdims, hresult]
  constructor
  · constructor
    · rintro ⟨f, hok⟩
      exact hfinish.sizes_of_ok hok
    · rintro ⟨hmean, hvar⟩
      obtain ⟨f, _, _, hok, _⟩ := hfinish.result_ok hmean hvar
      exact ⟨f, hok⟩
  · intro e he
    -- the mean is written back before the variance
    by_cases hmean : OnePerChannel p.channels running.mean
    · by_cases hvar : OnePerChannel p.channels running.var
      · obtain ⟨f, _, _, hok, _⟩ := hfinish.result_ok hmean hvar
        cases hok.symm.trans he
      · obtain ⟨var, hcaller, hsize⟩ := not_onePerChannel_iff.1 hvar
        obtain ⟨_, _, hfails, _⟩ := hfinish.of_var hmean hcaller hsize
        exact ⟨var, .inr hcaller, hsize, Except.error.inj (he.symm.trans hfails)⟩
    · obtain ⟨mean, hcaller, hsize, hfails, _⟩ := hfinish.of_mean hmean
      exact ⟨mean, .inl hcaller, hsize, Except.error.inj (he.symm.trans hfails)⟩

/-- A call with a sample that succeeds, on whatever implementation, was supplied
with sizes that are right; and such a call succeeds natively. -/
theorem instanceNormForward_accepts (hsample : 0 < args.input.dims.headD 0) :
    (∀ f, (instanceNormForward ex registry enabled args running).result = .ok f →
        args.Accepted running)
      ∧ ((instanceNormForward ex registry enabled args running).toLogged.SparesAccelerators →
        args.Accepted running →
        ∃ f, (instanceNormForward ex registry enabled args running).result = .ok f) := by
  rcases instanceNormForward_cases ex registry enabled args running with
    ⟨hnot, e, he⟩ | ⟨hfoldable, p, folded, tiled, hdims, hf, haccepted, hcall⟩
  · rw [he]
    exact ⟨nofun, fun _ h => absurd h.foldable hnot⟩
  · refine ⟨fun _ _ => hfoldable.sizes hsample, fun hspares h => ?_⟩
    have hfinish := hf.finishable haccepted
      (InstanceNormPlan.folded_ran_native ex haccepted hcall hspares)
    have hchannels : args.input.channels = p.channels := InstanceNormPlan.channels_of_dims hdims
    obtain ⟨f, _, _, hok, _⟩ := hfinish.result_ok (hchannels ▸ h.mean) (hchannels ▸ h.var)
    rw [hcall]
    exact ⟨f, hok⟩

end

/-- **With a sample every size is checked; without one, no size but those of the
running statistics.**

A call with a sample succeeds only with one value per channel in everything it
is supplied with, and natively then it does.  Where the statistics of its mode
are there and some size is wrong, it fails before anything changes: with the
shape mismatch of the first wrong size, as the folded call counts it, or on an
overflow where some copies could not be addressed.

Without samples there is nothing to count.  Weight and bias are of any size, and
a running statistic of the wrong size is found when it is written back, as an
invalid shape. -/
theorem supplied_sizes_checked [OrderedArith A] [Element α A] (ex : Executor)
    (registry : Registry α A) (enabled : Bool) (args : ForwardArgs α A)
    (running : ChannelStats α) (hrank : 2 ≤ args.input.rank) :
    let call := instanceNormForward ex registry enabled args running
    let samples := args.input.dims.headD 0
    let channels := args.input.channels
    (¬ args.Provided running → call = .refused .instanceStatistics running)
    ∧ (0 < samples →
      (∀ f, call.result = .ok f → args.Sized running)
      ∧ (call.toLogged.SparesAccelerators →
        ((∃ f, call.result = .ok f) ↔ args.Provided running ∧ args.Sized running))
      ∧ (args.Provided running → ¬ args.Sized running →
        (args.AllTileable running → ∃ e, (args.sizeFaults running).head? = some e
          ∧ (∃ expected got, e.fault = .shapeMismatch expected got) ∧ call = .refused e running)
        ∧ (¬ args.AllTileable running → call = .refused .addressOverflow running)))
    ∧ (samples = 0 → call.toLogged.SparesAccelerators → args.Provided running →
      ((∃ f, call.result = .ok f)
          ↔ OnePerChannel channels running.mean ∧ OnePerChannel channels running.var)
        ∧ ∀ e, call.result = .error e → ∃ t, (running.mean = some t ∨ running.var = some t)
          ∧ t.numel ≠ channels ∧ e = .reshapeCount channels t.dims [channels]) := by
  intro call samples channels
  refine ⟨?missing, ?sampled, ?empty⟩
  case missing => exact instanceNormForward_of_not_provided ex registry enabled
  case sampled =>
    intro hsample
    have haccepted : args.Accepted running ↔ args.Provided running ∧ args.Sized running :=
      ForwardArgs.accepted_iff_sized hrank
    obtain ⟨honly, hnative⟩ : (∀ f, call.result = .ok f → args.Accepted running)
        ∧ (call.toLogged.SparesAccelerators → args.Accepted running →
          ∃ f, call.result = .ok f) :=
      instanceNormForward_accepts ex registry enabled hsample
    refine ⟨fun f hok => (haccepted.1 (honly f hok)).2, fun hspares => ⟨?_, ?_⟩, ?_⟩
    · rintro ⟨f, hok⟩
      exact haccepted.1 (honly f hok)
    · exact fun h => hnative hspares (haccepted.2 h)
    · intro hprovided hsized
      obtain ⟨hrefused, hoverflow⟩ := instanceNormForward_of_not_sized ex registry enabled hrank
        hsample hprovided hsized
      refine ⟨fun htileable => ?_, hoverflow⟩
      obtain ⟨e, hfirst, hcall⟩ := hrefused htileable
      exact ⟨e, hfirst,
        ForwardArgs.shapeMismatch_of_mem_sizeFaults (List.mem_of_mem_head? hfirst), hcall⟩
  case empty =>
    intro hempty hspares hprovided
    exact instanceNormForward_of_empty ex registry enabled hrank hempty hprovided hspares

/-- A training call on samples of two channels, with a weight of three values. -/
def threeWeights (samples : Nat) : ForwardArgs Float32 Float where
  input := .fewRows samples 2 1
  weight := some (.few 3 1)
  bias := none
  training := true
  momentum := 0
  eps := 1

/-- One sample is enough to find the weight too long; without any the call
returns. -/
theorem supplied_sizes_checked_empty :
    let ex : Executor := ⟨.standard, 4⟩
    instanceNormForward ex .empty false (threeWeights 1) .none
        = .refused (.channelCount "batch_norm" "weight" 2 3 [3]) .none
      ∧ ∃ f, (instanceNormForward ex .empty false (threeWeights 0) .none).result = .ok f := by
  intro ex
  constructor
  · have hsized : ¬ (threeWeights 1).Sized .none :=
      fun h => absurd (h.weight _ rfl) (by decide)
    have htileable : (threeWeights 1).AllTileable .none := by
      refine ⟨?_, nofun, nofun, nofun⟩
      rintro _ ⟨⟩
      decide
    obtain ⟨e, hfirst, _, hcall⟩ := (((supplied_sizes_checked ex .empty false (threeWeights 1) .none
      (by decide)).2.1 (by decide)).2.2 nofun hsized).1 htileable
    have hfault : some (TensorError.channelCount "batch_norm" "weight" 2 3 [3]) = some e := hfirst
    rw [hcall, ← Option.some.inj hfault]
  · have hoff := instanceNormForward_switchedOff ex .empty false (.inl rfl) (threeWeights 0) .none
    have hspares := hoff.spares_iff.2 (by
      rintro a ⟨_, heligible⟩
      cases heligible.installed)
    exact ((supplied_sizes_checked ex .empty false (threeWeights 0) .none (by decide)).2.2 rfl
      hspares nofun).1.2 ⟨nofun, nofun⟩

end ChannelNorm

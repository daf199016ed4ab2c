/-
  ChannelNorm.Proofs.InstanceNorm.Failure
  ───────────────────────────────────────
  **WHAT A FAILED CALL LEAVES OF THE RUNNING STATISTICS.**

  A native call writes the running mean back, then the running variance, then
  unfolds its output; what has been written stays written.  Once the folded call
  has succeeded, writing back can only fail on the size of the caller's tensor,
  and with samples the checks of the folded call have ruled that out.  Without
  samples they have not:

      samples            →  a call that fails leaves both statistics alone
      none, mean wrong   →  it fails before anything is written
      none, var wrong    →  it fails with the mean already replaced
-/
import ChannelNorm.Proofs.Backend.Switch

namespace ChannelNorm

variable {α A : Type}

/-! ## §1. The folded call on the native implementation. -/

section
variable [OrderedArith A] [Element α A] (ex : Executor) {args : ForwardArgs α A}
  {running : ChannelStats α}

/-- An accepted call that puts no accelerator to work runs natively. -/
theorem native_of_sparesAccelerators {registry : Registry α A} {enabled : Bool}
    (h : args.Accepted running)
    (hspares : (batchNormForward ex registry enabled args running).toLogged.SparesAccelerators) :
    Implementation.native.Ran ex args running
      (batchNormForward ex registry enabled args running) := by
  have hran := batchNormForward_ran ex registry enabled args running h
  generalize Implementation.ofSelection _ = impl at hran
  cases impl with
  | native => exact hran
  | accelerator slot a =>
      obtain ⟨weight, bias, _, _, hinvoked, _⟩ := hran
      have hhead : (batchNormForward ex registry enabled args running).toLogged.RanForward slot
          a.handle := ⟨args.handed weight bias, by rw [hinvoked]; rfl⟩
      exact absurd hspares hhead.not_sparesAccelerators

/-- An accepted native call keeps the statistics that are there, and their
sizes. -/
theorem statistics_nativeBatchNorm (h : args.Accepted running) :
    let left := (nativeBatchNorm ex args running).running
    (left.mean.isSome = running.mean.isSome ∧ left.var.isSome = running.var.isSome)
      ∧ OnePerChannel args.input.channels left.mean
      ∧ OnePerChannel args.input.channels left.var := by
  intro left
  cases ht : args.training with
  | true =>
      refine ⟨?_, onePerChannel_nativeBatchNorm ex h ht⟩
      have hleft : left = running.afterBatch args.input args.momentum :=
        running_nativeBatchNorm_training ex h ht
      rw [hleft]
      unfold ChannelStats.afterBatch ChannelStats.blend
      constructor
      · exact Option.isSome_map
      · exact Option.isSome_map
  | false =>
      have hleft : left = running := (nativeBatchNorm_inferred ex h ht).2
      rw [hleft]
      exact ⟨⟨rfl, rfl⟩, h.mean, h.var⟩

end

/-! ## §2. Finishing a native call. -/

/-- A tensor that is there and has another size. -/
theorem not_onePerChannel_iff {channels : Nat} {p : Option (Tensor α)} :
    ¬ OnePerChannel channels p ↔ ∃ t, p = some t ∧ t.numel ≠ channels := by
  unfold OnePerChannel
  simp only [not_forall, exists_prop]

section
variable [OrderedArith A] [Element α A] {p : InstanceNormPlan} {running : ChannelStats α}

/-- A tensor of another size cannot be written back to. -/
theorem InstanceNormPlan.writeBack_error {caller : Tensor α} {tiled : Option (Tensor α)}
    (hsome : tiled.isSome = true) (htiled : OnePerChannel (p.batch * p.channels) tiled)
    (hcaller : caller.numel ≠ p.channels) :
    p.writeBack (some caller) tiled
      = .error (.reshapeCount p.channels caller.dims [p.channels]) := by
  obtain ⟨u, rfl⟩ := Option.isSome_iff_exists.1 hsome
  rw [writeBack_eq (htiled u rfl), if_neg hcaller]

/-- What a folded call has to have left to be finished: tiled statistics where
the caller has some, and an output of the folded shape. -/
structure InstanceNormPlan.Finishable (p : InstanceNormPlan) (running : ChannelStats α)
    (call : Run α A (Forward α)) : Prop where
  returned : ∃ forward, call.result = .ok forward ∧ forward.output.dims = p.foldedDims
  hasMean : call.running.mean.isSome = running.mean.isSome
  hasVar : call.running.var.isSome = running.var.isSome
  mean : OnePerChannel (p.batch * p.channels) call.running.mean
  var : OnePerChannel (p.batch * p.channels) call.running.var

namespace InstanceNormPlan.Finishable

variable {call : Run α A (Forward α)} (h : p.Finishable running call)
include h

/-- With statistics of the right size finishing succeeds. -/
theorem result_ok (hmean : OnePerChannel p.channels running.mean)
    (hvar : OnePerChannel p.channels running.var) :
    ∃ forward mean var, (p.finish running call).result = .ok forward
      ∧ (p.finish running call).running = ⟨mean, var⟩
      ∧ OnePerChannel p.channels mean ∧ OnePerChannel p.channels var := by
  obtain ⟨forward, hresult, hdims⟩ := h.returned
  obtain ⟨mean, hwmean, hcmean⟩ := writeBack_ok hmean h.mean
  obtain ⟨var, hwvar, hcvar⟩ := writeBack_ok hvar h.var
  obtain ⟨output, hunfold, _⟩ := unfold_ok hdims
  refine ⟨{ forward with output }, mean, var, ?_, ?_, hcmean, hcvar⟩
  · simp only [finish, hresult, hwmean, hwvar, hunfold]
    rfl
  · simp only [finish, hresult, hwmean, hwvar]

/-- A mean of another size is found before anything is written. -/
theorem of_mean (hmean : ¬ OnePerChannel p.channels running.mean) :
    ∃ mean, running.mean = some mean ∧ mean.numel ≠ p.channels
      ∧ (p.finish running call).result
        = .error (.reshapeCount p.channels mean.dims [p.channels])
      ∧ (p.finish running call).running = running := by
  obtain ⟨forward, hresult, _⟩ := h.returned
  obtain ⟨t, hcaller, hsize⟩ := not_onePerChannel_iff.1 hmean
  have hsome : call.running.mean.isSome = true := by
    rw [h.hasMean, hcaller]
    rfl
  have hwrite := writeBack_error hsome h.mean hsize
  rw [← hcaller] at hwrite
  refine ⟨t, hcaller, hsize, ?_, ?_⟩
  · simp only [finish, hresult, hwrite]
  · simp only [finish, hresult, hwrite]

/-- A variance of another size is found when the mean has been written. -/
theorem of_var {var : Tensor α} (hmean : OnePerChannel p.channels running.mean)
    (hcaller : running.var = some var) (hsize : var.numel ≠ p.channels) :
    ∃ mean, p.writeBack running.mean call.running.mean = .ok mean
      ∧ (p.finish running call).result
        = .error (.reshapeCount p.channels var.dims [p.channels])
      ∧ (p.finish running call).running = { running with mean } := by
  obtain ⟨forward, hresult, _⟩ := h.returned
  obtain ⟨mean, hwmean, _⟩ := writeBack_ok hmean h.mean
  have hsome : call.running.var.isSome = true := by
    rw [h.hasVar, hcaller]
    rfl
  have hwrite := writeBack_error hsome h.var hsize
  rw [← hcaller] at hwrite
  refine ⟨mean, hwmean, ?_, ?_⟩
  · simp only [finish, hresult, hwmean, hwrite]
  · simp only [finish, hresult, hwmean, hwrite]

/-- Without samples nothing but undefined values is written. -/
theorem writeBack_mean_of_empty {mean : Tensor α} (hempty : p.batch = 0)
    (hcaller : running.mean = some mean) (hsize : mean.numel = p.channels) :
    p.writeBack running.mean call.running.mean
      = .ok (some (mean.overwrite (List.replicate p.channels Arith.undefined))) := by
  have hsome : call.running.mean.isSome = true := by
    rw [h.hasMean, hcaller]
    rfl
  obtain ⟨u, hu⟩ := Option.isSome_iff_exists.1 hsome
  rw [hcaller, hu, writeBack_eq (h.mean u hu), if_pos hsize, averages_of_batch_eq_zero hempty]

/-- Finishing succeeds with statistics of the right size only. -/
theorem sizes_of_ok {forward : Forward α} (hok : (p.finish running call).result = .ok forward) :
    OnePerChannel p.channels running.mean ∧ OnePerChannel p.channels running.var := by
  by_cases hmean : OnePerChannel p.channels running.mean
  · by_cases hvar : OnePerChannel p.channels running.var
    · exact ⟨hmean, hvar⟩
    · obtain ⟨var, hcaller, hsize⟩ := not_onePerChannel_iff.1 hvar
      obtain ⟨_, _, hresult, _⟩ := h.of_var hmean hcaller hsize
      rw [hresult] at hok
      cases hok
  · obtain ⟨_, _, _, hresult, _⟩ := h.of_mean hmean
    rw [hresult] at hok
    cases hok

end InstanceNormPlan.Finishable

/-- A folded call that ran natively can be finished. -/
theorem InstanceNormPlan.FoldsTo.finishable {ex : Executor}
    {args folded : ForwardArgs α A} {tiled : ChannelStats α} {call : Run α A (Forward α)}
    (hf : p.FoldsTo args running folded tiled) (h : folded.Accepted tiled)
    (hran : Implementation.native.Ran ex folded tiled call) : p.Finishable running call := by
  obtain ⟨_, hrunning, forward, hnative, hresult⟩ := hran
  obtain ⟨hmeans, hvars⟩ := hf.isSome_statistics
  obtain ⟨⟨hmean, hvar⟩, hcmean, hcvar⟩ := statistics_nativeBatchNorm ex h
  rw [← hrunning] at hmean hvar hcmean hcvar
  rw [hf.channels] at hcmean hcvar
  refine ⟨⟨forward, hresult, ?_⟩, hmean.trans hmeans, hvar.trans hvars, hcmean, hcvar⟩
  rcases nativeBatchNorm_outcome ex folded tiled with ⟨_, _, hnot, _⟩ | ⟨_, f, hf', hdims, _⟩
  · exact absurd h hnot
  · rw [hnative] at hf'
    cases hf'
    rw [hdims, hf.dims]

/-- Where no accelerator is put to work, the folded call runs natively. -/
theorem InstanceNormPlan.folded_ran_native (ex : Executor) {registry : Registry α A}
    {enabled : Bool} {args folded : ForwardArgs α A} {tiled : ChannelStats α}
    (h : folded.Accepted tiled)
    (hcall : instanceNormForward ex registry enabled args running
      = p.finish running (batchNormForward ex registry enabled folded tiled))
    (hspares :
      (instanceNormForward ex registry enabled args running).toLogged.SparesAccelerators) :
    Implementation.native.Ran ex folded tiled
      (batchNormForward ex registry enabled folded tiled) := by
  refine native_of_sparesAccelerators ex h fun i hi => hspares i ?_
  rwa [hcall, invocations_finish]

end

/-! ## §3. What a failed call leaves. -/

/-- An input without samples, a running mean of the right size and a running
variance of another one.  Nothing is found wrong with this until the mean has
been replaced. -/
structure ForwardArgs.LateMismatch (args : ForwardArgs α A) (running : ChannelStats α)
    (mean var : Tensor α) : Prop where
  rank : 2 ≤ args.input.rank
  empty : args.input.dims.headD 0 = 0
  hasMean : running.mean = some mean
  hasVar : running.var = some var
  meanSize : mean.numel = args.input.channels
  varSize : var.numel ≠ args.input.channels

/-- A late mismatch passes the checks of the folded call. -/
theorem ForwardArgs.LateMismatch.foldable {args : ForwardArgs α A}
    {running : ChannelStats α} {mean var : Tensor α} (h : args.LateMismatch running mean var) :
    args.Foldable running := by
  refine ⟨h.rank, ?_, ?_⟩
  · intro _
    rw [h.hasMean, h.hasVar]
    exact ⟨rfl, rfl⟩
  · intro hpos
    rw [h.empty] at hpos
    exact absurd hpos (Nat.lt_irrefl 0)

/-- How a native call treats the caller's running statistics when it fails: it
leaves them alone, except on a late mismatch, on which it always fails, and then
the mean holds undefined values only. -/
structure Run.FailsCleanlyBut {ρ : Type} [Arith α] (call : Run α A ρ) (args : ForwardArgs α A)
    (running : ChannelStats α) : Prop where
  clean : (∀ mean var, ¬ args.LateMismatch running mean var) →
    ∀ e, call.result = .error e → call.running = running
  late : ∀ mean var, args.LateMismatch running mean var →
    call.result = .error (.reshapeCount args.input.channels var.dims [args.input.channels])
      ∧ ∃ replaced, call.running = { running with mean := some replaced }
        ∧ replaced.dims = mean.dims ∧ replaced.device = mean.device
        ∧ replaced.toList = List.replicate args.input.channels Arith.undefined

/-- A call that fails when another does, and leaves what that one leaves. -/
theorem Run.FailsCleanlyBut.of_result {ρ σ : Type} [Arith α] {call : Run α A ρ}
    {other : Run α A σ} {args : ForwardArgs α A} {running : ChannelStats α}
    (h : call.FailsCleanlyBut args running) (hrunning : other.running = call.running)
    (hfails : ∀ e, other.result = .error e → ∃ e', call.result = .error e')
    (hlate : args.Foldable running → ∀ e, call.result = .error e → other.result = .error e) :
    other.FailsCleanlyBut args running := by
  constructor
  · intro hnone e he
    obtain ⟨e', he'⟩ := hfails e he
    rw [hrunning]
    exact h.clean hnone e' he'
  · intro mean var hmismatch
    obtain ⟨hresult, hleft⟩ := h.late mean var hmismatch
    rw [hrunning]
    exact ⟨hlate hmismatch.foldable _ hresult, hleft⟩

section
variable [OrderedArith A] [Element α A] (ex : Executor) (registry : Registry α A) (enabled : Bool)
  {args : ForwardArgs α A} {running : ChannelStats α}

/-- A native call that fails although it could be folded has found a statistic
of the wrong size, and there are no samples. -/
theorem instanceNormForward_failsCleanlyBut
    (hspares :
      (instanceNormForward ex registry enabled args running).toLogged.SparesAccelerators) :
    (instanceNormForward ex registry enabled args running).FailsCleanlyBut args running := by
  rcases instanceNormForward_cases ex registry enabled args running with
    ⟨hnot, e, he⟩ | ⟨hfoldable, p, folded, tiled, hdims, hf, haccepted, hcall⟩
  · rw [he]
    exact ⟨fun _ _ _ => rfl, fun mean var hlate => absurd hlate.foldable hnot⟩
  · have hfinish := hf.finishable haccepted
      (InstanceNormPlan.folded_ran_native ex haccepted hcall hspares)
    have hchannels : args.input.channels = p.channels := InstanceNormPlan.channels_of_dims hdims
    have hbatch : args.input.dims.headD 0 = p.batch := InstanceNormPlan.headD_of_dims hdims
    rw [hcall]
    constructor
    · intro hnone e he
      by_cases hmean : OnePerChannel p.channels running.mean
      · by_cases hvar : OnePerChannel p.channels running.var
        · obtain ⟨forward, _, _, hok, _⟩ := hfinish.result_ok hmean hvar
          rw [hok] at he
          cases he
        · obtain ⟨var, hsome, hsize⟩ := not_onePerChannel_iff.1 hvar
          -- with samples the checks of the folded call have seen the size
          have hempty : p.batch = 0 := by
            by_contra hne
            have hsizes := hfoldable.sizes (hbatch.symm ▸ Nat.pos_of_ne_zero hne)
            exact hvar (hchannels ▸ hsizes.var)
          obtain ⟨written, hwrite, _, hrunning⟩ := hfinish.of_var hmean hsome hsize
          cases hcaller : running.mean with
          | none =>
              rw [hcaller] at hwrite
              cases hwrite
              rw [hrunning, ← hcaller]
          | some mean =>
              refine absurd ?_ (hnone mean var)
              exact ⟨hfoldable.rank, hbatch.trans hempty, hcaller, hsome,
                hchannels ▸ hmean mean hcaller, hchannels ▸ hsize⟩
      · obtain ⟨_, _, _, _, hrunning⟩ := hfinish.of_mean hmean
        exact hrunning
    · intro mean var hlate
      have hmean : OnePerChannel p.channels running.mean := by
        rw [hlate.hasMean, ← hchannels]
        rintro _ ⟨⟩
        exact hlate.meanSize
      have hsize : mean.numel = p.channels := hchannels ▸ hlate.meanSize
      obtain ⟨written, hwrite, hresult, hrunning⟩ :=
        hfinish.of_var hmean hlate.hasVar (hchannels ▸ hlate.varSize)
      rw [hfinish.writeBack_mean_of_empty (hbatch.symm.trans hlate.empty) hlate.hasMean hsize]
        at hwrite
      cases hwrite
      rw [hresult, hrunning, hchannels]
      refine ⟨rfl, _, rfl, rfl, rfl, ?_⟩
      rw [Tensor.toList_overwrite (by rw [List.length_replicate, hsize])]

/-- The output alone is returned under the same conditions. -/
theorem instanceNorm_failsCleanlyBut
    (hspares : (instanceNorm ex registry enabled args running).toLogged.SparesAccelerators) :
    (instanceNorm ex registry enabled args running).FailsCleanlyBut args running := by
  have h := instanceNormForward_failsCleanlyBut ex registry enabled hspares
  refine h.of_result rfl ?_ ?_
  · intro e he
    cases hresult : (instanceNormForward ex registry enabled args running).result with
    | error e' => exact ⟨e', rfl⟩
    | ok forward =>
        simp only [instanceNorm, Run.map, hresult] at he
        cases he
  · intro _ e he
    simp only [instanceNorm, Run.map, he]
    rfl

/-- A native call that succeeded can be recorded. -/
theorem InstanceNormContext.capture_ok {p : InstanceNormPlan} {forward : Forward α}
    (hplan : InstanceNormPlan.ofInput args.input = .ok p)
    (hspares : (instanceNormForward ex registry enabled args running).toLogged.SparesAccelerators)
    (hok : (instanceNormForward ex registry enabled args running).result = .ok forward) :
    ∃ recorded, capture p args (instanceNormForward ex registry enabled args running).running
      forward = .ok recorded := by
  rcases instanceNormForward_cases ex registry enabled args running with
    ⟨_, e, he⟩ | ⟨_, q, folded, tiled, hdims, hf, haccepted, hcall⟩
  · rw [he] at hok
    cases hok
  · rw [InstanceNormPlan.ofInput_ok hdims] at hplan
    cases hplan
    have hfinish := hf.finishable haccepted
      (InstanceNormPlan.folded_ran_native ex haccepted hcall hspares)
    rw [hcall] at hok ⊢
    obtain ⟨hmean, hvar⟩ := hfinish.sizes_of_ok hok
    obtain ⟨_, mean, var, _, hrunning, hcmean, hcvar⟩ := hfinish.result_ok hmean hvar
    rw [hrunning]
    exact hf.capture_ok hcmean hcvar forward

/-- A recorded call fails when the call does. -/
theorem InstanceNormContext.forward_failsCleanlyBut
    (hspares :
      (InstanceNormContext.forward ex registry enabled args running).toLogged.SparesAccelerators) :
    (InstanceNormContext.forward ex registry enabled args running).FailsCleanlyBut args
      running := by
  obtain ⟨hevents, hrunning⟩ := InstanceNormContext.run_forward ex registry enabled args running
  have hspares' :
      (instanceNormForward ex registry enabled args running).toLogged.SparesAccelerators := by
    intro i hi
    refine hspares i ?_
    unfold Logged.invocations
    rwa [hevents]
  have h := instanceNormForward_failsCleanlyBut ex registry enabled hspares'
  refine h.of_result hrunning ?_ ?_
  · intro e he
    cases hplan : InstanceNormPlan.ofInput args.input with
    | error e =>
        obtain ⟨e', he'⟩ := instanceNormForward_refused ex registry enabled
          (@InstanceNormPlan.not_foldable_of_ofInput α A args running e hplan)
        exact ⟨e', by rw [he']; rfl⟩
    | ok p =>
        cases hresult : (instanceNormForward ex registry enabled args running).result with
        | error e' => exact ⟨e', rfl⟩
        | ok forward =>
            obtain ⟨recorded, hcapture⟩ := capture_ok ex registry enabled hplan hspares' hresult
            simp only [InstanceNormContext.forward, hplan, hresult] at he
            replace he : capture p args _ forward = .error e := he
            rw [hcapture] at he
            cases he
  · intro hfoldable e he
    obtain ⟨p, hdims⟩ := InstanceNormPlan.exists_of_rank hfoldable.rank
    simp only [InstanceNormContext.forward, InstanceNormPlan.ofInput_ok hdims, he]
    rfl

end

/-! ## §4. Every call. -/

/-- **What a failed call leaves of the running statistics.**  A native call that
fails leaves the caller's running mean and running variance as they were, with
one exception: without samples, a running mean of one value per channel and a
running variance of another size make the call fail on the variance, and by then
every value of the mean has been replaced by an undefined one. -/
theorem failed_call_leaves_statistics [OrderedArith A] [Element α A] (ex : Executor)
    (registry : Registry α A) (enabled : Bool) (args : ForwardArgs α A)
    (running : ChannelStats α) :
    let kept := instanceNormForward ex registry enabled args running
    let plain := instanceNorm ex registry enabled args running
    let recorded := InstanceNormContext.forward ex registry enabled args running
    (kept.toLogged.SparesAccelerators → kept.FailsCleanlyBut args running)
      ∧ (plain.toLogged.SparesAccelerators → plain.FailsCleanlyBut args running)
      ∧ (recorded.toLogged.SparesAccelerators → recorded.FailsCleanlyBut args running) := by
  intro kept plain recorded
  refine ⟨?_, ?_, ?_⟩
  · exact instanceNormForward_failsCleanlyBut ex registry enabled
  · exact instanceNorm_failsCleanlyBut ex registry enabled
  · exact InstanceNormContext.forward_failsCleanlyBut ex registry enabled

/-- Two channels, no samples. -/
def emptyCall : ForwardArgs Float32 Float where
  input := .build [0, 2] (by decide) [] rfl .cpu
  weight := none
  bias := none
  training := true
  momentum := 0
  eps := 1

/-- A mean of two values and a variance of three. -/
def unevenRunning : ChannelStats Float32 where
  mean := some (.few 2 1)
  var := some (.few 3 1)

/-- The variance is refused, and the mean is gone. -/
theorem failed_call_leaves_statistics_replaced :
    let call := instanceNormForward ⟨.standard, 4⟩ .empty false emptyCall unevenRunning
    call.toLogged.SparesAccelerators
      ∧ call.result = .error (.reshapeCount 2 [3] [2])
      ∧ ∃ mean, call.running = { unevenRunning with mean := some mean }
        ∧ mean.toList = [Arith.undefined, Arith.undefined] := by
  intro call
  have hspares : call.toLogged.SparesAccelerators := by
    have hoff := instanceNormForward_switchedOff ⟨.standard, 4⟩ .empty false (.inl rfl) emptyCall
      unevenRunning
    apply hoff.spares_iff.2
    rintro a ⟨_, heligible⟩
    cases heligible.installed
  have hlate : emptyCall.LateMismatch unevenRunning _ _ :=
    ⟨by decide, rfl, rfl, rfl, rfl, by decide⟩
  obtain ⟨hresult, mean, hrunning, _, _, hlist⟩ :=
    ((failed_call_leaves_statistics ⟨.standard, 4⟩ .empty false emptyCall unevenRunning).1
      hspares).late _ _ hlate
  exact ⟨hspares, hresult, mean, hrunning, hlist⟩

end ChannelNorm

/-
  ChannelNorm.Proofs.Backend.Selection
  ────────────────────────────────────
  **WHICH IMPLEMENTATION A CALL RUNS ON.**

  What makes an accelerator eligible is stated here without reference to the
  dispatcher: `Eligible` for each slot, and `Chosen`, the first eligible one in
  the order `cudnn`, `miopen`, native.  Exactly one implementation is chosen,
  and an accepted call puts that one to work and no other:

      faults            →  refused, nothing runs
      native chosen     →  the native forward runs, once
      a slot chosen     →  its accelerator runs, once; its failure is final

  Layer and group normalization call without affine parameters, so for them
  the native implementation is always the one.
-/
import ChannelNorm.GroupNorm
import ChannelNorm.Proofs.Backend.Pairing
import ChannelNorm.Proofs.BatchNorm.Totality

namespace ChannelNorm

variable {α A : Type}

/-! ## §1. Eligibility. -/

/-- What can compute a forward call. -/
inductive Implementation (α A : Type) where
  | native
  | accelerator (slot : AcceleratorSlot) (a : Accelerator α A)

/-- The tag that names an implementation. -/
def Implementation.tag : Implementation α A → BackendTag
  | .native => .native
  | .accelerator slot _ => slot.tag

/-- What every accelerator asks of a call. -/
structure Acceleratable (args : ForwardArgs α A) (running : ChannelStats α) : Prop where
  device : ∃ id, args.input.device = .gpu id
  weight : args.weight ≠ none
  bias : args.bias ≠ none
  statistics : (running.mean ≠ none ∧ running.var ≠ none)
    ∨ args.training = true ∧ running.mean = none ∧ running.var = none

/-- The dispatcher asks for the same. -/
theorem acceleratable_eq_true {args : ForwardArgs α A} {running : ChannelStats α} :
    acceleratable args running = true ↔ Acceleratable args running := by
  have hdevice : args.input.device.isGpu = true ↔ ∃ id, args.input.device = .gpu id := by
    cases args.input.device with
    | cpu => exact ⟨nofun, nofun⟩
    | gpu id => exact ⟨fun _ => ⟨id, rfl⟩, fun _ => rfl⟩
  have hstatistics : runningCompatible running.mean.isSome running.var.isSome args.training = true
      ↔ (running.mean ≠ none ∧ running.var ≠ none)
        ∨ args.training = true ∧ running.mean = none ∧ running.var = none := by
    unfold runningCompatible
    cases running.mean <;> cases running.var <;> simp
  unfold acceleratable
  rw [Bool.and_eq_true, Bool.and_eq_true, Bool.and_eq_true, hdevice, hstatistics,
    Option.isSome_iff_ne_none, Option.isSome_iff_ne_none]
  constructor
  · rintro ⟨⟨hgpu, hweight, hbias⟩, hrunning⟩
    exact ⟨hgpu, hweight, hbias, hrunning⟩
  · intro h
    exact ⟨⟨h.device, h.weight, h.bias⟩, h.statistics⟩

section
variable [OrderedArith A] [Element α A]

/-- An accelerator that may run a call, and the slot it is installed in. -/
inductive Eligible (config : NormConfig) (registry : Registry α A) (enabled : Bool)
    (args : ForwardArgs α A) (running : ChannelStats α) :
    AcceleratorSlot → Accelerator α A → Prop where
  | cudnn {a : Accelerator α A} (installed : registry.get .cudnn = some a)
      (common : Acceleratable args running) (batch : args.input.dims.headD 0 ≤ 131070)
      (flag : enabled = true) (switch : config.allowAccelerators = true)
      (version : 5110 ≤ a.version) (epsilon : OrderedArith.le a.minEpsilon args.eps = true) :
      Eligible config registry enabled args running .cudnn a
  | miopen {a : Accelerator α A} (installed : registry.get .miopen = some a)
      (common : Acceleratable args running) (rank : args.input.rank ≤ 4)
      (format : Element.dtype α ≠ .float64) :
      Eligible config registry enabled args running .miopen a

/-- The first eligible implementation; the native one always is. -/
inductive Chosen (config : NormConfig) (registry : Registry α A) (enabled : Bool)
    (args : ForwardArgs α A) (running : ChannelStats α) : Implementation α A → Prop where
  | cudnn {a : Accelerator α A} (h : Eligible config registry enabled args running .cudnn a) :
      Chosen config registry enabled args running (.accelerator .cudnn a)
  | miopen {a : Accelerator α A} (h : Eligible config registry enabled args running .miopen a)
      (before : ∀ b, ¬ Eligible config registry enabled args running .cudnn b) :
      Chosen config registry enabled args running (.accelerator .miopen a)
  | native (before : ∀ slot b, ¬ Eligible config registry enabled args running slot b) :
      Chosen config registry enabled args running .native

section
variable {config : NormConfig} {registry : Registry α A} {enabled : Bool}
  {args : ForwardArgs α A} {running : ChannelStats α} {slot : AcceleratorSlot}
  {a b : Accelerator α A}

theorem Eligible.installed (h : Eligible config registry enabled args running slot a) :
    registry.get slot = some a := by
  cases h <;> assumption

theorem Eligible.common (h : Eligible config registry enabled args running slot a) :
    Acceleratable args running := by
  cases h <;> assumption

/-- A slot holds one accelerator. -/
theorem Eligible.eq (ha : Eligible config registry enabled args running slot a)
    (hb : Eligible config registry enabled args running slot b) : a = b :=
  Option.some.inj (ha.installed.symm.trans hb.installed)

/-- At most one implementation is the first eligible one. -/
theorem Chosen.eq {impl other : Implementation α A}
    (h : Chosen config registry enabled args running impl)
    (hother : Chosen config registry enabled args running other) : impl = other := by
  cases h with
  | cudnn h =>
      cases hother with
      | cudnn h' => rw [h.eq h']
      | miopen _ before => exact absurd h (before _)
      | native before => exact absurd h (before _ _)
  | miopen h before =>
      cases hother with
      | cudnn h' => exact absurd h' (before _)
      | miopen h' _ => rw [h.eq h']
      | native before' => exact absurd h (before' _ _)
  | native before =>
      cases hother with
      | cudnn h' => exact absurd h' (before _ _)
      | miopen h' _ => exact absurd h' (before _ _)
      | native _ => rfl

/-! ## §2. What the dispatcher selects. -/

/-- What is left of the `cudnn` slot is the accelerator that is eligible there. -/
theorem filter_cudnn_eq_some :
    registry.cudnn.filter (cudnnEligible config enabled args running) = some a
      ↔ Eligible config registry enabled args running .cudnn a := by
  rw [Option.filter_eq_some_iff]
  unfold cudnnEligible
  simp only [Bool.and_eq_true, decide_eq_true_eq, acceleratable_eq_true]
  constructor
  · rintro ⟨hget, ⟨⟨⟨⟨hcommon, hbatch⟩, hflag⟩, hswitch⟩, hversion⟩, hepsilon⟩
    exact .cudnn hget hcommon hbatch hflag hswitch hversion hepsilon
  · intro h
    cases h with
    | cudnn hget hcommon hbatch hflag hswitch hversion hepsilon =>
        exact ⟨hget, ⟨⟨⟨⟨hcommon, hbatch⟩, hflag⟩, hswitch⟩, hversion⟩, hepsilon⟩

/-- What is left of the `miopen` slot is the accelerator that is eligible there. -/
theorem filter_miopen_eq_some :
    registry.miopen.filter (fun _ => miopenEligible args running) = some a
      ↔ Eligible config registry enabled args running .miopen a := by
  rw [Option.filter_eq_some_iff]
  unfold miopenEligible
  simp only [Bool.and_eq_true, decide_eq_true_eq, acceleratable_eq_true, bne_iff_ne]
  constructor
  · rintro ⟨hget, ⟨hcommon, hrank⟩, hformat⟩
    exact .miopen hget hcommon hrank hformat
  · intro h
    cases h with
    | miopen hget hcommon hrank hformat => exact ⟨hget, ⟨hcommon, hrank⟩, hformat⟩

end

/-- The accelerator a selection found, or the native implementation. -/
def Implementation.ofSelection : Option (AcceleratorSlot × Accelerator α A) → Implementation α A
  | none => .native
  | some (slot, a) => .accelerator slot a

/-- **The dispatcher selects the first eligible implementation.** -/
theorem chosen_ofSelection (config : NormConfig) (registry : Registry α A) (enabled : Bool)
    (args : ForwardArgs α A) (running : ChannelStats α) :
    Chosen config registry enabled args running
      (.ofSelection (selectAccelerator config registry enabled args running)) := by
  unfold selectAccelerator
  dsimp only
  cases hcudnn : registry.cudnn.filter (cudnnEligible config enabled args running) with
  | some a => exact .cudnn (filter_cudnn_eq_some.1 hcudnn)
  | none =>
      have hbefore : ∀ b, ¬ Eligible config registry enabled args running .cudnn b := by
        intro b hb
        rw [filter_cudnn_eq_some.2 hb] at hcudnn
        cases hcudnn
      cases hmiopen : registry.miopen.filter fun _ => miopenEligible args running with
      | some a => exact .miopen (filter_miopen_eq_some.1 hmiopen) hbefore
      | none =>
          refine .native fun slot b hb => ?_
          cases slot with
          | cudnn => exact hbefore b hb
          | miopen =>
              rw [filter_miopen_eq_some.2 hb] at hmiopen
              cases hmiopen

/-- A call that an accelerator was selected for has what accelerators ask for. -/
theorem acceleratable_of_selectAccelerator {config : NormConfig} {registry : Registry α A}
    {enabled : Bool} {args : ForwardArgs α A} {running : ChannelStats α}
    {found : AcceleratorSlot × Accelerator α A}
    (h : selectAccelerator config registry enabled args running = some found) :
    Acceleratable args running := by
  obtain ⟨slot, a⟩ := found
  have hchosen := chosen_ofSelection config registry enabled args running
  rw [h] at hchosen
  cases hchosen with
  | cudnn h => exact h.common
  | miopen h _ => exact h.common

/-- No accelerator takes a call without a weight. -/
theorem selectAccelerator_eq_none {config : NormConfig} {registry : Registry α A}
    {enabled : Bool} {args : ForwardArgs α A} {running : ChannelStats α}
    (h : args.weight = none) : selectAccelerator config registry enabled args running = none := by
  cases hselect : selectAccelerator config registry enabled args running with
  | none => rfl
  | some found => exact absurd h (acceleratable_of_selectAccelerator hselect).weight

/-! ## §3. What runs. -/

/-- What an accelerator is handed for a call. -/
def ForwardArgs.handed (args : ForwardArgs α A) (weight bias : Tensor α) :
    AcceleratedForward α A where
  input := args.input.contiguous
  weight := weight.contiguous
  bias := bias.contiguous
  training := args.training
  momentum := args.momentum
  eps := args.eps

/-- A call ran on an implementation and on no other, and returned what that one
returned, under its tag. -/
def Implementation.Ran (impl : Implementation α A) (ex : Executor) (args : ForwardArgs α A)
    (running : ChannelStats α) (call : Run α A (Forward α)) : Prop :=
  match impl with
  | .native =>
      call.invocations = [.nativeForward args]
        ∧ call.running = (nativeBatchNorm ex args running).running
        ∧ ∃ forward, (nativeBatchNorm ex args running).result = .ok forward
          ∧ call.result = .ok forward
  | .accelerator slot a =>
      ∃ weight bias, args.weight = some weight ∧ args.bias = some bias
        ∧ call.invocations
          -- what the accelerator itself sets in motion is its own affair
          = .acceleratorForward slot a.handle (args.handed weight bias)
            :: (a.forward (args.handed weight bias) running).invocations
        ∧ call.running = (a.forward (args.handed weight bias) running).running
        ∧ (∀ cause, (a.forward (args.handed weight bias) running).result = .error cause →
            call.result
              = .error (.backendFailure "batch_norm" slot.name cause.message))
        ∧ ∀ out, (a.forward (args.handed weight bias) running).result = .ok out →
            call.result = .ok
              { output := out.output
                saved := ⟨some out.saveMean, some out.saveVar⟩
                backend := slot.tag }

variable {ex : Executor} {args : ForwardArgs α A} {running : ChannelStats α}

/-- Native runs report notices only. -/
theorem invocations_nativeBatchNorm :
    (nativeBatchNorm ex args running).invocations = [] := by
  unfold nativeBatchNorm Schedule.nativeBatchNorm
  split
  · rfl
  · split
    · rfl
    · unfold Schedule.evaluateForward
      dsimp only
      split <;> rfl

/-- What a native call returns names the native implementation. -/
theorem backend_nativeBatchNorm {forward : Forward α}
    (hok : (nativeBatchNorm ex args running).result = .ok forward) :
    forward.backend = .native := by
  unfold nativeBatchNorm Schedule.nativeBatchNorm at hok
  split at hok
  · cases hok
  · split at hok
    · cases hok
      rfl
    · unfold Schedule.evaluateForward at hok
      dsimp only at hok
      split at hok <;> cases hok <;> rfl

/-- An accepted call on the native implementation runs it. -/
theorem nativeForward_ran (h : args.Accepted running) :
    Implementation.native.Ran ex args running (nativeForward ex args running) := by
  have hevents : (nativeForward ex args running).invocations
      = .nativeForward args :: (nativeBatchNorm ex args running).invocations := rfl
  refine ⟨?_, rfl, ?_⟩
  · rw [hevents, invocations_nativeBatchNorm]
  · -- past the checks the native implementation does not fail
    rcases nativeBatchNorm_outcome ex args running with ⟨_, _, hnot, _⟩ | ⟨_, forward, hok, _⟩
    · exact absurd h hnot
    · exact ⟨forward, hok, hok⟩

/-- A call on an accelerator runs it. -/
theorem acceleratedForward_ran {slot : AcceleratorSlot} {a : Accelerator α A}
    {weight bias : Tensor α} (hweight : args.weight = some weight)
    (hbias : args.bias = some bias) :
    (Implementation.accelerator slot a).Ran ex args running
      (acceleratedForward slot a args weight bias running) := by
  refine ⟨weight, bias, hweight, hbias, rfl, rfl, ?_, ?_⟩
  · intro cause hcause
    unfold acceleratedForward
    dsimp only
    show (Except.mapError _ (a.forward (args.handed weight bias) running).result).map _ = _
    rw [hcause]
    rfl
  · intro out hout
    unfold acceleratedForward
    dsimp only
    show (Except.mapError _ (a.forward (args.handed weight bias) running).result).map _ = _
    rw [hout]
    rfl

/-- The tag of a successful call names the implementation that ran. -/
theorem Implementation.Ran.tag {impl : Implementation α A} {call : Run α A (Forward α)}
    (h : impl.Ran ex args running call) {forward : Forward α} (hok : call.result = .ok forward) :
    forward.backend = impl.tag := by
  cases impl with
  | native =>
      obtain ⟨_, _, returned, hnative, hcall⟩ := h
      rw [hcall] at hok
      cases hok
      exact backend_nativeBatchNorm hnative
  | accelerator slot a =>
      obtain ⟨weight, bias, _, _, _, _, hfailed, hreturned⟩ := h
      cases hresult : (a.forward (args.handed weight bias) running).result with
      | error cause =>
          rw [hfailed cause hresult] at hok
          cases hok
      | ok out =>
          rw [hreturned out hresult] at hok
          cases hok
          rfl

variable (ex : Executor) (registry : Registry α A) (enabled : Bool) (args : ForwardArgs α A)
  (running : ChannelStats α)

/-- An accepted call runs on the implementation that was selected. -/
theorem batchNormForward_ran (h : args.Accepted running) :
    (Implementation.ofSelection (selectAccelerator ex.config registry enabled args running)).Ran
      ex args running (batchNormForward ex registry enabled args running) := by
  obtain ⟨params, hcheck⟩ : ∃ params, checkForward "batch_norm" args running = .ok params :=
    (ForwardArgs.faults_eq_nil.2 h ▸ checkForward_reports "batch_norm" args running).exists_ok
  unfold batchNormForward
  rw [hcheck]
  dsimp only
  cases hselect : selectAccelerator ex.config registry enabled args running with
  | none => exact nativeForward_ran h
  | some found =>
      -- a selected accelerator comes with both affine parameters
      have hcommon := acceleratable_of_selectAccelerator hselect
      obtain ⟨weight, hweight⟩ := Option.ne_none_iff_exists'.1 hcommon.weight
      obtain ⟨bias, hbias⟩ := Option.ne_none_iff_exists'.1 hcommon.bias
      rw [hweight, hbias]
      exact acceleratedForward_ran hweight hbias

/-- Without a weight that is the native one. -/
theorem native_ran_of_no_weight (h : args.Accepted running) (hweight : args.weight = none) :
    Implementation.native.Ran ex args running
      (batchNormForward ex registry enabled args running) := by
  have hran := batchNormForward_ran ex registry enabled args running h
  rwa [selectAccelerator_eq_none hweight] at hran

/-- A call with faults runs nothing. -/
theorem batchNormForward_refused {e : TensorError}
    (h : (args.faults "batch_norm" running).head? = some e) :
    batchNormForward ex registry enabled args running = .refused e running := by
  have hcheck := (checkForward_reports "batch_norm" args running e).2 h
  unfold batchNormForward
  rw [hcheck]

/-- Without an eligible accelerator the registry and the flag do not matter. -/
theorem batchNormForward_eq_of_native
    (h : selectAccelerator ex.config registry enabled args running = none) :
    batchNormForward ex registry enabled args running
      = batchNormForward ex .empty false args running := by
  have hempty : selectAccelerator ex.config .empty false args running = none := rfl
  unfold batchNormForward
  rw [h, hempty]

variable {ex registry enabled args running}

/-- A call that succeeded passed its checks. -/
theorem accepted_of_batchNormForward {forward : Forward α}
    (hok : (batchNormForward ex registry enabled args running).result = .ok forward) :
    args.Accepted running := by
  cases hfaults : args.faults "batch_norm" running with
  | nil => exact ForwardArgs.faults_eq_nil.1 hfaults
  | cons e more =>
      rw [batchNormForward_refused ex registry enabled args running (by rw [hfaults]; rfl)] at hok
      cases hok

/-- A call whose result names the native implementation is the native call. -/
theorem batchNormForward_eq_of_backend {forward : Forward α}
    (hok : (batchNormForward ex registry enabled args running).result = .ok forward)
    (hbackend : forward.backend = .native) :
    batchNormForward ex registry enabled args running
      = batchNormForward ex .empty false args running := by
  have hran := batchNormForward_ran ex registry enabled args running
    (accepted_of_batchNormForward hok)
  cases hselect : selectAccelerator ex.config registry enabled args running with
  | none => exact batchNormForward_eq_of_native ex registry enabled args running hselect
  | some found =>
      obtain ⟨slot, a⟩ := found
      rw [hselect] at hran
      have htag : BackendTag.native = slot.tag := hbackend.symm.trans (hran.tag hok)
      cases slot <;> cases htag

/-- So its result and the statistics it leaves are those of the native forward. -/
theorem native_of_backend {forward : Forward α}
    (hok : (batchNormForward ex registry enabled args running).result = .ok forward)
    (hbackend : forward.backend = .native) :
    (nativeBatchNorm ex args running).result = .ok forward
      ∧ (batchNormForward ex registry enabled args running).running
        = (nativeBatchNorm ex args running).running := by
  have hsame := batchNormForward_eq_of_backend hok hbackend
  obtain ⟨_, hrunning, f, hnative, hf⟩ :=
    batchNormForward_ran ex .empty false args running (accepted_of_batchNormForward hok)
  rw [hsame] at hok ⊢
  obtain rfl : f = forward := Except.ok.inj (hf.symm.trans hok)
  exact ⟨hnative, hrunning⟩

end

/-! ## §4. Calls that are always native. -/

namespace Logged

variable {ρ σ : Type} {P : ρ → Prop} {Q : σ → Prop} {x : Logged α A ρ}
  {f : ρ → Logged α A σ}

/-- A call puts nothing to work, and what it returns is as said. -/
def Quiet (x : Logged α A ρ) (P : ρ → Prop) : Prop :=
  x.invocations = [] ∧ ∀ r, x.result = .ok r → P r

/-- A call puts one native forward to work and nothing else, unless it fails
before, and what it returns is as said. -/
def RunsNatively (x : Logged α A ρ) (P : ρ → Prop) : Prop :=
  (∃ args, x.invocations = [.nativeForward args] ∧ ∀ r, x.result = .ok r → P r)
    ∨ x.invocations = [] ∧ ∃ e, x.result = .error e

/-- A check that comes before a call puts nothing to work. -/
theorem lift_bind_cases (x : Except TensorError ρ) (f : ρ → Logged α A σ) :
    (∃ r, (liftM x : Logged α A ρ) >>= f = f r)
      ∨ ∃ e, (liftM x : Logged α A ρ) >>= f = ⟨.error e, []⟩ := by
  cases x with
  | ok r => exact .inl ⟨r, rfl⟩
  | error e => exact .inr ⟨e, rfl⟩

theorem Quiet.lift_bind {x : Except TensorError ρ} (hf : ∀ r, (f r).Quiet Q) :
    ((liftM x : Logged α A ρ) >>= f).Quiet Q := by
  rcases lift_bind_cases x f with ⟨r, h⟩ | ⟨e, h⟩
  · rw [h]
    exact hf r
  · rw [h]
    exact ⟨rfl, nofun⟩

theorem RunsNatively.lift_bind {x : Except TensorError ρ} (hf : ∀ r, (f r).RunsNatively Q) :
    ((liftM x : Logged α A ρ) >>= f).RunsNatively Q := by
  rcases lift_bind_cases x f with ⟨r, h⟩ | ⟨e, h⟩
  · rw [h]
    exact hf r
  · rw [h]
    exact .inr ⟨rfl, e, rfl⟩

/-- What comes after the native forward puts nothing more to work. -/
theorem RunsNatively.bind (h : x.RunsNatively P) (hf : ∀ r, P r → (f r).Quiet Q) :
    (x >>= f).RunsNatively Q := by
  show (Logged.bind x f).RunsNatively Q
  unfold Logged.bind
  rcases h with ⟨args, hinvoked, hreturned⟩ | ⟨hinvoked, e, he⟩
  · left
    refine ⟨args, ?_⟩
    cases hresult : x.result with
    | error e => exact ⟨hinvoked, nofun⟩
    | ok r =>
        obtain ⟨hquiet, hq⟩ := hf r (hreturned r hresult)
        refine ⟨?_, hq⟩
        show (x.events ++ (f r).events).filterMap Event.invocation? = _
        rw [List.filterMap_append]
        show x.invocations ++ (f r).invocations = _
        rw [hinvoked, hquiet, List.append_nil]
  · right
    rw [he]
    exact ⟨hinvoked, e, rfl⟩

end Logged

section
variable [OrderedArith A] [Element α A] (ex : Executor) (registry : Registry α A) (enabled : Bool)
  (input : Tensor α) (weight bias : Option (Tensor α)) (eps : A)

theorem batchNormForward_plain_eq :
    batchNormForward ex registry enabled (.plain input eps) .none
      = batchNormForward ex .empty false (.plain input eps) .none :=
  batchNormForward_eq_of_native ex registry enabled _ _
    (selectAccelerator_eq_none rfl)

theorem batchNormForward_plain_runsNatively :
    (batchNormForward ex registry enabled (.plain input eps) .none).toLogged.RunsNatively
      (·.backend = .native) := by
  cases hfaults : (ForwardArgs.plain input eps).faults "batch_norm" .none with
  | cons e more =>
      right
      rw [batchNormForward_refused ex registry enabled _ _ (by rw [hfaults]; rfl)]
      exact ⟨rfl, e, rfl⟩
  | nil =>
      left
      have hran := native_ran_of_no_weight ex registry enabled (.plain input eps) .none
        (ForwardArgs.faults_eq_nil.1 hfaults) rfl
      exact ⟨_, hran.1, fun forward hok => hran.tag hok⟩

/-- Layer normalization is native whatever is installed. -/
theorem layerNormForward_runsNatively (normalizedShape : List Nat) :
    (layerNormForward ex registry enabled input normalizedShape weight bias eps).RunsNatively
      (·.backend = .native) := by
  unfold layerNormForward
  refine .lift_bind fun plan => .lift_bind fun folded => ?_
  refine .bind (batchNormForward_plain_runsNatively ex registry enabled folded eps) ?_
  intro forward hforward
  refine .lift_bind fun normalized => .lift_bind fun output => ?_
  refine ⟨rfl, ?_⟩
  rintro _ ⟨⟩
  exact hforward

/-- So is group normalization. -/
theorem groupNormForward_runsNatively (numGroups : Nat) :
    (groupNormForward ex registry enabled input numGroups weight bias eps).RunsNatively
      (·.backend = .native) := by
  unfold groupNormForward
  refine .lift_bind fun plan => .lift_bind fun folded => ?_
  refine .bind (batchNormForward_plain_runsNatively ex registry enabled folded eps) ?_
  intro forward hforward
  refine .lift_bind fun normalized => .lift_bind fun w => .lift_bind fun b =>
    .lift_bind fun output => ?_
  refine ⟨rfl, ?_⟩
  rintro _ ⟨⟩
  exact hforward

theorem layerNormForward_eq (normalizedShape : List Nat) :
    layerNormForward ex registry enabled input normalizedShape weight bias eps
      = layerNormForward ex .empty false input normalizedShape weight bias eps := by
  unfold layerNormForward
  simp only [batchNormForward_plain_eq ex registry enabled]

theorem groupNormForward_eq (numGroups : Nat) :
    groupNormForward ex registry enabled input numGroups weight bias eps
      = groupNormForward ex .empty false input numGroups weight bias eps := by
  unfold groupNormForward
  simp only [batchNormForward_plain_eq ex registry enabled]

end

/-! ## §5. Selection. -/

/-- **Which implementation a call runs on.**  A call with faults reports the
first one and runs nothing.  Any other call runs on the first eligible
implementation, exactly one, and on no other even if that one fails, and a
successful result names it.  Layer and group normalization put at most the
native implementation to work, and do the same whatever is installed. -/
theorem selected_implementation_runs [OrderedArith A] [Element α A] (ex : Executor)
    (registry : Registry α A) (enabled : Bool) :
    (∀ (args : ForwardArgs α A) (running : ChannelStats α),
      let call := batchNormForward ex registry enabled args running
      (∀ e, (args.faults "batch_norm" running).head? = some e →
          call.result = .error e ∧ call.invocations = [] ∧ call.running = running)
      ∧ (args.faults "batch_norm" running = [] →
          ∃ impl, Chosen ex.config registry enabled args running impl
            ∧ (∀ other, Chosen ex.config registry enabled args running other → other = impl)
            ∧ impl.Ran ex args running call
            ∧ ∀ forward, call.result = .ok forward → forward.backend = impl.tag))
    ∧ (∀ (input : Tensor α) (normalizedShape : List Nat) (weight bias : Option (Tensor α))
        (eps : A),
      let call := layerNorm ex registry enabled input normalizedShape weight bias eps
      let kept := layerNormForward ex registry enabled input normalizedShape weight bias eps
      call = layerNorm ex .empty false input normalizedShape weight bias eps
        ∧ kept = layerNormForward ex .empty false input normalizedShape weight bias eps
        ∧ call.RunsNatively (fun _ => True) ∧ kept.RunsNatively (·.backend = .native))
    ∧ ∀ (input : Tensor α) (numGroups : Nat) (weight bias : Option (Tensor α)) (eps : A),
      let call := groupNorm ex registry enabled input numGroups weight bias eps
      let kept := groupNormForward ex registry enabled input numGroups weight bias eps
      call = groupNorm ex .empty false input numGroups weight bias eps
        ∧ kept = groupNormForward ex .empty false input numGroups weight bias eps
        ∧ call.RunsNatively (fun _ => True) ∧ kept.RunsNatively (·.backend = .native) := by
  refine ⟨?_, ?_, ?_⟩
  · intro args running
    constructor
    · intro e he
      rw [batchNormForward_refused ex registry enabled args running he]
      exact ⟨rfl, rfl, rfl⟩
    · intro hnone
      have hchosen := chosen_ofSelection ex.config registry enabled args running
      have hran := batchNormForward_ran ex registry enabled args running
        (ForwardArgs.faults_eq_nil.1 hnone)
      exact ⟨_, hchosen, fun other hother => hother.eq hchosen, hran,
        fun forward hok => hran.tag hok⟩
  · intro input normalizedShape weight bias eps
    have heq := layerNormForward_eq ex registry enabled input weight bias eps normalizedShape
    have hnative :=
      layerNormForward_runsNatively ex registry enabled input weight bias eps normalizedShape
    refine ⟨?_, heq, hnative.bind fun forward _ => ⟨rfl, fun _ _ => trivial⟩, hnative⟩
    exact congrArg (· >>= fun forward => pure forward.output) heq
  · intro input numGroups weight bias eps
    have heq := groupNormForward_eq ex registry enabled input weight bias eps numGroups
    have hnative :=
      groupNormForward_runsNatively ex registry enabled input weight bias eps numGroups
    refine ⟨?_, heq, hnative.bind fun forward _ => ⟨rfl, fun _ _ => trivial⟩, hnative⟩
    exact congrArg (· >>= fun forward => pure forward.output) heq

/-- Version 1 is too old for the `cudnn` slot, and the accelerator in the other
slot is the one that runs; without a channel axis nothing does. -/
theorem selected_implementation_runs_miopen :
    let registry : Registry (DType.Host .float32) Float :=
      ⟨some (Session.echoAccelerator 1), some (Session.echoAccelerator 2)⟩
    let call := batchNormForward ⟨.standard, 4⟩ registry true Session.deviceCall .none
    (Implementation.accelerator .miopen (Session.echoAccelerator 2)).Ran ⟨.standard, 4⟩
        Session.deviceCall .none call
      ∧ (∀ forward, call.result = .ok forward → forward.backend = .miopen)
      ∧ (batchNormForward ⟨.standard, 4⟩ registry true
          { Session.deviceCall with input := Session.deviceTensor [1] (by decide) rfl }
          .none).invocations = [] := by
  intro registry call
  have hcommon : Acceleratable Session.deviceCall .none :=
    ⟨⟨0, rfl⟩, Option.some_ne_none _, Option.some_ne_none _, .inr ⟨rfl, rfl, rfl⟩⟩
  have hmiopen : Chosen NormConfig.standard registry true Session.deviceCall .none
      (.accelerator .miopen (Session.echoAccelerator 2)) := by
    refine .miopen (.miopen rfl hcommon (by decide) (by decide)) fun b hb => ?_
    cases hb with
    | cudnn installed _ _ _ _ version _ =>
        cases installed
        exact absurd version (by decide)
  obtain ⟨hcalls, _, _⟩ := selected_implementation_runs ⟨.standard, 4⟩ registry true
  obtain ⟨impl, _, hunique, hran, htag⟩ :=
    (hcalls Session.deviceCall .none).2 rfl
  rw [← hunique _ hmiopen] at hran htag
  exact ⟨hran, htag, ((hcalls _ _).1 _ rfl).2.1⟩

end ChannelNorm

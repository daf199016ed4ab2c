/-
  ChannelNorm.Proofs.Backend.Switch
  ─────────────────────────────────
  **WHAT SWITCHING ACCELERATORS OFF SWITCHES OFF.**

  Accelerators are switched off by the flag of a call or by the global switch.
  Either keeps the `cudnn` slot from every call.  The `miopen` slot looks at
  neither, so a call is spared accelerators exactly as long as the one in that
  slot is not eligible for it:

      miopen not eligible   →  nothing but the native implementation runs
      miopen eligible       →  it runs, switched off or not

  Instance normalization reaches the slot through its folded call, which is
  eligible when the call itself is.  Layer and group normalization never do.
-/
import ChannelNorm.Proofs.InstanceNorm.Folded

namespace ChannelNorm

variable {α A : Type}

/-! ## §1. Calls that put no accelerator to work. -/

/-- The per-call flag or the global switch is off. -/
def SwitchedOff (config : NormConfig) (enabled : Bool) : Prop :=
  enabled = false ∨ config.allowAccelerators = false

/-- The slot of the accelerator that was put to work, if it was one. -/
def Invocation.slot? : Invocation α A → Option AcceleratorSlot
  | .nativeForward _ => none
  | .nativeBackward _ => none
  | .acceleratorForward slot _ _ => some slot
  | .acceleratorBackward slot _ _ => some slot

namespace Logged

variable {ρ σ : Type} {x : Logged α A ρ}

/-- A call puts no accelerator to work. -/
def SparesAccelerators (x : Logged α A ρ) : Prop :=
  ∀ i ∈ x.invocations, i.slot? = none

theorem sparesAccelerators_of_nil (h : x.invocations = []) : x.SparesAccelerators := by
  intro i hi
  rw [h] at hi
  cases hi

theorem sparesAccelerators_of_native {args : ForwardArgs α A}
    (h : x.invocations = [.nativeForward args]) : x.SparesAccelerators := by
  intro i hi
  rw [h, List.mem_singleton] at hi
  rw [hi]
  rfl

/-- Native calls put no accelerator to work. -/
theorem RunsNatively.sparesAccelerators {P : ρ → Prop} (h : x.RunsNatively P) :
    x.SparesAccelerators := by
  rcases h with ⟨args, hinvoked, _⟩ | ⟨hinvoked, _⟩
  · exact sparesAccelerators_of_native hinvoked
  · exact sparesAccelerators_of_nil hinvoked

/-- What a native call returns is as said. -/
theorem RunsNatively.returned {P : ρ → Prop} (h : x.RunsNatively P) {r : ρ}
    (hok : x.result = .ok r) : P r := by
  rcases h with ⟨_, _, hreturned⟩ | ⟨_, e, he⟩
  · exact hreturned r hok
  · rw [he] at hok
    cases hok

theorem RanForward.not_sparesAccelerators {slot : AcceleratorSlot} {handle : Nat}
    (h : x.RanForward slot handle) : ¬ x.SparesAccelerators := by
  obtain ⟨handed, hhead⟩ := h
  intro hspares
  have hnone := hspares _ (List.mem_of_mem_head? hhead)
  cases hnone

/-- A call is spared accelerators unless the one in the `miopen` slot reaches
it; then that one runs.  `names` says that a result carries a tag. -/
structure SparedUnless (x : Logged α A ρ) (reached : Accelerator α A → Prop)
    (names : BackendTag → ρ → Prop) : Prop where
  spares_iff : x.SparesAccelerators ↔ ∀ a, ¬ reached a
  native : x.SparesAccelerators → ∀ r, x.result = .ok r → names .native r
  taken : ∀ a, reached a →
    x.RanForward .miopen a.handle ∧ ∀ r, x.result = .ok r → names .miopen r

/-- It is one or the other. -/
theorem SparedUnless.of_cases {reached : Accelerator α A → Prop} {names : BackendTag → ρ → Prop}
    (hspared : (∀ a, ¬ reached a) →
      x.SparesAccelerators ∧ ∀ r, x.result = .ok r → names .native r)
    (htaken : ∀ a, reached a →
      x.RanForward .miopen a.handle ∧ ∀ r, x.result = .ok r → names .miopen r) :
    x.SparedUnless reached names := by
  have hiff : x.SparesAccelerators ↔ ∀ a, ¬ reached a := by
    constructor
    · intro hspares a ha
      exact (htaken a ha).1.not_sparesAccelerators hspares
    · intro hnone
      exact (hspared hnone).1
  exact ⟨hiff, fun hspares => (hspared (hiff.1 hspares)).2, htaken⟩

end Logged

/-- A native call is spared whatever is installed. -/
theorem Logged.RunsNatively.sparedUnless {ρ : Type} {x : Logged α A ρ}
    {names : BackendTag → ρ → Prop} (h : x.RunsNatively (names .native)) :
    x.SparedUnless (fun _ => False) names := by
  apply SparedUnless.of_cases
  · intro _
    exact ⟨h.sparesAccelerators, fun r hok => h.returned hok⟩
  · intro a ha
    exact ha.elim

/-- Returning less of a result changes nothing about it. -/
theorem Logged.SparedUnless.map {ρ σ : Type} {x : Run α A ρ} {f : ρ → σ}
    {reached : Accelerator α A → Prop} {names : BackendTag → ρ → Prop}
    (h : x.toLogged.SparedUnless reached names) :
    (x.map f).toLogged.SparedUnless reached fun _ _ => True :=
  ⟨h.spares_iff, fun _ _ _ => trivial, fun a ha => ⟨(h.taken a ha).1, fun _ _ => trivial⟩⟩

/-! ## §2. What is eligible when switched off. -/

section
variable [OrderedArith A] [Element α A] {config : NormConfig} {registry : Registry α A}
  {enabled : Bool} {args : ForwardArgs α A} {running : ChannelStats α} {a : Accelerator α A}

/-- Nothing in the `cudnn` slot is. -/
theorem SwitchedOff.not_eligible_cudnn (hoff : SwitchedOff config enabled) :
    ¬ Eligible config registry enabled args running .cudnn a := by
  intro h
  cases h with
  | cudnn _ _ _ flag switch _ _ =>
      rcases hoff with hflag | hswitch
      · rw [hflag] at flag
        cases flag
      · rw [hswitch] at switch
        cases switch

/-- What is eligible in the `miopen` slot is chosen, and else nothing is. -/
theorem SwitchedOff.chosen_cases (hoff : SwitchedOff config enabled)
    {impl : Implementation α A} (h : Chosen config registry enabled args running impl) :
    (∃ a, impl = .accelerator .miopen a ∧ Eligible config registry enabled args running .miopen a)
      ∨ impl = .native ∧ ∀ a, ¬ Eligible config registry enabled args running .miopen a := by
  cases h with
  | cudnn h => exact absurd h hoff.not_eligible_cudnn
  | miopen h _ => exact .inl ⟨_, rfl, h⟩
  | native before => exact .inr ⟨rfl, fun b => before .miopen b⟩

end

/-! ## §3. Batch normalization. -/

section
variable [OrderedArith A] [Element α A] (ex : Executor) (registry : Registry α A) (enabled : Bool)

/-- **A switched-off call is spared accelerators unless it is accepted and the
one in the `miopen` slot is eligible.** -/
theorem batchNormForward_switchedOff (hoff : SwitchedOff ex.config enabled)
    (args : ForwardArgs α A) (running : ChannelStats α) :
    (batchNormForward ex registry enabled args running).toLogged.SparedUnless
      (fun a => args.Accepted running
        ∧ Eligible ex.config registry enabled args running .miopen a)
      fun tag forward => forward.backend = tag := by
  by_cases haccepted : args.Accepted running
  · have hran := batchNormForward_ran ex registry enabled args running haccepted
    have hchosen := chosen_ofSelection ex.config registry enabled args running
    generalize Implementation.ofSelection _ = impl at hran hchosen
    apply Logged.SparedUnless.of_cases
    · intro hnone
      rcases hoff.chosen_cases hchosen with ⟨a, _, ha⟩ | ⟨rfl, _⟩
      · exact absurd ⟨haccepted, ha⟩ (hnone a)
      · exact ⟨Logged.sparesAccelerators_of_native hran.1, fun forward hok => hran.tag hok⟩
    · intro a ha
      rcases hoff.chosen_cases hchosen with ⟨b, rfl, hb⟩ | ⟨_, hnone⟩
      · rw [ha.2.eq hb]
        refine ⟨?_, fun forward hok => hran.tag hok⟩
        obtain ⟨weight, bias, _, _, hinvoked, _⟩ := hran
        refine ⟨args.handed weight bias, ?_⟩
        rw [hinvoked]
        rfl
      · exact absurd ha.2 (hnone a)
  · -- refused, and nothing runs
    obtain ⟨e, he⟩ := batchNormForward_of_not_accepted ex registry enabled haccepted
    rw [he]
    apply Logged.SparedUnless.of_cases
    · intro _
      exact ⟨Logged.sparesAccelerators_of_nil rfl, nofun⟩
    · intro a ha
      exact absurd ha.1 haccepted

/-! ## §4. Instance normalization. -/

/-- The accelerator in the `miopen` slot is eligible for a folded call when it
is for the call. -/
theorem InstanceNormPlan.FoldsTo.eligible_miopen_iff {config : NormConfig}
    {p : InstanceNormPlan} {args folded : ForwardArgs α A} {running tiled : ChannelStats α}
    (hf : p.FoldsTo args running folded tiled) (hdims : args.input.dims = p.inputDims)
    {a : Accelerator α A} :
    Eligible config registry enabled folded tiled .miopen a
      ↔ Eligible config registry enabled args running .miopen a := by
  have hpresent : ∀ {param tiled : Option (Tensor α)}, p.repeatParam param = .ok tiled →
      (tiled = none ↔ param = none) := by
    intro param tiled h
    rcases repeatParam_cases h with ⟨rfl, rfl⟩ | ⟨t, r, rfl, rfl, _⟩
    · simp
    · simp
  have hrank : folded.input.rank = args.input.rank := by
    unfold Tensor.rank
    rw [hf.dims, hdims]
    rfl
  have hcommon : Acceleratable folded tiled ↔ Acceleratable args running := by
    have hdevice := Tensor.device_reshape hf.input
    constructor
    · intro ⟨device, weight, bias, statistics⟩
      refine ⟨hdevice ▸ device, ?_, ?_, ?_⟩
      · rwa [Ne, ← hpresent hf.weight]
      · rwa [Ne, ← hpresent hf.bias]
      · rwa [Ne, Ne, hpresent hf.mean, hpresent hf.var, hf.training] at statistics
    · intro ⟨device, weight, bias, statistics⟩
      refine ⟨hdevice.symm ▸ device, ?_, ?_, ?_⟩
      · rwa [Ne, hpresent hf.weight]
      · rwa [Ne, hpresent hf.bias]
      · rwa [Ne, Ne, hpresent hf.mean, hpresent hf.var, hf.training]
  constructor
  · intro h
    cases h with
    | miopen installed common rank format =>
        exact .miopen installed (hcommon.1 common) (hrank ▸ rank) format
  · intro h
    cases h with
    | miopen installed common rank format =>
        exact .miopen installed (hcommon.2 common) (hrank.symm ▸ rank) format

/-- **A switched-off call is spared accelerators unless it can be folded and the
one in the `miopen` slot is eligible.** -/
theorem instanceNormForward_switchedOff (hoff : SwitchedOff ex.config enabled)
    (args : ForwardArgs α A) (running : ChannelStats α) :
    (instanceNormForward ex registry enabled args running).toLogged.SparedUnless
      (fun a => args.Foldable running
        ∧ Eligible ex.config registry enabled args running .miopen a)
      fun tag forward => forward.backend = tag := by
  rcases instanceNormForward_cases ex registry enabled args running with
    ⟨hnot, e, he⟩ | ⟨hfoldable, p, folded, tiled, hdims, hf, haccepted, hcall⟩
  · rw [he]
    apply Logged.SparedUnless.of_cases
    · intro _
      exact ⟨Logged.sparesAccelerators_of_nil rfl, nofun⟩
    · intro a ha
      exact absurd ha.1 hnot
  · -- what runs is the folded call, and finishing it keeps its tag
    have hfolded := batchNormForward_switchedOff ex registry enabled hoff folded tiled
    have hreached : ∀ a, folded.Accepted tiled
          ∧ Eligible ex.config registry enabled folded tiled .miopen a
        ↔ args.Foldable running ∧ Eligible ex.config registry enabled args running .miopen a := by
      intro a
      rw [hf.accepted_iff hdims, hf.eligible_miopen_iff registry enabled hdims]
    have hinvoked : (instanceNormForward ex registry enabled args running).invocations
        = (batchNormForward ex registry enabled folded tiled).invocations := by
      rw [hcall, InstanceNormPlan.invocations_finish]
    have htag : ∀ {tag forward},
        (∀ f, (batchNormForward ex registry enabled folded tiled).result = .ok f →
          f.backend = tag) →
        (instanceNormForward ex registry enabled args running).result = .ok forward →
          forward.backend = tag := by
      intro tag forward hfolded hok
      rw [hcall] at hok
      obtain ⟨f, hf, hbackend⟩ := InstanceNormPlan.result_finish hok
      rw [← hbackend]
      exact hfolded f hf
    apply Logged.SparedUnless.of_cases
    · intro hnone
      have hspares := hfolded.spares_iff.2 fun a => (hreached a).not.2 (hnone a)
      refine ⟨?_, fun forward hok => htag (hfolded.native hspares) hok⟩
      intro i hi
      rw [hinvoked] at hi
      exact hspares i hi
    · intro a ha
      obtain ⟨⟨handed, hhead⟩, hnamed⟩ := hfolded.taken a ((hreached a).2 ha)
      refine ⟨⟨handed, ?_⟩, fun forward hok => htag hnamed hok⟩
      rw [hinvoked]
      exact hhead

end

/-! ## §5. Every forward call. -/

/-- **What switching accelerators off switches off.**  With the flag of the call
or the global switch off, a call puts no accelerator to work, and a result it
returns carries the native tag, unless the accelerator in the `miopen` slot is
eligible for it, which neither of the two keeps it from: then that accelerator
runs, and the result carries its tag.  Layer and group normalization put none to
work. -/
theorem switched_off_spares_unless_miopen [OrderedArith A] [Element α A] (ex : Executor)
    (registry : Registry α A) (enabled : Bool) (hoff : SwitchedOff ex.config enabled) :
    (∀ (args : ForwardArgs α A) (running : ChannelStats α),
      let reached := fun a => args.Accepted running
        ∧ Eligible ex.config registry enabled args running .miopen a
      (batchNormForward ex registry enabled args running).toLogged.SparedUnless reached
          (fun tag forward => forward.backend = tag)
        ∧ (batchNorm ex registry enabled args running).toLogged.SparedUnless reached
          fun _ _ => True)
    ∧ (∀ (args : ForwardArgs α A) (running : ChannelStats α),
      let reached := fun a => args.Foldable running
        ∧ Eligible ex.config registry enabled args running .miopen a
      (instanceNormForward ex registry enabled args running).toLogged.SparedUnless reached
          (fun tag forward => forward.backend = tag)
        ∧ (instanceNorm ex registry enabled args running).toLogged.SparedUnless reached
          fun _ _ => True)
    ∧ (∀ (input : Tensor α) (normalizedShape : List Nat) (weight bias : Option (Tensor α))
        (eps : A),
      (layerNormForward ex registry enabled input normalizedShape weight bias eps).SparedUnless
          (fun _ => False) (fun tag forward => forward.backend = tag)
        ∧ (layerNorm ex registry enabled input normalizedShape weight bias eps).SparedUnless
          (fun _ => False) fun _ _ => True)
    ∧ ∀ (input : Tensor α) (numGroups : Nat) (weight bias : Option (Tensor α)) (eps : A),
      (groupNormForward ex registry enabled input numGroups weight bias eps).SparedUnless
          (fun _ => False) (fun tag forward => forward.backend = tag)
        ∧ (groupNorm ex registry enabled input numGroups weight bias eps).SparedUnless
          (fun _ => False) fun _ _ => True := by
  refine ⟨?_, ?_, ?_, ?_⟩
  · intro args running
    have h := batchNormForward_switchedOff ex registry enabled hoff args running
    exact ⟨h, h.map⟩
  · intro args running
    have h := instanceNormForward_switchedOff ex registry enabled hoff args running
    exact ⟨h, h.map⟩
  · intro input normalizedShape weight bias eps
    have h :=
      layerNormForward_runsNatively ex registry enabled input weight bias eps normalizedShape
    have houtput : (layerNorm ex registry enabled input normalizedShape weight bias
        eps).RunsNatively fun _ => True := h.bind fun forward _ => ⟨rfl, fun _ _ => trivial⟩
    exact ⟨h.sparedUnless, houtput.sparedUnless⟩
  · intro input numGroups weight bias eps
    have h := groupNormForward_runsNatively ex registry enabled input weight bias eps numGroups
    have houtput : (groupNorm ex registry enabled input numGroups weight bias
        eps).RunsNatively fun _ => True := h.bind fun forward _ => ⟨rfl, fun _ _ => trivial⟩
    exact ⟨h.sparedUnless, houtput.sparedUnless⟩

/-- Flag and switch are both off, and the accelerator in the `miopen` slot runs;
the one in the `cudnn` slot alone would not. -/
theorem switched_off_spares_unless_miopen_taken :
    let off : Executor := ⟨⟨false, 1, 32768⟩, 4⟩
    (batchNormForward off ⟨some (Session.echoAccelerator 1), some (Session.echoAccelerator 2)⟩
        false Session.deviceCall .none).toLogged.RanForward .miopen 2
      ∧ (batchNormForward off ⟨some (Session.echoAccelerator 1), none⟩ false
          Session.deviceCall .none).toLogged.SparesAccelerators := by
  intro off
  let both : Registry (DType.Host .float32) Float :=
    ⟨some (Session.echoAccelerator 1), some (Session.echoAccelerator 2)⟩
  let cudnn : Registry (DType.Host .float32) Float := ⟨some (Session.echoAccelerator 1), none⟩
  have hoff : SwitchedOff off.config false := .inl rfl
  have haccepted : Session.deviceCall.Accepted .none := by
    have hone : OnePerChannel 1 Session.deviceCall.weight := by
      rintro _ ⟨⟩
      rfl
    exact ⟨by decide, hone, hone, nofun, nofun, nofun⟩
  have hcommon : Acceleratable Session.deviceCall .none :=
    ⟨⟨0, rfl⟩, Option.some_ne_none _, Option.some_ne_none _, .inr ⟨rfl, rfl, rfl⟩⟩
  have heligible : Eligible off.config both false Session.deviceCall .none .miopen
      (Session.echoAccelerator 2) := .miopen rfl hcommon (by decide) (by decide)
  obtain ⟨hboth, _⟩ := switched_off_spares_unless_miopen off both false hoff
  obtain ⟨hcudnn, _⟩ := switched_off_spares_unless_miopen off cudnn false hoff
  constructor
  · exact ((hboth Session.deviceCall .none).1.taken _ ⟨haccepted, heligible⟩).1
  · apply (hcudnn Session.deviceCall .none).1.spares_iff.2
    rintro a ⟨_, heligible⟩
    cases heligible.installed

end ChannelNorm

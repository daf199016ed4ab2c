/-
  ChannelNorm.Proofs.Backend.Interchange
  ──────────────────────────────────────
  **FORWARDS THAT ANSWER ALIKE.**

  An accelerator computes natively when its forward returns, on the contiguous
  tensors it is handed, what the native implementation returns there; saved
  statistics that the native implementation leaves out are filled with zeros.
  Where every installed accelerator does, a caller cannot tell from outputs and
  statistics which implementation ran:

      training      output, saved and running statistics, by no law of arithmetic
      evaluation    running statistics by no law, the output in a commutative ring

  An accelerator reads contiguous copies, on which evaluation may run over the
  flat buffer where the native call on the original may not.
-/
import ChannelNorm.Proofs.Backend.Handover
import ChannelNorm.Proofs.BatchNorm.Gradient
import ChannelNorm.Proofs.BatchNorm.Layout

namespace ChannelNorm

variable {α A : Type}

/-! ## §1. Accelerators that compute natively. -/

/-- The call on what an accelerator is handed. -/
def AcceleratedForward.toArgs (handed : AcceleratedForward α A) : ForwardArgs α A where
  input := handed.input
  weight := some handed.weight
  bias := some handed.bias
  training := handed.training
  momentum := handed.momentum
  eps := handed.eps

/-- All tensors handed over are contiguous. -/
structure AcceleratedForward.Contiguous (handed : AcceleratedForward α A) : Prop where
  input : handed.input.isContiguous = true
  weight : handed.weight.isContiguous = true
  bias : handed.bias.isContiguous = true

theorem contiguous_handed (args : ForwardArgs α A) (weight bias : Tensor α) :
    (args.handed weight bias).Contiguous where
  input := args.input.contiguousCopy_contiguous.contiguous
  weight := weight.contiguousCopy_contiguous.contiguous
  bias := bias.contiguousCopy_contiguous.contiguous

/-- What is handed over differs from the call's own tensors in layout only. -/
theorem alike_handed {args : ForwardArgs α A} {weight bias : Tensor α}
    (hweight : args.weight = some weight) (hbias : args.bias = some bias) :
    args.Alike (args.handed weight bias).toArgs where
  input := args.input.contiguousCopy_contiguous.alike.symm
  weight := by
    rw [hweight]
    exact .some weight.contiguousCopy_contiguous.alike.symm
  bias := by
    rw [hbias]
    exact .some bias.contiguousCopy_contiguous.alike.symm
  training := rfl
  momentum := rfl
  eps := rfl

/-- One zero for each channel. -/
def Tensor.zeroPerChannel [Zero α] (t : Tensor α) : Tensor α :=
  (t.perChannel (.replicate t.channels 0)).toDevice .cpu

/-- The result of a call on `input` in the form accelerators return theirs:
absent statistics are filled with zeros. -/
def Forward.filled [Zero α] (f : Forward α) (input : Tensor α) : AcceleratedOutput α where
  output := f.output
  saveMean := f.saved.mean.getD input.zeroPerChannel
  saveVar := f.saved.var.getD input.zeroPerChannel

variable [OrderedArith A] [Element α A]

/-- The forward of an accelerator is the native one, on some executor, on
whatever contiguous tensors it is handed. -/
def Accelerator.ComputesNative (a : Accelerator α A) : Prop :=
  ∀ (handed : AcceleratedForward α A) (running : ChannelStats α), handed.Contiguous →
    ∃ ex : Executor,
      (a.forward handed running).result
          = (nativeBatchNorm ex handed.toArgs running).result.map (·.filled handed.input)
        ∧ (a.forward handed running).running
          = (nativeBatchNorm ex handed.toArgs running).running

/-! ## §2. Native calls on alike tensors. -/

/-- A batch moves the running statistics by its contents alone. -/
theorem Tensor.Alike.afterBatch_eq {input input' : Tensor α} (h : input.Alike input')
    (hrank : 2 ≤ input.rank) (running : ChannelStats α) (momentum : A) :
    running.afterBatch input momentum = running.afterBatch input' momentum := by
  unfold ChannelStats.afterBatch ChannelStats.blend
  simp only [Vector.toList_ofFn, h.ofFn_momentsAt hrank, h.elementsPerChannel]

section
variable {args args' : ForwardArgs α A} {running : ChannelStats α}

/-- What a native call that is accepted comes to: a result, and running
statistics that an evaluation leaves alone. -/
theorem nativeBatchNorm_of_accepted (ex : Executor) (h : args.Accepted running) :
    (∃ f, (nativeBatchNorm ex args running).result = .ok f)
      ∧ (args.training = false → (nativeBatchNorm ex args running).running = running) := by
  rcases nativeBatchNorm_outcome ex args running with
    ⟨_, _, hnot, _⟩ | ⟨_, f, hok, _, _, hevaluation, _⟩
  · exact absurd h hnot
  · exact ⟨⟨f, hok⟩, hevaluation⟩

/-- Calls on alike tensors leave the very same running statistics, by no law of
arithmetic. -/
theorem ForwardArgs.Alike.running_eq (h : args.Alike args') (ex ex' : Executor)
    (haccepted : args.Accepted running) :
    (nativeBatchNorm ex args running).running = (nativeBatchNorm ex' args' running).running := by
  have haccepted' : args'.Accepted running := h.accepted (.refl running) haccepted
  cases ht : args.training with
  | true =>
      rw [running_nativeBatchNorm_training ex haccepted ht,
        running_nativeBatchNorm_training ex' haccepted' (h.training ▸ ht), h.momentum]
      exact h.input.afterBatch_eq haccepted.rank running args'.momentum
  | false =>
      rw [(nativeBatchNorm_of_accepted ex haccepted).2 ht,
        (nativeBatchNorm_of_accepted ex' haccepted').2 (h.training ▸ ht)]

end

/-! ## §3. Calls that agree. -/

/-- Forward calls of one mode that a caller cannot tell apart, the tag and what
an evaluation has saved aside. -/
structure Run.Agrees (training : Bool) (call native : Run α A (Forward α)) : Prop where
  succeeds : (∃ f, call.result = .ok f) ↔ ∃ g, native.result = .ok g
  running : call.running = native.running
  /-- Training agrees bit for bit. -/
  trained : training = true → ∀ f g, call.result = .ok f → native.result = .ok g →
    f.output = g.output ∧ f.saved = g.saved
  /-- Evaluation agrees in a commutative ring. -/
  evaluated : LawfulArith α → training = false → ∀ f g, call.result = .ok f →
    native.result = .ok g → f.output = g.output

section
variable {args args' : ForwardArgs α A} {running : ChannelStats α}

theorem Run.Agrees.of_refused (training : Bool) (e e' : TensorError)
    (running : ChannelStats α) :
    Run.Agrees training (Run.refused e running : Run α A (Forward α))
      (Run.refused e' running) where
  succeeds := iff_of_false (fun ⟨_, h⟩ => nomatch h) fun ⟨_, h⟩ => nomatch h
  running := rfl
  trained _ _ _ h := nomatch h
  evaluated _ _ _ _ h := nomatch h

/-- A call that passes on what another one returned agrees with whatever that
one agrees with; in evaluation it may save statistics of its own. -/
theorem Run.Agrees.passed_on {training : Bool} {call inner native : Run α A (Forward α)}
    (h : inner.Agrees training native) {f f' : Forward α} (hcall : call.result = .ok f)
    (hinner : inner.result = .ok f') (hrunning : call.running = inner.running)
    (houtput : f.output = f'.output) (hsaved : training = true → f.saved = f'.saved) :
    call.Agrees training native where
  succeeds := ⟨fun _ => h.succeeds.1 ⟨f', hinner⟩, fun _ => ⟨f, hcall⟩⟩
  running := hrunning.trans h.running
  trained ht x g hx hg := by
    obtain rfl : f = x := Except.ok.inj (hcall.symm.trans hx)
    have hsame := h.trained ht f' g hinner hg
    exact ⟨houtput.trans hsame.1, (hsaved ht).trans hsame.2⟩
  evaluated hlawful ht x g hx hg := by
    obtain rfl : f = x := Except.ok.inj (hcall.symm.trans hx)
    exact houtput.trans (h.evaluated hlawful ht f' g hinner hg)

/-- Native calls on alike tensors agree, whatever executors they run on. -/
theorem ForwardArgs.Alike.agrees (h : args.Alike args') (haccepted : args.Accepted running)
    (ex ex' : Executor) :
    (nativeBatchNorm ex' args' running).Agrees args.training
      (nativeBatchNorm ex args running) := by
  have haccepted' : args'.Accepted running := h.accepted (.refl running) haccepted
  have hsucceeds := iff_of_true (nativeBatchNorm_of_accepted ex' haccepted').1
    (nativeBatchNorm_of_accepted ex haccepted).1
  refine ⟨hsucceeds, (h.running_eq ex ex' haccepted).symm, ?_, ?_⟩
  · intro ht f g hf hg
    have hsame := (nativeBatchNorm_training_alike ex ex' h (.refl running) haccepted ht).1
    obtain rfl : g = f := Except.ok.inj (hg.symm.trans (hsame.trans hf))
    exact ⟨rfl, rfl⟩
  · intro _ ht f g hf hg
    have hsame := (nativeBatchNorm_evaluation_alike ex ex' h (.refl running) haccepted ht).1
    obtain rfl : g = f := Except.ok.inj (hg.symm.trans (hsame.trans hf))
    rfl

/-- In training nothing is left to fill in. -/
theorem saved_nativeBatchNorm_training {ex : Executor} {f : Forward α}
    (haccepted : args.Accepted running) (ht : args.training = true)
    (hok : (nativeBatchNorm ex args running).result = .ok f) (input : Tensor α) :
    (⟨some (f.filled input).saveMean, some (f.filled input).saveVar⟩ : ChannelStats α)
      = f.saved := by
  rw [nativeBatchNorm_training ex haccepted ht] at hok
  cases hok
  rfl

/-- A call that ran natively agrees with the native call on any executor. -/
theorem Implementation.Ran.agrees_native {ex : Executor} {call : Run α A (Forward α)}
    (h : Implementation.native.Ran ex args running call) (haccepted : args.Accepted running)
    (ex' : Executor) : call.Agrees args.training (nativeBatchNorm ex' args running) := by
  obtain ⟨_, hrunning, f, hnative, hcall⟩ := h
  have hself : args.Alike args := ⟨.refl _, .refl _, .refl _, rfl, rfl, rfl⟩
  exact (hself.agrees haccepted ex' ex).passed_on hcall hnative hrunning rfl fun _ => rfl

/-- A call that ran on an accelerator that computes natively agrees with the
native call on the original tensors. -/
theorem Implementation.Ran.agrees_accelerator {ex : Executor} {slot : AcceleratorSlot}
    {a : Accelerator α A} {call : Run α A (Forward α)}
    (h : (Implementation.accelerator slot a).Ran ex args running call)
    (ha : a.ComputesNative) (haccepted : args.Accepted running) (ex' : Executor) :
    call.Agrees args.training (nativeBatchNorm ex' args running) := by
  obtain ⟨weight, bias, hweight, hbias, _, hrunning, _, hreturned⟩ := h
  have halike := alike_handed hweight hbias
  have hcopies := halike.accepted (.refl running) haccepted
  obtain ⟨exa, hresult, hmoved⟩ := ha _ running (contiguous_handed args weight bias)
  obtain ⟨f, hf⟩ := (nativeBatchNorm_of_accepted exa hcopies).1
  rw [hf] at hresult
  exact (halike.agrees haccepted ex' exa).passed_on (hreturned _ hresult) hf
    (hrunning.trans hmoved) rfl fun ht => saved_nativeBatchNorm_training hcopies ht hf _

end

/-! ## §4. The dispatcher. -/

/-- **Forward backends are interchangeable**: where every installed accelerator
computes natively, whatever is selected succeeds exactly when the native
implementation does and leaves the same statistics; outputs are the same, bit
for bit in training, in a commutative ring in evaluation. -/
theorem forward_interchangeable (registry : Registry α A)
    (hnative : ∀ slot a, registry.get slot = some a → a.ComputesNative) (ex ex' : Executor)
    (enabled : Bool) (args : ForwardArgs α A) (running : ChannelStats α) :
    (batchNormForward ex registry enabled args running).Agrees args.training
      (nativeBatchNorm ex' args running) := by
  by_cases haccepted : args.Accepted running
  · have hran := batchNormForward_ran ex registry enabled args running haccepted
    cases hselected : selectAccelerator ex.config registry enabled args running with
    | none =>
        rw [hselected] at hran
        exact hran.agrees_native haccepted ex'
    | some found =>
        obtain ⟨slot, a⟩ := found
        rw [hselected] at hran
        exact hran.agrees_accelerator (hnative slot a (get_of_selectAccelerator hselected))
          haccepted ex'
  · obtain ⟨e, he⟩ := batchNormForward_of_not_accepted ex registry enabled haccepted
    rcases nativeBatchNorm_outcome ex' args running with ⟨e', _, _, he'⟩ | ⟨h, _⟩
    · rw [he, he']
      exact .of_refused args.training e e' running
    · exact absurd h haccepted

/-- The native implementation in the form of an accelerator, of the oldest
version that the `cudnn` slot accepts. -/
noncomputable def nativeTwin : Accelerator ℝ ℝ where
  handle := 0
  name := "native twin"
  version := Accelerator.cudnnMinVersion
  minEpsilon := Accelerator.defaultMinEpsilon
  forward handed running :=
    let run := nativeBatchNorm ⟨.standard, 1⟩ handed.toArgs running
    ⟨⟨run.result.map (·.filled handed.input), run.events⟩, run.running⟩
  backward handed := ⟨.ok ⟨handed.gradOutput, handed.weight, handed.weight⟩, []⟩

/-- A call that an accelerator may run, on a batch laid out by columns. -/
noncomputable def stridedDeviceCall (training : Bool) : ForwardArgs ℝ ℝ :=
  { sampleCall training with
    input := sampleStrided.toDevice (.gpu 0)
    bias := some (samplePair 0 0) }

theorem forward_interchangeable_strided :
    let registry : Registry ℝ ℝ := ⟨some nativeTwin, none⟩
    (∀ slot a, registry.get slot = some a → a.ComputesNative)
      ∧ ∀ training,
        Eligible .standard registry true (stridedDeviceCall training) sampleRunning .cudnn
            nativeTwin
          ∧ (stridedDeviceCall training).input.isContiguous = false
          ∧ ∃ f g,
            (batchNormForward ⟨.standard, 4⟩ registry true (stridedDeviceCall training)
                sampleRunning).result = .ok f
              ∧ (nativeBatchNorm ⟨.standard, 4⟩ (stridedDeviceCall training)
                sampleRunning).result = .ok g
              ∧ f.output = g.output := by
  intro registry
  have hnative : ∀ slot a, registry.get slot = some a → a.ComputesNative := by
    intro slot a hget
    cases slot with
    | cudnn =>
        cases hget
        exact fun handed running _ => ⟨⟨.standard, 1⟩, rfl, rfl⟩
    | miopen => cases hget
  refine ⟨hnative, fun training => ⟨?_, rfl, ?_⟩⟩
  · have hcommon : Acceleratable (stridedDeviceCall training) sampleRunning :=
      ⟨⟨0, rfl⟩, nofun, nofun, .inl ⟨nofun, nofun⟩⟩
    exact .cudnn rfl hcommon (by decide : 2 ≤ 131070) rfl rfl (Nat.le_refl 5110)
      (decide_eq_true zero_le_one)
  · have haccepted : (stridedDeviceCall training).Accepted sampleRunning := by
      obtain ⟨hrank, hweight, _, hmean, hvar, hstatistics⟩ := sampleCall_accepted training
      refine ⟨hrank, hweight, ?_, hmean, hvar, hstatistics⟩
      rintro t ⟨⟩
      rfl
    have hagrees := forward_interchangeable registry hnative ⟨.standard, 4⟩ ⟨.standard, 4⟩ true
      (stridedDeviceCall training) sampleRunning
    obtain ⟨g, hg⟩ := (nativeBatchNorm_of_accepted ⟨.standard, 4⟩ haccepted).1
    obtain ⟨f, hf⟩ := hagrees.succeeds.2 ⟨g, hg⟩
    refine ⟨f, g, hf, hg, ?_⟩
    cases training with
    | true => exact (hagrees.trained rfl f g hf hg).1
    | false => exact hagrees.evaluated inferInstance rfl f g hf hg

end ChannelNorm

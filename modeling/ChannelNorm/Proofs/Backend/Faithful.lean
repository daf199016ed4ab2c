/-
  ChannelNorm.Proofs.Backend.Faithful
  ───────────────────────────────────
  **WHAT A REPLAYED BACKWARD CAN KNOW.**

  An accelerator's backward is handed input, incoming gradient, weight, both
  pairs of statistics and epsilon, but not the mode of the call.  A backward is
  faithful on a class of calls when, wherever an accelerator with it is
  installed, replaying that slot returns the native gradients of every call of
  the class.  The calls considered have everything both modes read.

      some backward is faithful on a class
        ↔  calls of the class that hand over the same have the same gradients

  One mode alone meets the condition, and the native backward of that mode is
  faithful on it.  The two modes together do not: their gradients differ for
  most inputs, while what is handed over is the same.
-/
import ChannelNorm.Proofs.Backend.Handover
import ChannelNorm.Proofs.BatchNorm.Answer
import ChannelNorm.Proofs.BatchNorm.Layout

namespace ChannelNorm

variable {α A : Type}

/-! ## §1. Gradients as arrays. -/

/-- Shape and contents of a tensor, layout and device left out. -/
def Tensor.array (t : Tensor α) : List Nat × List α :=
  (t.dims, t.toList)

/-- The same gradients are there, of the same shape and contents. -/
structure Gradients.Same (g g' : Gradients α) : Prop where
  input : g.input.map Tensor.array = g'.input.map Tensor.array
  weight : g.weight.map Tensor.array = g'.weight.map Tensor.array
  bias : g.bias.map Tensor.array = g'.bias.map Tensor.array

namespace Gradients.Same

variable {g g' g'' : Gradients α}

theorem refl (g : Gradients α) : g.Same g :=
  ⟨rfl, rfl, rfl⟩

theorem symm (h : g.Same g') : g'.Same g :=
  ⟨h.input.symm, h.weight.symm, h.bias.symm⟩

theorem trans (h : g.Same g') (h' : g'.Same g'') : g.Same g'' :=
  ⟨h.input.trans h'.input, h.weight.trans h'.weight, h.bias.trans h'.bias⟩

end Gradients.Same

/-- The same mask leaves the same gradients. -/
theorem Gradients.Same.masked {g g' : Gradients α} (h : g.Same g') (mask : GradMask) :
    (g.masked mask).Same (g'.masked mask) := by
  refine ⟨?_, ?_, ?_⟩
  all_goals
    unfold Gradients.masked
    dsimp only
    rw [map_filter_const, map_filter_const]
  · rw [h.input]
  · rw [h.weight]
  · rw [h.bias]

theorem Gradients.masked_all (g : Gradients α) : g.masked .all = g := by
  obtain ⟨input, weight, bias⟩ := g
  cases input <;> cases weight <;> cases bias <;> rfl

/-- All three gradients of an accelerator, before any mask. -/
def AcceleratedGradients.unmasked (raw : AcceleratedGradients α) : Gradients α :=
  ⟨some raw.input, some raw.weight, some raw.bias⟩

/-! ## §2. Complete calls, and what they hand over. -/

/-- A backward call with everything that either mode reads. -/
structure BackwardArgs.Complete (args : BackwardArgs α A) : Prop where
  rank : 2 ≤ args.input.rank
  gradient : args.gradOutput.dims = args.input.dims
  weight : Supplied args.input.channels args.weight
  runningMean : Supplied args.input.channels args.running.mean
  runningVar : Supplied args.input.channels args.running.var
  savedMean : Supplied args.input.channels args.saved.mean
  savedVar : Supplied args.input.channels args.saved.var

/-- The native backward accepts a complete call in either mode. -/
theorem BackwardArgs.Complete.accepted {args : BackwardArgs α A} (h : args.Complete) :
    args.Accepted := by
  have hstatistics : Supplied args.input.channels args.statistics.mean
      ∧ Supplied args.input.channels args.statistics.var := by
    unfold BackwardArgs.statistics
    cases args.training with
    | true => exact ⟨h.savedMean, h.savedVar⟩
    | false => exact ⟨h.runningMean, h.runningVar⟩
  have hawaits : args.Awaits := ⟨h.rank, h.weight.onePerChannel, hstatistics.1, hstatistics.2⟩
  exact hawaits.accepted h.gradient

/-- Completeness is not a matter of the mask. -/
theorem BackwardArgs.Complete.withMask {args : BackwardArgs α A} (h : args.Complete)
    (mask : GradMask) : ({ args with mask } : BackwardArgs α A).Complete :=
  ⟨h.rank, h.gradient, h.weight, h.runningMean, h.runningVar, h.savedMean, h.savedVar⟩

/-- What an accelerator is handed of a backward call that has a weight. -/
def BackwardArgs.handed (args : BackwardArgs α A) (weight : Tensor α) :
    AcceleratedBackward α A where
  input := args.input.contiguous
  gradOutput := args.gradOutput.contiguous
  weight := weight
  running := args.running
  saved := args.saved
  eps := args.eps

/-- What an accelerator is handed of a backward call, if anything. -/
def BackwardArgs.handedOver (args : BackwardArgs α A) : Option (AcceleratedBackward α A) :=
  args.weight.map args.handed

/-- An accelerator is handed something of every complete call. -/
theorem BackwardArgs.Complete.exists_handed {args : BackwardArgs α A} (h : args.Complete) :
    ∃ weight, args.weight = some weight ∧ args.handedOver = some (args.handed weight) := by
  obtain ⟨weight, hweight, _⟩ := h.weight
  refine ⟨weight, hweight, ?_⟩
  unfold BackwardArgs.handedOver
  rw [hweight]
  rfl

/-! ## §3. Faithful backwards. -/

section
variable {backward : AcceleratedBackward α A → Logged α A (AcceleratedGradients α)}
  {handed : AcceleratedBackward α A} {g g' : Gradients α}

/-- What is handed over is answered with the given gradients. -/
def Answers (backward : AcceleratedBackward α A → Logged α A (AcceleratedGradients α))
    (handed : AcceleratedBackward α A) (g : Gradients α) : Prop :=
  ∃ raw, (backward handed).result = .ok raw ∧ raw.unmasked.Same g

/-- There is one answer to what is handed over. -/
theorem Answers.same (h : Answers backward handed g) (h' : Answers backward handed g') :
    g.Same g' := by
  obtain ⟨raw, hraw, hg⟩ := h
  obtain ⟨raw', hraw', hg'⟩ := h'
  obtain rfl : raw = raw' := Except.ok.inj (hraw.symm.trans hraw')
  exact hg.symm.trans hg'

end

variable [OrderedArith A] [Element α A]

/-- Wherever an accelerator with this backward is installed, replaying its slot
returns the native gradients of every complete call of the class, whatever the
mask. -/
def ReplaysFaithfully
    (backward : AcceleratedBackward α A → Logged α A (AcceleratedGradients α))
    (calls : BackwardArgs α A → Prop) : Prop :=
  ∀ args, args.Complete → calls args →
    ∀ (mask : GradMask) (ex ex' : Executor) (registry : Registry α A) (slot : AcceleratorSlot)
      (a : Accelerator α A), registry.get slot = some a → a.backward = backward →
      ∃ g g', (batchNormBackward ex registry slot.tag { args with mask }).result = .ok g
        ∧ nativeBatchNormBackward ex' { args with mask } = .ok g' ∧ g.Same g'

section
variable {ex : Executor} {registry : Registry α A} {slot : AcceleratorSlot} {a : Accelerator α A}
  {args : BackwardArgs α A} {weight : Tensor α}

/-- A replay is the accelerator's backward of what is handed over, masked. -/
theorem result_batchNormBackward_slot (hget : registry.get slot = some a)
    (hweight : args.weight = some weight) :
    (batchNormBackward ex registry slot.tag args).result
      = ((a.backward (args.handed weight)).result.mapError (.replayFailed slot)).map
          (·.unmasked.masked args.mask) := by
  unfold batchNormBackward
  rw [slot?_tag]
  dsimp only
  rw [hget, hweight]
  rfl

/-- A replay returns what the accelerator answers, masked. -/
theorem batchNormBackward_of_answers {g : Gradients α} (hget : registry.get slot = some a)
    (hweight : args.weight = some weight) (h : Answers a.backward (args.handed weight) g) :
    ∃ r, (batchNormBackward ex registry slot.tag args).result = .ok r
      ∧ r.Same (g.masked args.mask) := by
  obtain ⟨raw, hraw, hsame⟩ := h
  refine ⟨_, ?_, hsame.masked args.mask⟩
  rw [result_batchNormBackward_slot hget hweight, hraw]
  rfl

theorem BackwardArgs.length_inputGrads (args : BackwardArgs α A) :
    ((List.range args.input.numel).map args.inputGradAt).length = args.input.numel := by
  rw [List.length_map, List.length_range]

/-- All three native gradients of a call, whatever its mask. -/
def BackwardArgs.raw (args : BackwardArgs α A) : AcceleratedGradients α where
  input := args.input.withContents ((List.range args.input.numel).map args.inputGradAt)
    args.length_inputGrads
  weight := args.input.perChannel (.ofFn fun c => args.weightGradAt c)
  bias := args.input.perChannel (.ofFn fun c => args.biasGradAt c)

theorem BackwardArgs.unmasked_raw (args : BackwardArgs α A) :
    args.raw.unmasked = args.gradients :=
  rfl

/-- What a replay for all gradients returns is the accelerator's answer. -/
theorem answers_of_batchNormBackward (args : BackwardArgs α A) {r : Gradients α}
    (hget : registry.get slot = some a) (hweight : args.weight = some weight)
    (hmask : args.mask = .all)
    (hok : (batchNormBackward ex registry slot.tag args).result = .ok r) :
    Answers a.backward (args.handed weight) r := by
  rw [result_batchNormBackward_slot hget hweight] at hok
  cases hraw : (a.backward (args.handed weight)).result with
  | error e =>
      rw [hraw] at hok
      cases hok
  | ok raw =>
      rw [hraw, hmask] at hok
      obtain rfl : raw.unmasked.masked .all = r := Except.ok.inj hok
      rw [Gradients.masked_all]
      exact ⟨raw, hraw, .refl _⟩

end

/-- An accelerator with this backward, which refuses every forward. -/
def Accelerator.ofBackward
    (backward : AcceleratedBackward α A → Logged α A (AcceleratedGradients α)) :
    Accelerator α A where
  handle := 0
  name := "replay"
  version := 0
  minEpsilon := Accelerator.defaultMinEpsilon
  forward _ running := .refused .addressOverflow running
  backward := backward

section
variable {backward : AcceleratedBackward α A → Logged α A (AcceleratedGradients α)}
  {calls : BackwardArgs α A → Prop}

/-- **Faithful is to answer what is handed over with the native gradients.** -/
theorem replaysFaithfully_iff_answers :
    ReplaysFaithfully backward calls
      ↔ ∀ args, args.Complete → calls args → ∀ weight, args.weight = some weight →
          Answers backward (args.handed weight) args.gradients := by
  constructor
  · intro h args hcomplete hcalls weight hweight
    -- any accelerator with this backward will do, in either slot
    obtain ⟨g, g', hg, hg', hsame⟩ := h args hcomplete hcalls .all ⟨.standard, 1⟩ ⟨.standard, 1⟩
      ⟨some (.ofBackward backward), none⟩ .cudnn (.ofBackward backward) rfl rfl
    have hget : (⟨some (.ofBackward backward), none⟩ : Registry α A).get .cudnn
        = some (.ofBackward backward) := rfl
    obtain ⟨raw, hraw, hanswer⟩ :=
      answers_of_batchNormBackward { args with mask := .all } hget hweight rfl hg
    rw [nativeBatchNormBackward_ok _ (hcomplete.withMask .all).accepted] at hg'
    obtain rfl : args.gradients.masked .all = g' := Except.ok.inj hg'
    rw [Gradients.masked_all] at hsame
    exact ⟨raw, hraw, hanswer.trans hsame⟩
  · intro h args hcomplete hcalls mask ex ex' registry slot a hget hbackward
    obtain ⟨weight, hweight, _⟩ := hcomplete.exists_handed
    have hanswers := h args hcomplete hcalls weight hweight
    rw [← hbackward] at hanswers
    have hreplay : ∃ r, (batchNormBackward ex registry slot.tag { args with mask }).result = .ok r
        ∧ r.Same (args.gradients.masked mask) :=
      batchNormBackward_of_answers hget hweight hanswers
    obtain ⟨r, hr, hsame⟩ := hreplay
    exact ⟨r, _, hr, nativeBatchNormBackward_ok ex' (hcomplete.withMask mask).accepted, hsame⟩

/-- Calls that hand over the same have the same gradients, if some backward is
faithful on them. -/
theorem ReplaysFaithfully.same_gradients (h : ReplaysFaithfully backward calls)
    {args args' : BackwardArgs α A} (hcomplete : args.Complete) (hcomplete' : args'.Complete)
    (hcalls : calls args) (hcalls' : calls args') (hover : args.handedOver = args'.handedOver) :
    args.gradients.Same args'.gradients := by
  rw [replaysFaithfully_iff_answers] at h
  obtain ⟨weight, hweight, hhanded⟩ := hcomplete.exists_handed
  obtain ⟨weight', hweight', hhanded'⟩ := hcomplete'.exists_handed
  have hsame : args.handed weight = args'.handed weight' :=
    Option.some.inj (by rw [← hhanded, ← hhanded', hover])
  have hanswers' := h args' hcomplete' hcalls' weight' hweight'
  rw [← hsame] at hanswers'
  exact (h args hcomplete hcalls weight hweight).same hanswers'

/-- Where what is handed over determines the gradients, some backward is
faithful: the one that returns the gradients of any call handing over the
same. -/
theorem exists_replaysFaithfully
    (h : ∀ args args', args.Complete → args'.Complete → calls args → calls args' →
      args.handedOver = args'.handedOver → args.gradients.Same args'.gradients) :
    ∃ backward, ReplaysFaithfully backward calls := by
  have hanswer : ∀ handed : AcceleratedBackward α A, ∃ out : Logged α A (AcceleratedGradients α),
      ∀ args, args.Complete → calls args → args.handedOver = some handed →
        ∃ raw, out.result = .ok raw ∧ raw.unmasked.Same args.gradients := by
    intro handed
    by_cases hany : ∃ args, args.Complete ∧ calls args ∧ args.handedOver = some handed
    · obtain ⟨args, hcomplete, hcalls, hover⟩ := hany
      refine ⟨⟨.ok args.raw, []⟩, fun args' hcomplete' hcalls' hover' => ⟨_, rfl, ?_⟩⟩
      exact h args args' hcomplete hcomplete' hcalls hcalls' (hover.trans hover'.symm)
    · refine ⟨⟨.error .addressOverflow, []⟩, fun args hcomplete hcalls hover => ?_⟩
      exact absurd ⟨args, hcomplete, hcalls, hover⟩ hany
  choose backward hbackward using hanswer
  refine ⟨backward, replaysFaithfully_iff_answers.2 ?_⟩
  intro args hcomplete hcalls weight hweight
  apply hbackward _ args hcomplete hcalls
  unfold BackwardArgs.handedOver
  rw [hweight]
  rfl

end

/-! ## §4. One mode at a time. -/

/-- The native backward call on what an accelerator is handed, in a mode of its
own. -/
def AcceleratedBackward.toArgs (handed : AcceleratedBackward α A) (training : Bool) :
    BackwardArgs α A where
  gradOutput := handed.gradOutput
  input := handed.input
  weight := some handed.weight
  running := handed.running
  saved := handed.saved
  training := training
  eps := handed.eps
  mask := .all

/-- The backward of one mode on whatever is handed over. -/
def replayNative (ex : Executor) (training : Bool) (handed : AcceleratedBackward α A) :
    Logged α A (AcceleratedGradients α) where
  result :=
    (nativeBatchNormBackward ex (handed.toArgs training)).bind fun g =>
      match g with
      | ⟨some input, some weight, some bias⟩ => .ok ⟨input, weight, bias⟩
      | _ => .error .incompatibleShape
  events := []

omit [OrderedArith A] [Element α A] in
/-- What is handed over differs from the call's own tensors in layout only. -/
theorem BackwardArgs.alike_handed {args : BackwardArgs α A} {weight : Tensor α}
    (hweight : args.weight = some weight) :
    ({ args with mask := .all } : BackwardArgs α A).Alike
      ((args.handed weight).toArgs args.training) where
  gradOutput := args.gradOutput.contiguousCopy_contiguous.alike.symm
  input := args.input.contiguousCopy_contiguous.alike.symm
  weight := by
    show OptionAlike args.weight (some weight)
    rw [hweight]
    exact .refl _
  running := .refl _
  saved := .refl _
  training := rfl
  eps := rfl
  mask := rfl

/-- **The backward of one mode is faithful on the calls of that mode**, where
the order of additions does not matter. -/
theorem replayNative_faithful [Std.Associative fun a b : A => a + b]
    [Std.Commutative fun a b : A => a + b] (ex : Executor) (training : Bool) :
    ReplaysFaithfully (replayNative ex training : AcceleratedBackward α A → _)
      fun args => args.training = training := by
  rw [replaysFaithfully_iff_answers]
  intro args hcomplete htraining weight hweight
  have halike := args.alike_handed hweight
  have haccepted := (hcomplete.withMask .all).accepted
  have hgradients : args.gradients = ((args.handed weight).toArgs args.training).gradients :=
    halike.gradients_eq haccepted fun _ hc => halike.sumsAt haccepted hc
  subst htraining
  refine ⟨((args.handed weight).toArgs args.training).raw, ?_, ?_⟩
  · unfold replayNative
    rw [nativeBatchNormBackward_ok ex (halike.accepted haccepted)]
    rfl
  · rw [BackwardArgs.unmasked_raw, hgradients]
    exact .refl _

/-! ## §5. Both modes. -/

/-- **A faithful replay exists where what is handed over determines the
gradients**, and only there; the calls of one mode are such a class, and the
native backward of that mode is faithful on it. -/
theorem faithful_replay_iff :
    (∀ calls : BackwardArgs α A → Prop,
      (∃ backward, ReplaysFaithfully backward calls)
        ↔ ∀ args args', args.Complete → args'.Complete → calls args → calls args' →
            args.handedOver = args'.handedOver → args.gradients.Same args'.gradients)
    ∧ ((Std.Associative fun a b : A => a + b) → (Std.Commutative fun a b : A => a + b) →
      ∀ (ex : Executor) (training : Bool),
        ReplaysFaithfully (replayNative ex training : AcceleratedBackward α A → _)
          fun args => args.training = training) := by
  refine ⟨fun calls => ⟨?_, exists_replaysFaithfully⟩, ?_⟩
  · intro h args args' hcomplete hcomplete' hcalls hcalls' hover
    obtain ⟨backward, hbackward⟩ := h
    exact hbackward.same_gradients hcomplete hcomplete' hcalls hcalls' hover
  · intro _ _ ex training
    exact replayNative_faithful ex training

/-- One element, apart from its running mean but not from its saved one. -/
noncomputable def oneElementCall (training : Bool) : BackwardArgs ℝ ℝ where
  gradOutput := .fewRows 1 1 1
  input := .fewRows 1 1 1
  weight := some (.few 1 1)
  running := ⟨some (.few 1 0), some (.few 1 0)⟩
  saved := ⟨some (.few 1 1), some (.few 1 1)⟩
  training := training
  eps := 1
  mask := .all

theorem oneElementCall_complete (training : Bool) : (oneElementCall training).Complete where
  rank := Nat.le_refl 2
  gradient := rfl
  weight := ⟨_, rfl, rfl⟩
  runningMean := ⟨_, rfl, rfl⟩
  runningVar := ⟨_, rfl, rfl⟩
  savedMean := ⟨_, rfl, rfl⟩
  savedVar := ⟨_, rfl, rfl⟩

/-- The weight gradient is the distance from the mean that the mode reads. -/
theorem weightGradAt_oneElementCall (training : Bool) :
    (oneElementCall training).weightGradAt 0 = if training then 0 else 1 := by
  cases training with
  | true =>
      show (0 + (1 - 1) * 1) * (1 : ℝ) = 0
      norm_num
  | false =>
      show (0 + (1 - 0) * 1) * (1 / Real.sqrt (0 + 1)) = (1 : ℝ)
      norm_num

/-- No backward is faithful in both modes; that of one mode is in its own. -/
theorem faithful_replay_iff_both_modes :
    (¬ ∃ backward, ReplaysFaithfully backward fun _ : BackwardArgs ℝ ℝ => True)
      ∧ ∀ training, ReplaysFaithfully (replayNative ⟨.standard, 4⟩ training)
          fun args : BackwardArgs ℝ ℝ => args.training = training := by
  obtain ⟨hiff, hmode⟩ := @faithful_replay_iff ℝ ℝ _ _
  refine ⟨fun hexists => ?_, hmode ⟨add_assoc⟩ ⟨add_comm⟩ _⟩
  have hsame := (hiff fun _ => True).1 hexists (oneElementCall true) (oneElementCall false)
    (oneElementCall_complete true) (oneElementCall_complete false) trivial trivial rfl
  have hlists : [(oneElementCall true).weightGradAt 0] = [(oneElementCall false).weightGradAt 0] :=
    congrArg Prod.snd (Option.some.inj hsame.weight)
  rw [weightGradAt_oneElementCall, weightGradAt_oneElementCall] at hlists
  norm_num at hlists

end ChannelNorm

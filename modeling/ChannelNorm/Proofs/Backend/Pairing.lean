/-
  ChannelNorm.Proofs.Backend.Pairing
  ──────────────────────────────────
  **WHICH ACCELERATOR ANSWERS A RECORDED FORWARD.**

  A context names the slot its forward ran in, not the accelerator that was in
  it.  Its backward is therefore computed by the accelerator of the forward, or
  refused, exactly as long as nobody puts another accelerator into that slot:

      slot empty             →  refused, nothing runs
      slot holds b           →  b's backward runs, whoever ran the forward
-/
import ChannelNorm.Proofs.Backend.Session

namespace ChannelNorm

variable {α A : Type}

/-! ## §1. Who ran. -/

namespace Logged

variable {ρ : Type} {x : Logged α A ρ}

/-- The call put the forward of one accelerator to work before anything else. -/
def RanForward (x : Logged α A ρ) (slot : AcceleratorSlot) (handle : Nat) : Prop :=
  ∃ handed, x.invocations.head? = some (.acceleratorForward slot handle handed)

/-- The call put the backward of one accelerator to work before anything else. -/
def RanBackward (x : Logged α A ρ) (slot : AcceleratorSlot) (handle : Nat) : Prop :=
  ∃ handed, x.invocations.head? = some (.acceleratorBackward slot handle handed)

/-- The call failed and put no implementation to work. -/
def Refused (x : Logged α A ρ) (e : TensorError) : Prop :=
  x.result = .error e ∧ x.invocations = []

/-- The call put `a`'s backward to work, and its gradients are those `a` gave
back, as far as the mask asks for them. -/
def AnsweredBy (x : Logged α A (Gradients α)) (slot : AcceleratorSlot) (a : Accelerator α A)
    (mask : GradMask) : Prop :=
  ∃ handed, x.invocations.head? = some (.acceleratorBackward slot a.handle handed)
    ∧ ∀ g, x.result = .ok g → ∃ raw, (a.backward handed).result = .ok raw
      ∧ g = Gradients.masked ⟨some raw.input, some raw.weight, some raw.bias⟩ mask

theorem AnsweredBy.ranBackward {x : Logged α A (Gradients α)} {slot : AcceleratorSlot}
    {a : Accelerator α A} {mask : GradMask} (h : x.AnsweredBy slot a mask) :
    x.RanBackward slot a.handle := by
  obtain ⟨handed, hhead, _⟩ := h
  exact ⟨handed, hhead⟩

/-- One accelerator at a time goes first. -/
theorem RanBackward.handle_eq {slot : AcceleratorSlot} {m n : Nat}
    (hm : x.RanBackward slot m) (hn : x.RanBackward slot n) : m = n := by
  obtain ⟨handed, hhead⟩ := hm
  obtain ⟨handed', hhead'⟩ := hn
  rw [hhead] at hhead'
  injection hhead' with hinvocation
  injection hinvocation

/-- A refused call put nothing to work. -/
theorem Refused.not_ranBackward {e : TensorError} {slot : AcceleratorSlot} {n : Nat}
    (h : x.Refused e) : ¬ x.RanBackward slot n := by
  rintro ⟨handed, hhead⟩
  rw [h.2] at hhead
  cases hhead

/-- A call that some accelerator answers, if there is one, and that is refused
otherwise, is answered by the one with a given handle, or refused, exactly when
there is no other. -/
theorem ranBackward_or_refused_iff {x : Logged α A (Gradients α)} {slot : AcceleratorSlot}
    {mask : GradMask} {e : TensorError} {holder : Option (Accelerator α A)}
    (hanswered : ∀ b, holder = some b → x.AnsweredBy slot b mask)
    (hrefused : holder = none → x.Refused e) (handle : Nat) :
    (x.RanBackward slot handle ∨ ∃ e, x.Refused e)
      ↔ ∀ b, holder = some b → b.handle = handle := by
  constructor
  · rintro (hback | ⟨e', he⟩) b hb
    · exact (hanswered b hb).ranBackward.handle_eq hback
    · exact absurd (hanswered b hb).ranBackward he.not_ranBackward
  · intro hsame
    cases hholder : holder with
    | none => exact .inr ⟨e, hrefused hholder⟩
    | some b =>
        left
        rw [← hsame b hholder]
        exact (hanswered b hholder).ranBackward

end Logged

/-- The gradients an accelerator is asked for are its own, masked. -/
theorem result_acceleratedBackward {slot : AcceleratorSlot} {b : Accelerator α A}
    {args : BackwardArgs α A} {weight : Tensor α} {g : Gradients α}
    (hok : (acceleratedBackward slot b args weight).result = .ok g) :
    ∃ raw, (b.backward ⟨args.input.contiguous, args.gradOutput.contiguous, weight, args.running,
        args.saved, args.eps⟩).result = .ok raw
      ∧ g = Gradients.masked ⟨some raw.input, some raw.weight, some raw.bias⟩ args.mask := by
  unfold acceleratedBackward at hok
  dsimp only at hok
  cases hresult : (b.backward ⟨args.input.contiguous, args.gradOutput.contiguous, weight,
      args.running, args.saved, args.eps⟩).result with
  | error e =>
      rw [hresult] at hok
      cases hok
  | ok raw =>
      rw [hresult] at hok
      cases hok
      exact ⟨raw, rfl, rfl⟩

/-! ## §2. What a forward records. -/

variable [OrderedArith A] [Element α A]

/-- The selected accelerator is the one its slot holds. -/
theorem get_of_selectAccelerator {config : NormConfig} {registry : Registry α A}
    {enabled : Bool} {args : ForwardArgs α A} {running : ChannelStats α}
    {slot : AcceleratorSlot} {a : Accelerator α A}
    (h : selectAccelerator config registry enabled args running = some (slot, a)) :
    registry.get slot = some a := by
  unfold selectAccelerator at h
  rcases Option.or_eq_some_iff.1 h with h | ⟨_, h⟩
  · obtain ⟨b, hb, hpair⟩ := Option.map_eq_some_iff.1 h
    cases hpair
    exact (Option.filter_eq_some_iff.1 hb).1
  · obtain ⟨b, hb, hpair⟩ := Option.map_eq_some_iff.1 h
    cases hpair
    exact (Option.filter_eq_some_iff.1 hb).1

section
variable {ex : Executor} {registry : Registry α A} {enabled : Bool} {args : ForwardArgs α A}
  {running : ChannelStats α} {slot : AcceleratorSlot} {handle : Nat}

/-- A successful call ran on an installed accelerator or natively. -/
theorem batchNormForward_cases {f : Forward α}
    (hok : (batchNormForward ex registry enabled args running).result = .ok f) :
    (∃ slot a weight bias, registry.get slot = some a ∧ args.weight = some weight
        ∧ batchNormForward ex registry enabled args running
          = acceleratedForward slot a args weight bias running)
      ∨ batchNormForward ex registry enabled args running = nativeForward ex args running := by
  unfold batchNormForward at hok ⊢
  -- a refused call is no success, and an accepted one selects
  split at hok
  case h_1 => cases hok
  case h_2 params hcheck =>
    split
    case h_1 slot a weight bias hselect hweight hbias =>
      exact .inl ⟨slot, a, weight, bias, get_of_selectAccelerator hselect, hweight, rfl⟩
    case h_2 => exact .inr rfl

theorem backend_acceleratedForward {a : Accelerator α A} {weight bias : Tensor α}
    {f : Forward α} (hok : (acceleratedForward slot a args weight bias running).result = .ok f) :
    f.backend = slot.tag := by
  unfold acceleratedForward at hok
  dsimp only at hok
  cases hresult : (a.forward ⟨args.input.contiguous, weight.contiguous, bias.contiguous,
      args.training, args.momentum, args.eps⟩ running).result with
  | error e =>
      rw [hresult] at hok
      cases hok
  | ok out =>
      rw [hresult] at hok
      cases hok
      rfl

/-- A recorded call keeps what it was made with, what it returned and the running
statistics it left. -/
theorem BatchNormContext.eq_of_forward {out : Tensor α} {ctx : BatchNormContext α A}
    (hok : (BatchNormContext.forward ex registry enabled args running).result = .ok (out, ctx)) :
    ∃ f, (batchNormForward ex registry enabled args running).result = .ok f
      ∧ ctx = ⟨args.input, args.weight, (batchNormForward ex registry enabled args running).running,
          f.saved, f.backend, args.training, args.eps⟩ := by
  unfold BatchNormContext.forward at hok
  dsimp only [Run.map] at hok
  cases hresult : (batchNormForward ex registry enabled args running).result with
  | error e =>
      rw [hresult] at hok
      cases hok
  | ok f =>
      rw [hresult] at hok
      cases hok
      exact ⟨f, rfl, rfl⟩

/-- The tensors are its own, the tag that of what it returned. -/
theorem BatchNormContext.keeps {out : Tensor α} {ctx : BatchNormContext α A}
    (hok : (BatchNormContext.forward ex registry enabled args running).result = .ok (out, ctx)) :
    ∃ f, (batchNormForward ex registry enabled args running).result = .ok f
      ∧ ctx.backend = f.backend ∧ ctx.input = args.input ∧ ctx.weight = args.weight := by
  obtain ⟨f, hf, rfl⟩ := BatchNormContext.eq_of_forward hok
  exact ⟨f, hf, rfl, rfl, rfl⟩

/-- **A context whose forward ran on an accelerator** names its slot, where that
accelerator is installed, and keeps the weight it was given. -/
theorem BatchNormContext.forward_of_ranForward {out : Tensor α} {ctx : BatchNormContext α A}
    (hok : (BatchNormContext.forward ex registry enabled args running).result = .ok (out, ctx))
    (hran : (BatchNormContext.forward ex registry enabled args running).toLogged.RanForward
      slot handle) :
    ctx.backend = slot.tag ∧ (∃ weight, ctx.weight = some weight)
      ∧ ∃ a, registry.get slot = some a ∧ a.handle = handle := by
  obtain ⟨handed, hhead⟩ := hran
  -- recording changes what a call returns, not what it put to work
  replace hhead : (batchNormForward ex registry enabled args running).invocations.head?
      = some (.acceleratorForward slot handle handed) := hhead
  obtain ⟨f, hf, hbackend, _, hkept⟩ := BatchNormContext.keeps hok
  rw [hbackend, hkept]
  rcases batchNormForward_cases hf with ⟨slot', a, weight, bias, hget, hweight, hrun⟩ | hrun
  · rw [hrun] at hhead hf
    injection hhead with hinvocation
    injection hinvocation with hslot hhandle
    subst hslot
    exact ⟨backend_acceleratedForward hf, ⟨weight, hweight⟩, a, hget, hhandle⟩
  · rw [hrun] at hhead
    injection hhead with hinvocation
    cases hinvocation

/-! ## §3. What a backward replays. -/

theorem slot?_tag (slot : AcceleratorSlot) : slot.tag.slot? = some slot := by
  cases slot <;> rfl

variable {ctx : BatchNormContext α A} {gradOutput : Tensor α} {mask : GradMask}

/-- An empty slot is reported, and nothing runs. -/
theorem BatchNormContext.backward_refused (hbackend : ctx.backend = slot.tag)
    (hget : registry.get slot = none) :
    (ctx.backward ex registry gradOutput mask).Refused (.replayUnavailable slot) := by
  have hreplay : batchNormBackward ex registry slot.tag (ctx.backwardArgs gradOutput mask)
      = ⟨.error (.replayUnavailable slot), []⟩ := by
    unfold batchNormBackward
    simp only [slot?_tag, hget]
  unfold BatchNormContext.backward
  rw [hbackend, hreplay]
  exact ⟨rfl, rfl⟩

/-- Whatever the slot holds answers. -/
theorem BatchNormContext.backward_answered {weight : Tensor α} {b : Accelerator α A}
    (hbackend : ctx.backend = slot.tag) (hweight : ctx.weight = some weight)
    (hget : registry.get slot = some b) :
    (ctx.backward ex registry gradOutput mask).AnsweredBy slot b mask := by
  have hreplay : batchNormBackward ex registry slot.tag (ctx.backwardArgs gradOutput mask)
      = acceleratedBackward slot b (ctx.backwardArgs gradOutput mask) weight := by
    have hargs : (ctx.backwardArgs gradOutput mask).weight = some weight := hweight
    unfold batchNormBackward
    simp only [slot?_tag, hget, hargs]
  unfold BatchNormContext.backward
  rw [hbackend, hreplay]
  exact ⟨_, rfl, fun g hok => result_acceleratedBackward hok⟩

end

/-! ## §4. Pairing across a run. -/

namespace Session

/-- The backward of a recorded context asks the slot it names, as it is now. -/
theorem backward_recorded {s : Session} {d : DType} {i : Nat}
    {ctx : BatchNormContext d.Host Float} {slot : AcceleratorSlot} {weight : Tensor d.Host}
    (hctx : (s.contexts d)[i]? = some ctx) (hbackend : ctx.backend = slot.tag)
    (hweight : ctx.weight = some weight) (ex : Executor) (gradOutput : Tensor d.Host)
    (mask : GradMask) :
    ∃ replay, s.backward d i ex gradOutput mask = some replay
      ∧ (∀ b, s.held d slot = some b → replay.AnsweredBy slot b mask)
      ∧ (s.held d slot = none → replay.Refused (.replayUnavailable slot)) := by
  refine ⟨ctx.backward ex (s.registry d) gradOutput mask, ?_, ?_, ?_⟩
  · unfold backward
    rw [hctx]
    rfl
  · intro b hb
    exact BatchNormContext.backward_answered hbackend hweight hb
  · intro hnone
    exact BatchNormContext.backward_refused hbackend hnone

/-- **Which accelerator answers a recorded forward.**  Let a forward run on the
accelerator with a handle, and anything at all be requested afterwards.  The
backward of its context is answered by what the slot holds by then, and refused
if it holds nothing.  So it is paired with its forward, or refused, if and only
if the slot holds no accelerator with another handle. -/
theorem backward_paired_iff (s : Session) (d : DType) (ex : Executor) (enabled : Bool)
    (args : ForwardArgs d.Host Float) (running : ChannelStats d.Host)
    {out : Tensor d.Host} {ctx : BatchNormContext d.Host Float} {slot : AcceleratorSlot}
    {handle : Nat} (hok : (s.forward d ex enabled args running).result = .ok (out, ctx))
    (hran : (s.forward d ex enabled args running).toLogged.RanForward slot handle)
    (requests : List Request) (ex' : Executor) (gradOutput : Tensor d.Host) (mask : GradMask) :
    ∃ a replay, s.held d slot = some a ∧ a.handle = handle
      ∧ (s.run (.forward d ex enabled args running :: requests)).backward d
          (s.contexts d).length ex' gradOutput mask = some replay
      ∧ (∀ b, Request.runLeaves d slot (some a) requests = some b → replay.AnsweredBy slot b mask)
      ∧ (Request.runLeaves d slot (some a) requests = none
          → replay.Refused (.replayUnavailable slot))
      ∧ ((replay.RanBackward slot handle ∨ ∃ e, replay.Refused e)
          ↔ ∀ b, Request.runLeaves d slot (some a) requests = some b → b.handle = handle) := by
  obtain ⟨hbackend, ⟨weight, hweight⟩, a, hget, hhandle⟩ :=
    BatchNormContext.forward_of_ranForward hok hran
  -- the context and the slot as the backward finds them
  have hctx := getElem?_contexts_run_forward hok requests
  have hheld : (s.run (.forward d ex enabled args running :: requests)).held d slot
      = Request.runLeaves d slot (some a) requests := by
    have hbefore : s.held d slot = some a := hget
    rw [held_run, hbefore]
    rfl
  obtain ⟨replay, hreplay, hanswered, hrefused⟩ :=
    backward_recorded hctx hbackend hweight ex' gradOutput mask
  rw [hheld] at hanswered hrefused
  exact ⟨a, replay, hget, hhandle, hreplay, hanswered, hrefused,
    Logged.ranBackward_or_refused_iff hanswered hrefused handle⟩

/-- An accelerator that gives back what it is handed. -/
def echoAccelerator (handle : Nat) : Accelerator (DType.Host .float32) Float where
  handle := handle
  name := "echo"
  version := 1
  minEpsilon := Accelerator.defaultMinEpsilon
  forward handed running := ⟨⟨.ok ⟨handed.input, handed.weight, handed.bias⟩, []⟩, running⟩
  backward handed := ⟨.ok ⟨handed.gradOutput, handed.weight, handed.weight⟩, []⟩

/-- One element on an accelerator device. -/
def deviceTensor (dims : List Nat) (h : Addressable dims) (len : 1 = volume dims) :
    Tensor (DType.Host .float32) :=
  .build dims h [(1 : Float32)] len (.gpu 0)

/-- A training call that an accelerator may run. -/
def deviceCall : ForwardArgs (DType.Host .float32) Float where
  input := deviceTensor [1, 1] (by decide) rfl
  weight := some (deviceTensor [1] (by decide) rfl)
  bias := some (deviceTensor [1] (by decide) rfl)
  training := true
  momentum := 0
  eps := 1

/-- The forward ran on accelerator 0; accelerator 1 took its slot, and answers. -/
theorem backward_paired_iff_replaced :
    ∃ replay, (initial.run
        [.install .float32 .miopen (echoAccelerator 0),
          .forward .float32 ⟨.standard, 1⟩ true deviceCall .none,
          .install .float32 .miopen (echoAccelerator 1)]).backward .float32 0 ⟨.standard, 1⟩
            deviceCall.input .all = some replay
      ∧ replay.RanBackward .miopen 1
      ∧ ¬ (replay.RanBackward .miopen 0 ∨ ∃ e, replay.Refused e) := by
  obtain ⟨a, replay, ha, _, hreplay, hanswered, _, hiff⟩ := backward_paired_iff
    (initial.step (.install .float32 .miopen (echoAccelerator 0))) .float32
    ⟨.standard, 1⟩ true deviceCall .none rfl ⟨_, rfl⟩
    [.install .float32 .miopen (echoAccelerator 1)] ⟨.standard, 1⟩ deviceCall.input .all
  refine ⟨replay, hreplay, (hanswered (echoAccelerator 1) rfl).ranBackward, fun h => ?_⟩
  have hsame : (1 : Nat) = 0 := hiff.1 h (echoAccelerator 1) rfl
  cases hsame

end Session

end ChannelNorm

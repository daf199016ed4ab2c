/-
  ChannelNorm.Proofs.Backend.Session
  ──────────────────────────────────
  **REGISTRIES AND CONTEXTS OVER TIME.**

  A session is what callers share: one registry for each element type, and the
  batch-norm contexts recorded so far.  Accelerators come and go between a
  forward and its backward, in any order.  Main facts, for any run of requests:

      what a slot holds is decided by the last request that changed it
      a recorded context keeps its number and never changes
-/
import Mathlib.Logic.Function.Basic
import ChannelNorm.Replay.Batch
import ChannelNorm.Scalar.Binary

namespace ChannelNorm

/-! ## §1. Sessions and requests. -/

/-- The host type of a format's values. -/
def DType.Host : DType → Type
  | .float32 => Float32
  | .float64 => Float

instance DType.hostElement : (d : DType) → Element d.Host Float
  | .float32 => inferInstanceAs (Element Float32 Float)
  | .float64 => inferInstanceAs (Element Float Float)

/-- The registry of each element type, and the contexts recorded with it,
oldest first. -/
structure Session where
  registry : (d : DType) → Registry d.Host Float
  contexts : (d : DType) → List (BatchNormContext d.Host Float)

/-- What a caller can ask for.  A backward names its context by number. -/
inductive Request where
  | install (d : DType) (slot : AcceleratorSlot) (a : Accelerator d.Host Float)
  | uninstall (d : DType) (slot : AcceleratorSlot)
  | forward (d : DType) (ex : Executor) (enabled : Bool) (args : ForwardArgs d.Host Float)
      (running : ChannelStats d.Host)
  | backward (d : DType) (i : Nat) (ex : Executor) (gradOutput : Tensor d.Host)
      (mask : GradMask)

namespace Session

/-- Nothing installed and nothing recorded. -/
def initial : Session :=
  ⟨fun _ => .empty, fun _ => []⟩

/-- What a slot holds. -/
def held (s : Session) (d : DType) (slot : AcceleratorSlot) :
    Option (Accelerator d.Host Float) :=
  (s.registry d).get slot

/-- A forward call with the accelerators installed now. -/
def forward (s : Session) (d : DType) (ex : Executor) (enabled : Bool)
    (args : ForwardArgs d.Host Float) (running : ChannelStats d.Host) :
    Run d.Host Float (Tensor d.Host × BatchNormContext d.Host Float) :=
  BatchNormContext.forward ex (s.registry d) enabled args running

/-- The backward of a recorded context with the accelerators installed now. -/
def backward (s : Session) (d : DType) (i : Nat) (ex : Executor) (gradOutput : Tensor d.Host)
    (mask : GradMask) : Option (Logged d.Host Float (Gradients d.Host)) :=
  (s.contexts d)[i]?.map fun ctx => ctx.backward ex (s.registry d) gradOutput mask

/-- The session with another registry for one element type. -/
def withRegistry (s : Session) (d : DType) (r : Registry d.Host Float) : Session :=
  { s with registry := Function.update s.registry d r }

/-- The session with the context of a call, if the call succeeded. -/
def record (s : Session) (d : DType)
    (call : Run d.Host Float (Tensor d.Host × BatchNormContext d.Host Float)) : Session :=
  match call.result with
  | .error _ => s
  | .ok (_, ctx) => { s with contexts := Function.update s.contexts d (s.contexts d ++ [ctx]) }

/-- What a request leaves behind. -/
def step (s : Session) : Request → Session
  | .install d slot a => s.withRegistry d ((s.registry d).install d slot a).registry
  | .uninstall d slot => s.withRegistry d ((s.registry d).uninstall d slot).registry
  | .forward d ex enabled args running => s.record d (s.forward d ex enabled args running)
  | .backward .. => s

/-- What a run of requests leaves behind. -/
def run (s : Session) (requests : List Request) : Session :=
  requests.foldl step s

end Session

/-! ## §2. What a slot holds. -/

namespace Request

/-- Contents of one slot after another (or the same) got new ones. -/
def refilled (d : DType) (slot : AcceleratorSlot) (was : Option (Accelerator d.Host Float))
    (d' : DType) (slot' : AcceleratorSlot) (now : Option (Accelerator d'.Host Float)) :
    Option (Accelerator d.Host Float) :=
  if h : d' = d ∧ slot' = slot then h.1 ▸ now else was

/-- What a request leaves in a slot of an element type, given what was there. -/
def leaves (d : DType) (slot : AcceleratorSlot) (was : Option (Accelerator d.Host Float)) :
    Request → Option (Accelerator d.Host Float)
  | .install d' slot' a => refilled d slot was d' slot' (some a)
  | .uninstall d' slot' => refilled d slot was d' slot' none
  | .forward .. => was
  | .backward .. => was

/-- What a run of requests leaves in a slot: the last change decides. -/
def runLeaves (d : DType) (slot : AcceleratorSlot) (was : Option (Accelerator d.Host Float))
    (requests : List Request) : Option (Accelerator d.Host Float) :=
  requests.foldl (leaves d slot) was

end Request

namespace Session

variable {s : Session} {d d' : DType} {slot slot' : AcceleratorSlot}

/-- Filling or emptying one slot changes that slot only. -/
theorem held_withRegistry_set (s : Session) (now : Option (Accelerator d'.Host Float)) :
    (s.withRegistry d' ((s.registry d').set now slot')).held d slot
      = Request.refilled d slot (s.held d slot) d' slot' now := by
  show (Function.update s.registry d' _ d).get slot = _
  unfold Request.refilled
  -- the other element type first, then the other slot
  by_cases hd : d' = d
  · subst hd
    rw [Function.update_self]
    by_cases hslot : slot' = slot
    · subst hslot
      rw [Registry.get_set_self, dif_pos ⟨rfl, rfl⟩]
    · rw [Registry.get_set_of_ne _ _ (Ne.symm hslot), dif_neg fun h => hslot h.2]
      rfl
  · rw [Function.update_of_ne (Ne.symm hd), dif_neg fun h => hd h.1]
    rfl

/-- Recording a call leaves the registries alone. -/
theorem held_record
    (call : Run d'.Host Float (Tensor d'.Host × BatchNormContext d'.Host Float)) :
    (s.record d' call).held d slot = s.held d slot := by
  unfold record
  split <;> rfl

/-- One request changes a slot as `Request.leaves` says. -/
theorem held_step (s : Session) (request : Request) :
    (s.step request).held d slot = request.leaves d slot (s.held d slot) := by
  cases request with
  | install d' slot' a => exact held_withRegistry_set s (some a)
  | uninstall d' slot' => exact held_withRegistry_set s none
  | forward d' ex enabled args running => exact held_record _
  | backward => rfl

/-- **What a slot holds after a run.** -/
theorem held_run (s : Session) (requests : List Request) :
    (s.run requests).held d slot = Request.runLeaves d slot (s.held d slot) requests := by
  -- on the requests still to come; the session they meet changes
  induction requests generalizing s with
  | nil => rfl
  | cons request rest ih =>
      show ((s.step request).run rest).held d slot = _
      rw [ih, held_step]
      rfl

/-! ## §3. What stays recorded. -/

/-- Recording a call adds its context and keeps the others. -/
theorem contexts_prefix_record
    (call : Run d'.Host Float (Tensor d'.Host × BatchNormContext d'.Host Float)) :
    s.contexts d <+: (s.record d' call).contexts d := by
  unfold record
  split
  · exact List.prefix_rfl
  · rename_i out ctx hok
    by_cases hd : d = d'
    · subst hd
      show _ <+: Function.update s.contexts d _ d
      rw [Function.update_self]
      exact List.prefix_append _ _
    · have hkept : Function.update s.contexts d' (s.contexts d' ++ [ctx]) d = s.contexts d :=
        Function.update_of_ne hd _ _
      exact ⟨[], (List.append_nil _).trans hkept.symm⟩

/-- A request forgets no context. -/
theorem contexts_prefix_step (s : Session) (request : Request) :
    s.contexts d <+: (s.step request).contexts d := by
  cases request with
  | install => exact List.prefix_rfl
  | uninstall => exact List.prefix_rfl
  | forward d' ex enabled args running => exact contexts_prefix_record _
  | backward => exact List.prefix_rfl

/-- No run of requests forgets a context. -/
theorem contexts_prefix_run (s : Session) (requests : List Request) :
    s.contexts d <+: (s.run requests).contexts d := by
  induction requests generalizing s with
  | nil => exact List.prefix_rfl
  | cons request rest ih => exact (contexts_prefix_step s request).trans (ih (s.step request))

/-- A successful forward records its context under the next number. -/
theorem contexts_step_forward {ex : Executor} {enabled : Bool} {args : ForwardArgs d.Host Float}
    {running : ChannelStats d.Host} {out : Tensor d.Host} {ctx : BatchNormContext d.Host Float}
    (hok : (s.forward d ex enabled args running).result = .ok (out, ctx)) :
    (s.step (.forward d ex enabled args running)).contexts d = s.contexts d ++ [ctx] := by
  show (s.record d _).contexts d = _
  unfold record
  rw [hok]
  show Function.update s.contexts d _ d = _
  rw [Function.update_self]

/-- **A context once recorded is found under its number after any run.** -/
theorem getElem?_contexts_run_forward {ex : Executor} {enabled : Bool}
    {args : ForwardArgs d.Host Float} {running : ChannelStats d.Host} {out : Tensor d.Host}
    {ctx : BatchNormContext d.Host Float}
    (hok : (s.forward d ex enabled args running).result = .ok (out, ctx))
    (requests : List Request) :
    ((s.run (.forward d ex enabled args running :: requests)).contexts d)[(s.contexts d).length]?
      = some ctx := by
  have hprefix : s.contexts d ++ [ctx]
      <+: (s.run (.forward d ex enabled args running :: requests)).contexts d := by
    rw [← contexts_step_forward hok]
    exact contexts_prefix_run (s.step (.forward d ex enabled args running)) requests
  obtain ⟨later, hlater⟩ := hprefix
  rw [← hlater, List.append_assoc, List.getElem?_append_right (Nat.le_refl _), Nat.sub_self]
  rfl

end Session

end ChannelNorm

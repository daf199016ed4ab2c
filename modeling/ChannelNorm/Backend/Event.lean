/-
  ChannelNorm.Backend.Event
  ─────────────────────────
  **WHAT HAPPENED DURING A CALL.**

  A call that goes through backend selection leaves a list of events: the
  notices it reported and the implementations it invoked, each with the
  arguments it was handed.  `Logged` is a result together with its events; it
  is a monad that stops at the first failure and keeps the events up to there.
  `Run` also carries the running statistics, which are there whether the call
  succeeded or not.
-/
import ChannelNorm.BatchNorm.Call
import ChannelNorm.Notice

namespace ChannelNorm

/-! ## §1. Events. -/

/-- What an accelerator's forward is handed.  All tensors are contiguous. -/
structure AcceleratedForward (α A : Type) where
  input : Tensor α
  weight : Tensor α
  bias : Tensor α
  training : Bool
  momentum : A
  eps : A

/-- What an accelerator's backward is handed. -/
structure AcceleratedBackward (α A : Type) where
  input : Tensor α
  gradOutput : Tensor α
  weight : Tensor α
  running : ChannelStats α
  saved : ChannelStats α
  eps : A

/-- One implementation put to work.  An accelerator is told from others by its
handle. -/
inductive Invocation (α A : Type) where
  | nativeForward (args : ForwardArgs α A)
  | nativeBackward (args : BackwardArgs α A)
  | acceleratorForward (slot : AcceleratorSlot) (handle : Nat) (args : AcceleratedForward α A)
  | acceleratorBackward (slot : AcceleratorSlot) (handle : Nat) (args : AcceleratedBackward α A)

/-- One thing that happened during a call. -/
inductive Event (α A : Type) where
  | notice (n : Notice)
  | invoked (i : Invocation α A)

variable {α A : Type}

def Event.notice? : Event α A → Option Notice
  | .notice n => some n
  | .invoked _ => none

def Event.invocation? : Event α A → Option (Invocation α A)
  | .notice _ => none
  | .invoked i => some i

/-! ## §2. Results with events. -/

/-- A result and what happened on the way to it. -/
structure Logged (α A ρ : Type) where
  result : Except TensorError ρ
  events : List (Event α A)

namespace Logged

variable {ρ σ : Type}

/-- A result with no events. -/
def ofExcept (r : Except TensorError ρ) : Logged α A ρ :=
  ⟨r, []⟩

/-- Go on with a successful result; a failure ends the call. -/
def bind (x : Logged α A ρ) (f : ρ → Logged α A σ) : Logged α A σ :=
  match x.result with
  | .error e => ⟨.error e, x.events⟩
  | .ok r => ⟨(f r).result, x.events ++ (f r).events⟩

instance : Monad (Logged α A) where
  pure r := ⟨.ok r, []⟩
  bind := bind

instance : MonadLift (Except TensorError) (Logged α A) where
  monadLift := ofExcept

/-- The notices, in order. -/
def notices (x : Logged α A ρ) : List Notice :=
  x.events.filterMap Event.notice?

/-- The implementations invoked, in order. -/
def invocations (x : Logged α A ρ) : List (Invocation α A) :=
  x.events.filterMap Event.invocation?

end Logged

/-- What a call leaves behind: its result, what happened, and the running
statistics. -/
structure Run (α A ρ : Type) extends Logged α A ρ where
  running : ChannelStats α

namespace Run

variable {ρ σ : Type}

/-- A call refused before anything happened. -/
def refused (e : TensorError) (running : ChannelStats α) : Run α A ρ :=
  ⟨⟨.error e, []⟩, running⟩

/-- The same run with more events in front. -/
def after (events : List (Event α A)) (r : Run α A ρ) : Run α A ρ :=
  { r with events := events ++ r.events }

/-- Change what a successful run returns. -/
def map (f : ρ → σ) (r : Run α A ρ) : Run α A σ where
  result := r.result.map f
  events := r.events
  running := r.running

end Run

end ChannelNorm

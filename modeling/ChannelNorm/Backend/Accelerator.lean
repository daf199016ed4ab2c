/-
  ChannelNorm.Backend.Accelerator
  ───────────────────────────────
  **INSTALLABLE IMPLEMENTATIONS.**

  An accelerator offers a forward and a backward of its own.  A registry holds
  at most one per slot, for one element type; an empty slot is never eligible.
  Installing hands back what was there before:

      (r.install dtype slot a).registry.get slot = some a
      (r.install dtype slot a).previous = r.get slot
-/
import ChannelNorm.Backend.Event
import ChannelNorm.Scalar.Arith

namespace ChannelNorm

/-! ## §1. Accelerators. -/

/-- Output and saved statistics of an accelerator's forward. -/
structure AcceleratedOutput (α : Type) where
  output : Tensor α
  saveMean : Tensor α
  saveVar : Tensor α

/-- All three gradients of an accelerator's backward. -/
structure AcceleratedGradients (α : Type) where
  input : Tensor α
  weight : Tensor α
  bias : Tensor α

/-- An implementation of batch normalization that can be installed. -/
structure Accelerator (α A : Type) where
  /-- Tells this accelerator from every other one. -/
  handle : Nat
  name : String
  /-- Library version reported for eligibility checks. -/
  version : Nat
  /-- Smallest epsilon the implementation supports. -/
  minEpsilon : A
  /-- Normalize, updating the running statistics that are present. -/
  forward : AcceleratedForward α A → ChannelStats α → Run α A (AcceleratedOutput α)
  backward : AcceleratedBackward α A → Logged α A (AcceleratedGradients α)

namespace Accelerator

/-- The smallest supported epsilon of an implementation that names none. -/
def defaultMinEpsilon {A : Type} [Zero A] : A := 0

/-- Largest batch the `cudnn` slot accepts. -/
def cudnnMaxBatchSize : Nat := 131070

/-- Oldest library version the `cudnn` slot accepts. -/
def cudnnMinVersion : Nat := 5110

/-- Highest input rank the `miopen` slot accepts. -/
def miopenDimMax : Nat := 4

end Accelerator

/-! ## §2. Registries. -/

/-- Installed accelerators of one element type. -/
structure Registry (α A : Type) where
  cudnn : Option (Accelerator α A)
  miopen : Option (Accelerator α A)

namespace Registry

variable {α A : Type}

def empty : Registry α A :=
  ⟨none, none⟩

/-- What is installed in a slot. -/
def get (r : Registry α A) : AcceleratorSlot → Option (Accelerator α A)
  | .cudnn => r.cudnn
  | .miopen => r.miopen

def isInstalled (r : Registry α A) (slot : AcceleratorSlot) : Bool :=
  (r.get slot).isSome

/-- The registry with other contents of one slot. -/
def set (r : Registry α A) (a : Option (Accelerator α A)) : AcceleratorSlot → Registry α A
  | .cudnn => { r with cudnn := a }
  | .miopen => { r with miopen := a }

/-- A change of a registry: what it is now, what was in the slot before, and
what is reported. -/
structure Change (α A : Type) where
  registry : Registry α A
  previous : Option (Accelerator α A)
  notices : List Notice

/-- Put an accelerator into a slot. -/
def install (r : Registry α A) (dtype : DType) (slot : AcceleratorSlot)
    (a : Accelerator α A) : Change α A where
  registry := r.set (some a) slot
  previous := r.get slot
  notices :=
    match r.get slot with
    | some old => [.replaced slot old.name a.name a.version dtype]
    | none => [.installed slot a.name a.version dtype]

/-- Empty a slot. -/
def uninstall (r : Registry α A) (dtype : DType) (slot : AcceleratorSlot) : Change α A where
  registry := r.set none slot
  previous := r.get slot
  notices := (r.get slot).toList.map fun old => .uninstalled slot old.name dtype

/-! ## §3. What a change does to each slot. -/

@[simp] theorem get_set_self (r : Registry α A) (a : Option (Accelerator α A))
    (slot : AcceleratorSlot) : (r.set a slot).get slot = a := by
  cases slot <;> rfl

/-- A change of one slot leaves the other alone. -/
theorem get_set_of_ne (r : Registry α A) (a : Option (Accelerator α A))
    {slot other : AcceleratorSlot} (h : other ≠ slot) :
    (r.set a slot).get other = r.get other :=
  match slot, other, h with
  | .cudnn, .miopen, _ => rfl
  | .miopen, .cudnn, _ => rfl
  | .cudnn, .cudnn, h => absurd rfl h
  | .miopen, .miopen, h => absurd rfl h

@[simp] theorem get_install (r : Registry α A) (dtype : DType) (slot : AcceleratorSlot)
    (a : Accelerator α A) : (r.install dtype slot a).registry.get slot = some a :=
  get_set_self r (some a) slot

@[simp] theorem get_uninstall (r : Registry α A) (dtype : DType) (slot : AcceleratorSlot) :
    (r.uninstall dtype slot).registry.get slot = none :=
  get_set_self r none slot

end Registry

end ChannelNorm

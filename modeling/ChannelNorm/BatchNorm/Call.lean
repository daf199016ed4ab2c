/-
  ChannelNorm.BatchNorm.Call
  ──────────────────────────
  **ARGUMENTS AND RESULTS OF BATCH NORMALIZATION.**

  A forward call takes an input, optional affine parameters, and the running
  statistics, which it may update; a backward call takes the incoming gradient
  and whatever statistics the forward call used.  Statistics are always a pair
  of a mean and a variance (or a transform of one), either of which may be
  missing.
-/
import ChannelNorm.Backend.Tag
import ChannelNorm.Tensor.Channel

namespace ChannelNorm

/-- A mean and a variance per channel, where present. -/
structure ChannelStats (α : Type) where
  mean : Option (Tensor α)
  var : Option (Tensor α)

/-- No statistics. -/
def ChannelStats.none {α : Type} : ChannelStats α :=
  ⟨Option.none, Option.none⟩

/-- Arguments of a forward call, the running statistics apart. -/
structure ForwardArgs (α A : Type) where
  input : Tensor α
  weight : Option (Tensor α)
  bias : Option (Tensor α)
  /-- Normalize with the statistics of the batch itself. -/
  training : Bool
  /-- Weight of the new batch in the running statistics. -/
  momentum : A
  eps : A

/-- Result of a forward call. -/
structure Forward (α : Type) where
  output : Tensor α
  /-- Batch mean and inverse standard deviation, where they were computed. -/
  saved : ChannelStats α
  backend : BackendTag

/-- Which gradients a backward call is asked for. -/
structure GradMask where
  input : Bool
  weight : Bool
  bias : Bool
  deriving DecidableEq, Repr

/-- Ask for every gradient. -/
def GradMask.all : GradMask :=
  ⟨true, true, true⟩

/-- Gradients of a normalization, where requested. -/
structure Gradients (α : Type) where
  input : Option (Tensor α)
  weight : Option (Tensor α)
  bias : Option (Tensor α)

/-- Drop every gradient the mask does not ask for. -/
def Gradients.masked {α : Type} (g : Gradients α) (mask : GradMask) : Gradients α where
  input := g.input.filter fun _ => mask.input
  weight := g.weight.filter fun _ => mask.weight
  bias := g.bias.filter fun _ => mask.bias

/-- Arguments of a backward call. -/
structure BackwardArgs (α A : Type) where
  gradOutput : Tensor α
  input : Tensor α
  weight : Option (Tensor α)
  running : ChannelStats α
  saved : ChannelStats α
  training : Bool
  eps : A
  mask : GradMask

end ChannelNorm

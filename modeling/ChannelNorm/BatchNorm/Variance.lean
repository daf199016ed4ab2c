/-
  ChannelNorm.BatchNorm.Variance
  ──────────────────────────────
  **FROM A VARIANCE TO A SCALE.**

  A biased variance is either stored as it is or turned into the inverse
  standard deviation `1 / sqrt (var + eps)`.  A constant channel with no epsilon
  has no inverse standard deviation; for batch statistics it counts as zero, for
  running statistics the division is carried out as written.
-/
import ChannelNorm.Scalar.Arith

namespace ChannelNorm

/-- How a batch variance is stored. -/
inductive VarTransform where
  /-- Unchanged; epsilon is ignored. -/
  | rawVariance
  /-- As `1 / sqrt (var + eps)`, or zero when both are zero. -/
  | inverseStd
  deriving DecidableEq, Repr

/-- Apply a policy to a variance. -/
def VarTransform.apply {α : Type} [Arith α] : VarTransform → α → α → α
  | .rawVariance, var, _ => var
  | .inverseStd, var, eps =>
      if isZero var && isZero eps then 0 else 1 / sqrt (var + eps)

/-- Inverse standard deviation of a running variance, without a guard for
zero. -/
def runningInverseStd {α A : Type} [OrderedArith A] [Element α A] (var : α) (eps : A) : α :=
  narrow (1 / sqrt (widen var + eps))

end ChannelNorm

import ChannelNorm.GradientCheck
import ChannelNorm.Replay.Batch
import ChannelNorm.Replay.Group
import ChannelNorm.Replay.Instance
import ChannelNorm.Replay.Layer
import ChannelNorm.Scalar.Binary
import ChannelNorm.Serial
import ChannelNorm.Version
import ChannelNorm.Proofs.Tensor.Constant
import ChannelNorm.Proofs.Tensor.Elementwise
import ChannelNorm.Proofs.Tensor.Fitting
import ChannelNorm.Proofs.Tensor.Infer
import ChannelNorm.Proofs.Tensor.Permute
import ChannelNorm.Proofs.Tensor.Representation
import ChannelNorm.Proofs.Tensor.Tasks
import ChannelNorm.Proofs.BatchNorm.Absent
import ChannelNorm.Proofs.BatchNorm.Agreement
import ChannelNorm.Proofs.BatchNorm.Answer
import ChannelNorm.Proofs.BatchNorm.Gradient
import ChannelNorm.Proofs.BatchNorm.GuardedBackward
import ChannelNorm.Proofs.BatchNorm.History
import ChannelNorm.Proofs.BatchNorm.Inference
import ChannelNorm.Proofs.BatchNorm.Isolation
import ChannelNorm.Proofs.BatchNorm.Memory
import ChannelNorm.Proofs.BatchNorm.Schedule
import ChannelNorm.Proofs.BatchNorm.Standardized
import ChannelNorm.Proofs.BatchNorm.Totality
import ChannelNorm.Proofs.Backend.Conservation
import ChannelNorm.Proofs.Backend.Faithful
import ChannelNorm.Proofs.Backend.Handover
import ChannelNorm.Proofs.Backend.Interchange
import ChannelNorm.Proofs.Backend.Pairing
import ChannelNorm.Proofs.Backend.Selection
import ChannelNorm.Proofs.Backend.Switch
import ChannelNorm.Proofs.Derived.Absent
import ChannelNorm.Proofs.Derived.Alone
import ChannelNorm.Proofs.Derived.Blocks
import ChannelNorm.Proofs.Derived.Completeness
import ChannelNorm.Proofs.Derived.Fold
import ChannelNorm.Proofs.Gradient.Comparison
import ChannelNorm.Proofs.Gradient.Difference
import ChannelNorm.Proofs.InstanceNorm.Evaluation
import ChannelNorm.Proofs.InstanceNorm.Failure
import ChannelNorm.Proofs.InstanceNorm.Samples
import ChannelNorm.Proofs.InstanceNorm.Sizes
import ChannelNorm.Proofs.Replay.Adjoint
import ChannelNorm.Proofs.Replay.Answered
import ChannelNorm.Proofs.Replay.Fit
import ChannelNorm.Proofs.Replay.Gradient
import ChannelNorm.Proofs.Replay.InstanceGradient
import ChannelNorm.Proofs.Replay.Mask
import ChannelNorm.Proofs.Replay.Mismatch
import ChannelNorm.Proofs.Replay.Recorded
import ChannelNorm.Proofs.Replay.Shapes

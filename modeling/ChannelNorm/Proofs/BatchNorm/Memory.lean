/-
  ChannelNorm.Proofs.BatchNorm.Memory
  ───────────────────────────────────
  **RESULTS DO NOT DEPEND ON WHERE TENSORS LIE IN MEMORY.**

  The tensors of a call are arrays with any strides, forward or backward, that
  start anywhere in their buffers.  A call reads each of them as a tensor, and
  writes running statistics where their elements lie.  Which tensor an array is
  read as does not matter:

      args reads s    →    call s  =  call args, what it leaves written in place

  So two calls whose tensors have the same shapes, devices and contents return the
  same, whatever their arrays are: bit for bit in training, in exact arithmetic
  where another kernel or another order of visit may be chosen.
-/
import Mathlib
import ChannelNorm.Proofs.BatchNorm.Layout
import ChannelNorm.Proofs.Tensor.Constant
import ChannelNorm.Proofs.Tensor.Representation

namespace ChannelNorm

variable {α A : Type}

/-! ## §1. Calls on stored tensors. -/

namespace StoredTensor

/-- The tensor a stored tensor is read as. -/
def reading (s : StoredTensor α) : Tensor α :=
  s.array.reading s.device

/-- The elements replaced where they lie. -/
def written (s : StoredTensor α) (values : List α) : StoredTensor α :=
  { s with array := s.array.overwrite values }

/-- What a call left of a tensor, written where the elements of the tensor lie. -/
def writtenBack : Option (StoredTensor α) → Option (Tensor α) → Option (StoredTensor α)
  | some s, some left => some (s.written left.toList)
  | kept, _ => kept

end StoredTensor

/-- A mean and a variance per channel, where present. -/
structure StoredStats (α : Type) where
  mean : Option (StoredTensor α)
  var : Option (StoredTensor α)

/-- Arguments of a forward call, the running statistics apart. -/
structure StoredForwardArgs (α A : Type) where
  input : StoredTensor α
  weight : Option (StoredTensor α)
  bias : Option (StoredTensor α)
  training : Bool
  momentum : A
  eps : A

/-- Arguments of a backward call. -/
structure StoredBackwardArgs (α A : Type) where
  gradOutput : StoredTensor α
  input : StoredTensor α
  weight : Option (StoredTensor α)
  running : StoredStats α
  saved : StoredStats α
  training : Bool
  eps : A
  mask : GradMask

def StoredStats.reading (r : StoredStats α) : ChannelStats α where
  mean := r.mean.map StoredTensor.reading
  var := r.var.map StoredTensor.reading

def StoredForwardArgs.reading (s : StoredForwardArgs α A) : ForwardArgs α A where
  input := s.input.reading
  weight := s.weight.map StoredTensor.reading
  bias := s.bias.map StoredTensor.reading
  training := s.training
  momentum := s.momentum
  eps := s.eps

def StoredBackwardArgs.reading (s : StoredBackwardArgs α A) : BackwardArgs α A where
  gradOutput := s.gradOutput.reading
  input := s.input.reading
  weight := s.weight.map StoredTensor.reading
  running := s.running.reading
  saved := s.saved.reading
  training := s.training
  eps := s.eps
  mask := s.mask

/-- The statistics with what a call left of them written in place. -/
def StoredStats.leaving (r : StoredStats α) (left : ChannelStats α) : StoredStats α where
  mean := StoredTensor.writtenBack r.mean left.mean
  var := StoredTensor.writtenBack r.var left.var

section
variable [OrderedArith A] [Element α A]

/-- Native batch normalization of tensors as they lie in memory, and the running
statistics it leaves there. -/
def storedBatchNorm (ex : Executor) (args : StoredForwardArgs α A) (running : StoredStats α) :
    Except TensorError (Forward α) × StoredStats α :=
  let run := nativeBatchNorm ex args.reading running.reading
  (run.result, running.leaving run.running)

/-- The update of running statistics as they lie in memory. -/
def storedUpdateStats (ex : Executor) (input : StoredTensor α) (running : StoredStats α)
    (momentum : A) : Except TensorError (Tensor α × Tensor α) × StoredStats α :=
  let (result, left) := batchNormUpdateStats ex input.reading running.reading momentum
  (result, running.leaving left)

/-- The gradients of native batch normalization. -/
def storedBatchNormBackward (ex : Executor) (args : StoredBackwardArgs α A) :
    Except TensorError (Gradients α) :=
  nativeBatchNormBackward ex args.reading

end

/-! ## §2. A call looks at nothing else. -/

/-- A tensor that reads an array, on the same device. -/
structure StoredTensor.ReadBy (s : StoredTensor α) (t : Tensor α) : Prop where
  reads : t.Reads s.array
  device : t.device = s.device

/-- Both missing, or both there and one read by the other. -/
def OptionReadBy (p : Option (StoredTensor α)) (q : Option (Tensor α)) : Prop :=
  Option.Rel StoredTensor.ReadBy p q

structure StoredStats.ReadBy (r : StoredStats α) (stats : ChannelStats α) : Prop where
  mean : OptionReadBy r.mean stats.mean
  var : OptionReadBy r.var stats.var

structure StoredForwardArgs.ReadBy (s : StoredForwardArgs α A) (args : ForwardArgs α A) :
    Prop where
  input : s.input.ReadBy args.input
  weight : OptionReadBy s.weight args.weight
  bias : OptionReadBy s.bias args.bias
  training : s.training = args.training
  momentum : s.momentum = args.momentum
  eps : s.eps = args.eps

structure StoredBackwardArgs.ReadBy (s : StoredBackwardArgs α A) (args : BackwardArgs α A) :
    Prop where
  gradOutput : s.gradOutput.ReadBy args.gradOutput
  input : s.input.ReadBy args.input
  weight : OptionReadBy s.weight args.weight
  running : s.running.ReadBy args.running
  saved : s.saved.ReadBy args.saved
  training : s.training = args.training
  eps : s.eps = args.eps
  mask : s.mask = args.mask

namespace StoredTensor

theorem readBy_reading (s : StoredTensor α) : s.ReadBy s.reading :=
  ⟨s.array.reads_reading s.device, rfl⟩

/-- A tensor reads its own array, so the calls here extend those on tensors. -/
theorem readBy_stored (t : Tensor α) : t.stored.ReadBy t :=
  ⟨t.reads_strided, rfl⟩

variable {s : StoredTensor α} {t u : Tensor α}

/-- Two tensors that read one array are alike. -/
theorem ReadBy.alike (ht : s.ReadBy t) (hu : s.ReadBy u) : t.Alike u :=
  ⟨ht.reads.dims.trans hu.reads.dims.symm, ht.device.trans hu.device.symm,
    ht.reads.contents.trans hu.reads.contents.symm⟩

theorem ReadBy.isContiguous_eq (ht : s.ReadBy t) (hu : s.ReadBy u) :
    t.isContiguous = u.isContiguous :=
  ht.reads.isContiguous.trans hu.reads.isContiguous.symm

end StoredTensor

namespace OptionReadBy

theorem reading (p : Option (StoredTensor α)) : OptionReadBy p (p.map StoredTensor.reading) := by
  cases p with
  | none => exact .none
  | some s => exact .some s.readBy_reading

variable {p : Option (StoredTensor α)} {q q' : Option (Tensor α)}

theorem alike (h : OptionReadBy p q) (h' : OptionReadBy p q') : OptionAlike q q' := by
  cases h with
  | none =>
      cases h'
      exact .none
  | some h =>
      cases h' with
      | some h' => exact .some (h.alike h')

/-- Whether it is contiguous, if it is there, does not depend on what reads it. -/
theorem isContiguous_eq (h : OptionReadBy p q) (h' : OptionReadBy p q') :
    q.all Tensor.isContiguous = q'.all Tensor.isContiguous
      ∧ q.any Tensor.isContiguous = q'.any Tensor.isContiguous := by
  cases h with
  | none =>
      cases h'
      exact ⟨rfl, rfl⟩
  | some h =>
      cases h' with
      | some h' => exact ⟨h.isContiguous_eq h', h.isContiguous_eq h'⟩

end OptionReadBy

section
variable {r : StoredStats α} {stats stats' : ChannelStats α}

theorem StoredStats.readBy_reading (r : StoredStats α) : r.ReadBy r.reading :=
  ⟨.reading _, .reading _⟩

theorem StoredStats.ReadBy.alike (h : r.ReadBy stats) (h' : r.ReadBy stats') :
    stats.Alike stats' :=
  ⟨h.mean.alike h'.mean, h.var.alike h'.var⟩

/-- Statistics are written back by their contents. -/
theorem StoredStats.leaving_congr (r : StoredStats α) (h : stats.Alike stats') :
    r.leaving stats = r.leaving stats' := by
  have hwritten : ∀ (p : Option (StoredTensor α)) {q q' : Option (Tensor α)}, OptionAlike q q' →
      StoredTensor.writtenBack p q = StoredTensor.writtenBack p q' := by
    intro p q q' hq
    cases p with
    | none => rfl
    | some s =>
        cases hq with
        | none => rfl
        | some hq => exact congrArg (fun values => some (s.written values)) hq.contents
  unfold StoredStats.leaving
  rw [hwritten r.mean h.mean, hwritten r.var h.var]

end

section
variable {s : StoredForwardArgs α A} {args args' : ForwardArgs α A} {r : StoredStats α}
  {running running' : ChannelStats α}

theorem StoredForwardArgs.readBy_reading (s : StoredForwardArgs α A) : s.ReadBy s.reading :=
  ⟨s.input.readBy_reading, .reading _, .reading _, rfl, rfl, rfl⟩

theorem StoredForwardArgs.ReadBy.alike (h : s.ReadBy args) (h' : s.ReadBy args') :
    args.Alike args' :=
  ⟨h.input.alike h'.input, h.weight.alike h'.weight, h.bias.alike h'.bias,
    h.training.symm.trans h'.training, h.momentum.symm.trans h'.momentum,
    h.eps.symm.trans h'.eps⟩

/-- The kernel of an evaluation does not depend on what reads its arrays. -/
theorem StoredForwardArgs.ReadBy.contiguousInference_eq (h : s.ReadBy args) (h' : s.ReadBy args')
    (hr : r.ReadBy running) (hr' : r.ReadBy running') :
    contiguousInference args running = contiguousInference args' running' := by
  unfold contiguousInference
  rw [h.training.symm.trans h'.training, h.input.isContiguous_eq h'.input,
    (h.weight.isContiguous_eq h'.weight).1, (h.bias.isContiguous_eq h'.bias).1,
    (hr.mean.isContiguous_eq hr'.mean).2, (hr.var.isContiguous_eq hr'.var).2]

end

theorem StoredBackwardArgs.readBy_reading (s : StoredBackwardArgs α A) : s.ReadBy s.reading :=
  ⟨s.gradOutput.readBy_reading, s.input.readBy_reading, .reading _, s.running.readBy_reading,
    s.saved.readBy_reading, rfl, rfl, rfl⟩

theorem StoredBackwardArgs.ReadBy.alike {s : StoredBackwardArgs α A} {args args' : BackwardArgs α A}
    (h : s.ReadBy args) (h' : s.ReadBy args') : args.Alike args' :=
  ⟨h.gradOutput.alike h'.gradOutput, h.input.alike h'.input, h.weight.alike h'.weight,
    h.running.alike h'.running, h.saved.alike h'.saved, h.training.symm.trans h'.training,
    h.eps.symm.trans h'.eps, h.mask.symm.trans h'.mask⟩

/-- The order of a visit is that of the arrays, whatever reads them. -/
theorem StoredBackwardArgs.ReadBy.visitOrder_eq {s : StoredBackwardArgs α A}
    {args : BackwardArgs α A} (h : s.ReadBy args) :
    args.visitOrder = signedOrder s.input.array.planeAxes s.gradOutput.array.planeAxes :=
  h.input.reads.jointOrder h.gradOutput.reads

section
variable [OrderedArith A] [Element α A]

/-- Moments are taken over the array itself, channel by channel in row-major
order. -/
theorem StoredTensor.ReadBy.momentsAt_eq {s : StoredTensor α} {t : Tensor α} (h : s.ReadBy t)
    (hrank : 2 ≤ t.rank) {c : Nat} (hc : c < t.channels) :
    (t.momentsAt c : ChannelMoments α A)
      = .ofValues (ofCount t.elementsPerChannel) (s.array.planeIn .rows c) := by
  unfold Tensor.momentsAt
  exact congrArg _ (h.reads.planeIn hrank .rows hc)

/-- The sums of a backward call are taken over both arrays themselves, in the order
of visit that their strides favour. -/
theorem StoredBackwardArgs.ReadBy.sumsAt_eq {s : StoredBackwardArgs α A} {args : BackwardArgs α A}
    (h : s.ReadBy args) (haccepted : args.Accepted) {c : Nat} (hc : c < args.input.channels) :
    let order := signedOrder s.input.array.planeAxes s.gradOutput.array.planeAxes
    args.sumsAt c = .ofPairs (args.meanAt c)
      ((s.input.array.planeIn order c).zip (s.gradOutput.array.planeIn order c)) := by
  intro order
  have hrank : 2 ≤ args.gradOutput.rank := Tensor.rank_congr haccepted.gradient ▸ haccepted.rank
  have hcg : c < args.gradOutput.channels := Tensor.channels_congr haccepted.gradient ▸ hc
  unfold BackwardArgs.sumsAt
  rw [h.visitOrder_eq, h.input.reads.planeIn haccepted.rank order hc,
    h.gradOutput.reads.planeIn hrank order hcg]

/-- **A forward call on arrays is the call on any tensors that read them.** -/
theorem storedBatchNorm_eq (ex : Executor) {s : StoredForwardArgs α A} {args : ForwardArgs α A}
    (h : s.ReadBy args) {r : StoredStats α} {running : ChannelStats α} (hr : r.ReadBy running) :
    storedBatchNorm ex s r
      = ((nativeBatchNorm ex args running).result,
          r.leaving (nativeBatchNorm ex args running).running) := by
  have hkernel := s.readBy_reading.contiguousInference_eq h r.readBy_reading hr
  obtain ⟨hresult, hleft⟩ := nativeBatchNorm_alike_of_kernel ex ex (s.readBy_reading.alike h)
    (r.readBy_reading.alike hr) hkernel
  exact Prod.ext hresult (r.leaving_congr hleft)

/-- So is an update. -/
theorem storedUpdateStats_eq (ex : Executor) {s : StoredTensor α} {input : Tensor α}
    (h : s.ReadBy input) {r : StoredStats α} {running : ChannelStats α} (hr : r.ReadBy running)
    (momentum : A) :
    storedUpdateStats ex s r momentum
      = ((batchNormUpdateStats ex input running momentum).1,
          r.leaving (batchNormUpdateStats ex input running momentum).2) := by
  obtain ⟨hresult, hleft⟩ := batchNormUpdateStats_alike ex ex (s.readBy_reading.alike h)
    (r.readBy_reading.alike hr) momentum
  exact Prod.ext hresult (r.leaving_congr hleft)

/-- And a backward call. -/
theorem storedBatchNormBackward_eq (ex : Executor) {s : StoredBackwardArgs α A}
    {args : BackwardArgs α A} (h : s.ReadBy args) :
    storedBatchNormBackward ex s = nativeBatchNormBackward ex args :=
  nativeBatchNormBackward_alike_of_order ex ex (s.readBy_reading.alike h)
    (s.readBy_reading.visitOrder_eq.trans h.visitOrder_eq.symm)

/-! ## §3. What a call leaves is read as what it left. -/

/-- Written over in place, with as many values as there are elements. -/
def InPlace (p left : Option (Tensor α)) : Prop :=
  ∃ f : Tensor α → List α, (∀ t ∈ p, (f t).length = t.numel)
    ∧ left = p.map fun t => t.overwrite (f t)

structure ChannelStats.InPlace (running left : ChannelStats α) : Prop where
  mean : ChannelNorm.InPlace running.mean left.mean
  var : ChannelNorm.InPlace running.var left.var

theorem InPlace.refl (p : Option (Tensor α)) : InPlace p p := by
  refine ⟨Tensor.toList, fun t _ => t.length_toList, ?_⟩
  have hsame : (fun t : Tensor α => t.overwrite t.toList) = id := funext Tensor.overwrite_toList
  rw [hsame, Option.map_id_fun, id]

theorem ChannelStats.InPlace.refl (running : ChannelStats α) : running.InPlace running :=
  ⟨.refl _, .refl _⟩

/-- A batch is folded in in place. -/
theorem ChannelStats.inPlace_afterBatch {running : ChannelStats α} {input : Tensor α}
    (hmean : OnePerChannel input.channels running.mean)
    (hvar : OnePerChannel input.channels running.var) (momentum : A) :
    running.InPlace (running.afterBatch input momentum) := by
  have hblend : ∀ {p : Option (Tensor α)} (blend : ChannelMoments α A → α → α),
      OnePerChannel input.channels p → ∀ t ∈ p,
        (List.zipWith blend (Vector.ofFn fun c : Fin input.channels => input.momentsAt c).toList
          t.toList).length = t.numel := by
    intro p blend hp t ht
    rw [List.length_zipWith, Vector.length_toList, t.length_toList, hp t ht, Nat.min_self]
  exact ⟨⟨_, hblend _ hmean, rfl⟩, ⟨_, hblend _ hvar, rfl⟩⟩

/-- A forward call writes running statistics in place, if at all. -/
theorem inPlace_nativeBatchNorm (ex : Executor) (args : ForwardArgs α A)
    (running : ChannelStats α) :
    running.InPlace (nativeBatchNorm ex args running).running := by
  cases hf : args.faults "native_batch_norm" running with
  | cons e more =>
      rw [nativeBatchNorm_refused ex (e := e) (congrArg List.head? hf)]
      exact .refl running
  | nil =>
      have h : args.Accepted running := ForwardArgs.faults_eq_nil.1 hf
      cases ht : args.training with
      | true =>
          rw [running_nativeBatchNorm_training ex h ht]
          exact ChannelStats.inPlace_afterBatch h.mean h.var _
      | false =>
          rw [(nativeBatchNorm_inferred ex h ht).2]
          exact .refl running

theorem inPlace_batchNormUpdateStats (ex : Executor) (input : Tensor α)
    (running : ChannelStats α) (momentum : A) :
    running.InPlace (batchNormUpdateStats ex input running momentum).2 := by
  cases hf : updateFaults input running with
  | cons e more =>
      rw [batchNormUpdateStats_refused ex momentum (e := e) (congrArg List.head? hf)]
      exact .refl running
  | nil =>
      obtain ⟨_, hmean, hvar⟩ := updateFaults_eq_nil.1 hf
      rw [batchNormUpdateStats_ok ex momentum hf]
      exact ChannelStats.inPlace_afterBatch hmean hvar momentum

end

/-- Written back, what was written in place is read by what was left. -/
theorem OptionReadBy.writtenBack {p : Option (StoredTensor α)} {q left : Option (Tensor α)}
    (h : OptionReadBy p q) (hleft : InPlace q left) :
    OptionReadBy (StoredTensor.writtenBack p left) left := by
  obtain ⟨f, hlen, rfl⟩ := hleft
  cases h with
  | none => exact .none
  | @some s t h =>
      have hlen : (f t).length = t.numel := hlen t rfl
      have hread := h.reads.overwrite hlen
      refine .some ⟨?_, h.device⟩
      show (t.overwrite (f t)).Reads (s.array.overwrite (t.overwrite (f t)).toList)
      rwa [Tensor.toList_overwrite hlen]

theorem StoredStats.ReadBy.leaving {r : StoredStats α} {running left : ChannelStats α}
    (h : r.ReadBy running) (hleft : running.InPlace left) : (r.leaving left).ReadBy left :=
  ⟨h.mean.writtenBack hleft.mean, h.var.writtenBack hleft.var⟩

/-! ## §4. Alike tensors in memory. -/

/-- Tensors whose shapes are those of their arrays, of one shape, one device and
one list of contents. -/
structure StoredTensor.Alike (s s' : StoredTensor α) : Prop where
  coherent : s.Coherent
  coherent' : s'.Coherent
  shape : s.shape = s'.shape
  device : s.device = s'.device
  contents : s.toVec = s'.toVec

/-- Both missing, or both there and alike. -/
def OptionStoredAlike (p q : Option (StoredTensor α)) : Prop :=
  Option.Rel StoredTensor.Alike p q

structure StoredStats.Alike (r r' : StoredStats α) : Prop where
  mean : OptionStoredAlike r.mean r'.mean
  var : OptionStoredAlike r.var r'.var

structure StoredForwardArgs.Alike (s s' : StoredForwardArgs α A) : Prop where
  input : s.input.Alike s'.input
  weight : OptionStoredAlike s.weight s'.weight
  bias : OptionStoredAlike s.bias s'.bias
  training : s.training = s'.training
  momentum : s.momentum = s'.momentum
  eps : s.eps = s'.eps

structure StoredBackwardArgs.Alike (s s' : StoredBackwardArgs α A) : Prop where
  gradOutput : s.gradOutput.Alike s'.gradOutput
  input : s.input.Alike s'.input
  weight : OptionStoredAlike s.weight s'.weight
  running : s.running.Alike s'.running
  saved : s.saved.Alike s'.saved
  training : s.training = s'.training
  eps : s.eps = s'.eps
  mask : s.mask = s'.mask

/-- Alike tensors in memory are read as alike tensors. -/
theorem StoredTensor.Alike.reading {s s' : StoredTensor α} (h : s.Alike s') :
    s.reading.Alike s'.reading := by
  have hdims : s.array.dims = s'.array.dims := by
    rw [← h.coherent, ← h.coherent', h.shape]
  have hread := s.array.reads_reading s.device
  have hread' := s'.array.reads_reading s'.device
  exact ⟨hread.dims.trans (hdims.trans hread'.dims.symm), h.device,
    hread.contents.trans (h.contents.trans hread'.contents.symm)⟩

theorem OptionStoredAlike.reading {p q : Option (StoredTensor α)} (h : OptionStoredAlike p q) :
    OptionAlike (p.map StoredTensor.reading) (q.map StoredTensor.reading) := by
  cases h with
  | none => exact .none
  | some h => exact .some h.reading

theorem StoredStats.Alike.reading {r r' : StoredStats α} (h : r.Alike r') :
    r.reading.Alike r'.reading :=
  ⟨h.mean.reading, h.var.reading⟩

theorem StoredForwardArgs.Alike.reading {s s' : StoredForwardArgs α A} (h : s.Alike s') :
    s.reading.Alike s'.reading :=
  ⟨h.input.reading, h.weight.reading, h.bias.reading, h.training, h.momentum, h.eps⟩

theorem StoredBackwardArgs.Alike.reading {s s' : StoredBackwardArgs α A} (h : s.Alike s') :
    s.reading.Alike s'.reading :=
  ⟨h.gradOutput.reading, h.input.reading, h.weight.reading, h.running.reading, h.saved.reading,
    h.training, h.eps, h.mask⟩

/-- Values that are the same, written where the elements of either lie. -/
theorem OptionStoredAlike.writtenBack {p p' : Option (StoredTensor α)}
    {left left' : Option (Tensor α)} (h : OptionStoredAlike p p')
    (hread : OptionReadBy (StoredTensor.writtenBack p left) left)
    (hread' : OptionReadBy (StoredTensor.writtenBack p' left') left')
    (hleft : OptionAlike left left') :
    OptionStoredAlike (StoredTensor.writtenBack p left) (StoredTensor.writtenBack p' left') := by
  cases h with
  | none => exact .none
  | some h =>
      cases hleft with
      | none => exact .some h
      | some hleft =>
          -- what was written is read back by what was left
          cases hread with
          | some hread =>
              cases hread' with
              | some hread' =>
                  exact .some ⟨h.coherent, h.coherent', h.shape, h.device,
                    hread.reads.contents.symm.trans
                      (hleft.contents.trans hread'.reads.contents)⟩

theorem StoredStats.Alike.leaving {r r' : StoredStats α} (h : r.Alike r')
    {left left' : ChannelStats α} (hin : r.reading.InPlace left) (hin' : r'.reading.InPlace left')
    (hleft : left.Alike left') : (r.leaving left).Alike (r'.leaving left') := by
  have hread := r.readBy_reading.leaving hin
  have hread' := r'.readBy_reading.leaving hin'
  exact ⟨h.mean.writtenBack hread.mean hread'.mean hleft.mean,
    h.var.writtenBack hread.var hread'.var hleft.var⟩

/-! ## §5. Every call. -/

variable [OrderedArith A] [Element α A]

/-- Forward calls that are alike where they lie are alike as they are read. -/
theorem storedBatchNorm_alike (ex ex' : Executor) {s s' : StoredForwardArgs α A}
    {r r' : StoredStats α} (hr : r.Alike r')
    (hcall : (nativeBatchNorm ex s.reading r.reading).result
          = (nativeBatchNorm ex' s'.reading r'.reading).result
        ∧ (nativeBatchNorm ex s.reading r.reading).running.Alike
          (nativeBatchNorm ex' s'.reading r'.reading).running) :
    (storedBatchNorm ex s r).1 = (storedBatchNorm ex' s' r').1
      ∧ (storedBatchNorm ex s r).2.Alike (storedBatchNorm ex' s' r').2 :=
  ⟨hcall.1, hr.leaving (inPlace_nativeBatchNorm ex _ _) (inPlace_nativeBatchNorm ex' _ _) hcall.2⟩

/-- **Results do not depend on the memory layout.**  The tensors of a call may be
any arrays, with forward or backward strides, that start anywhere.  Calls whose
tensors have pairwise equal shapes, devices and contents return the same, errors
included, and leave running statistics of equal contents where these lie:
training calls and updates whatever the arithmetic, evaluations in exact
arithmetic, and backward calls where sums may be taken in any order. -/
theorem results_independent_of_layout :
    (∀ (ex ex' : Executor) (args args' : StoredForwardArgs α A) (running running' : StoredStats α),
      args.Alike args' → running.Alike running' → args.training = true →
        (storedBatchNorm ex args running).1 = (storedBatchNorm ex' args' running').1
          ∧ (storedBatchNorm ex args running).2.Alike (storedBatchNorm ex' args' running').2)
    ∧ (∀ (ex ex' : Executor) (input input' : StoredTensor α) (running running' : StoredStats α)
        (momentum : A),
      input.Alike input' → running.Alike running' →
        (storedUpdateStats ex input running momentum).1
            = (storedUpdateStats ex' input' running' momentum).1
          ∧ (storedUpdateStats ex input running momentum).2.Alike
              (storedUpdateStats ex' input' running' momentum).2)
    ∧ (LawfulArith α →
      ∀ (ex ex' : Executor) (args args' : StoredForwardArgs α A) (running running' : StoredStats α),
      args.Alike args' → running.Alike running' → args.training = false →
        (storedBatchNorm ex args running).1 = (storedBatchNorm ex' args' running').1
          ∧ (storedBatchNorm ex args running).2.Alike (storedBatchNorm ex' args' running').2)
    ∧ ((Std.Associative fun a b : A => a + b) → (Std.Commutative fun a b : A => a + b) →
      ∀ (ex ex' : Executor) (args args' : StoredBackwardArgs α A),
      args.Alike args' →
        storedBatchNormBackward ex args = storedBatchNormBackward ex' args') := by
  refine ⟨?_, ?_, ?_, ?_⟩
  · intro ex ex' args args' running running' h hr ht
    exact storedBatchNorm_alike ex ex' hr <|
      nativeBatchNorm_alike ex ex' h.reading hr.reading fun haccepted =>
        nativeBatchNorm_training_alike ex ex' h.reading hr.reading haccepted ht
  · intro ex ex' input input' running running' momentum h hr
    obtain ⟨hresult, hleft⟩ := batchNormUpdateStats_alike ex ex' h.reading hr.reading momentum
    exact ⟨hresult, hr.leaving (inPlace_batchNormUpdateStats ex _ _ _)
      (inPlace_batchNormUpdateStats ex' _ _ _) hleft⟩
  · intro _ ex ex' args args' running running' h hr ht
    exact storedBatchNorm_alike ex ex' hr <|
      nativeBatchNorm_alike ex ex' h.reading hr.reading fun haccepted =>
        nativeBatchNorm_evaluation_alike ex ex' h.reading hr.reading haccepted ht
  · intro _ _ ex ex' args args' h
    exact nativeBatchNormBackward_alike ex ex' h.reading

/-- Two rows of two, both axes running backward through the buffer. -/
noncomputable def reversedRows (x y z w : ℝ) : StoredTensor ℝ where
  array :=
    { axes := [⟨2, -2⟩, ⟨2, -1⟩]
      start := 3
      buffer := #[w, z, y, x]
      bound := by
        show ∀ i ∈ indicesOf [2, 2], 0 ≤ ((3 : Nat) : Int) + displacementOf [⟨2, -2⟩, ⟨2, -1⟩] i
          ∧ ((3 : Nat) : Int) + displacementOf [⟨2, -2⟩, ⟨2, -1⟩] i < (4 : Nat)
        decide
      apart := by decide
      addressable := by decide }
  shape := ⟨[2, 2]⟩
  device := .cpu

/-- Two values, the last one first in the buffer. -/
noncomputable def reversedPair (x y : ℝ) : StoredTensor ℝ where
  array :=
    { axes := [⟨2, -1⟩]
      start := 1
      buffer := #[y, x]
      bound := by
        show ∀ i ∈ indicesOf [2], 0 ≤ ((1 : Nat) : Int) + displacementOf [⟨2, -1⟩] i
          ∧ ((1 : Nat) : Int) + displacementOf [⟨2, -1⟩] i < (2 : Nat)
        decide
      apart := by decide
      addressable := by decide }
  shape := ⟨[2]⟩
  device := .cpu

/-- A forward call on the sample, laid out as given. -/
noncomputable def storedCall (training : Bool) (input : StoredTensor ℝ)
    (weight : StoredTensor ℝ) : StoredForwardArgs ℝ ℝ where
  input := input
  weight := some weight
  bias := none
  training := training
  momentum := 0
  eps := 1

/-- A backward call on the sample in evaluation mode, laid out as given. -/
noncomputable def storedBackwardCall (input : StoredTensor ℝ) (running : StoredStats ℝ) :
    StoredBackwardArgs ℝ ℝ where
  gradOutput := input
  input := input
  weight := none
  running := running
  saved := ⟨none, none⟩
  training := false
  eps := 1
  mask := .all

theorem results_independent_of_layout_reversed :
    let batch : StoredTensor ℝ := sampleBatch.stored
    let batch' : StoredTensor ℝ := reversedRows 1 2 3 4
    let stats : StoredStats ℝ := ⟨some (samplePair 0 1).stored, some (samplePair 3 8).stored⟩
    let stats' : StoredStats ℝ := ⟨some (reversedPair 0 1), some (reversedPair 3 8)⟩
    let ex : Executor := ⟨.standard, 4⟩
    batch.isContiguous = true ∧ batch'.isContiguous = false
      ∧ batch.Alike batch' ∧ stats.Alike stats'
      ∧ (∀ training,
          let call := storedBatchNorm ex (storedCall training batch (samplePair 2 3).stored) stats
          let call' := storedBatchNorm ex (storedCall training batch' (reversedPair 2 3)) stats'
          call.1 = call'.1 ∧ call.2.Alike call'.2)
      ∧ (storedUpdateStats ex batch stats (1 : ℝ)).1
          = (storedUpdateStats ex batch' stats' (1 : ℝ)).1
      ∧ storedBatchNormBackward ex (storedBackwardCall batch stats)
          = storedBatchNormBackward ex (storedBackwardCall batch' stats') := by
  intro batch batch' stats stats' ex
  have hbatch : batch.Alike batch' := ⟨rfl, rfl, rfl, rfl, rfl⟩
  have hpair : ∀ x y, (samplePair x y).stored.Alike (reversedPair x y) := fun _ _ =>
    ⟨rfl, rfl, rfl, rfl, rfl⟩
  have hstats : stats.Alike stats' := ⟨.some (hpair 0 1), .some (hpair 3 8)⟩
  have hcall : ∀ training, (storedCall training batch (samplePair 2 3).stored).Alike
      (storedCall training batch' (reversedPair 2 3)) :=
    fun _ => ⟨hbatch, .some (hpair 2 3), .none, rfl, rfl, rfl⟩
  obtain ⟨htraining, hupdate, hevaluation, hbackward⟩ := @results_independent_of_layout ℝ ℝ _ _
  refine ⟨rfl, rfl, hbatch, hstats, ?_, ?_, ?_⟩
  · intro training
    cases training with
    | true => exact htraining _ _ _ _ _ _ (hcall true) hstats rfl
    | false => exact hevaluation inferInstance _ _ _ _ _ _ (hcall false) hstats rfl
  · exact (hupdate _ _ _ _ _ _ _ hbatch hstats).1
  · exact hbackward ⟨add_assoc⟩ ⟨add_comm⟩ _ _ _ _
      ⟨hbatch, hbatch, .none, hstats, ⟨.none, .none⟩, rfl, rfl, rfl⟩

end ChannelNorm

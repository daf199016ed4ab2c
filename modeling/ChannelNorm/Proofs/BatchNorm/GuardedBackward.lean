/-
  ChannelNorm.Proofs.BatchNorm.GuardedBackward
  ────────────────────────────────────────────
  **THE BACKWARD, STEP BY STEP.**

  The backward once more, as a sequence of steps that may not go through.  Each
  channel is sliced out of the input and out of the incoming gradient, and four
  vectors are read at its index before the input gradient is written in place:

      mean   invstd   weight   sums        one value per channel each

  A slice halts where there is no such channel, a vector where its index is out
  of range, and an elementwise loop where its operands are not of one shape.  The
  guarded form takes nothing from the checks but that they passed, and agrees
  with the plain one on all arguments.
-/
import ChannelNorm.Proofs.BatchNorm.Answer
import ChannelNorm.Proofs.Tensor.Reshape
import ChannelNorm.Scalar.Binary

namespace ChannelNorm

/-- A halt as another operation reports it. -/
def Halt.named (operation : String) : Halt → Halt
  | .refused e => .refused { e with operation }
  | .panicked => .panicked

/-- An accepted call has the channels of its input in the incoming gradient. -/
theorem BackwardArgs.Accepted.hasChannel {α A : Type} {args : BackwardArgs α A}
    (h : args.Accepted) {c : Nat} (hc : c < args.input.channels) :
    2 ≤ args.gradOutput.rank ∧ c < args.gradOutput.channels :=
  ⟨Tensor.rank_congr h.gradient ▸ h.rank, Tensor.channels_congr h.gradient ▸ hc⟩

namespace Guarded

variable {α A β : Type}

/-! ## §1. Steps. -/

/-- A step that is skipped unless it is asked for. -/
def whenAsked (asked : Bool) (step : Guarded β) : Guarded (Option β) :=
  if asked then some <$> step else pure none

/-- A channel in the order of a visit, of a tensor that must have it. -/
def sliceIn (order : VisitOrder) (t : Tensor α) (c : Nat) : Guarded (List α) := do
  require (2 ≤ t.rank ∧ c < t.channels)
  return t.planeIn order c

/-- Slices that an elementwise loop takes together must be of one shape. -/
def alikeSlices (t u : Tensor α) : Guarded Unit :=
  require (t.dims.eraseIdx 1 = u.dims.eraseIdx 1)

/-- A vector of one value per channel, on the device of the input. -/
def perChannel (input : Tensor α) (channels : Nat) (values : List α) : Guarded (Tensor α) := do
  let t ← ofExcept (Tensor.ofList values [channels])
  return t.toDevice input.device

theorem whenAsked_pure (asked : Bool) (x : β) :
    whenAsked asked (pure x) = pure ((some x).filter fun _ => asked) := by
  cases asked <;> rfl

theorem sliceIn_ok {order : VisitOrder} {t : Tensor α} {c : Nat} (hrank : 2 ≤ t.rank)
    (hc : c < t.channels) : sliceIn order t c = pure (t.planeIn order c) := by
  unfold sliceIn
  rw [require_ok ⟨hrank, hc⟩, pure_bind]

theorem alikeSlices_ok {t u : Tensor α} (h : t.dims = u.dims) : alikeSlices t u = pure () :=
  require_ok (congrArg (List.eraseIdx · 1) h)

theorem perChannel_ok (input : Tensor α) (f : Nat → α) :
    perChannel input input.channels (List.ofFn fun c : Fin input.channels => f c)
      = pure (input.perChannel (.ofFn fun c => f c)) := by
  obtain ⟨t, ht, hdevice⟩ := ofList_perChannel input (.ofFn fun c => f c)
  rw [Vector.toList_ofFn] at ht
  unfold perChannel
  rw [ofExcept_ok ht, pure_bind, hdevice]

/-- An entry of a vector with one value per channel. -/
theorem entry_ofFn {n c : Nat} (f : Nat → β) (hc : c < n) :
    entry (List.ofFn fun c : Fin n => f c) c = pure (f c) := by
  apply entry_ok
  rw [List.getElem?_ofFn, dif_pos hc]

/-! ## §2. The guarded form. -/

variable [OrderedArith A] [Element α A]

/-- The sums of every channel. -/
def gradSums (ex : Executor) (input gradOutput : Tensor α) (channels : Nat) (mean : List α) :
    Guarded (List (GradSums A)) :=
  let order := jointOrder input.planeAxes gradOutput.planeAxes
  (ex.tasks channels input.numel).flatten.mapM fun (c : Fin channels) => do
    let plane ← sliceIn order input c
    let gradPlane ← sliceIn order gradOutput c
    let m ← entry mean c
    alikeSlices input gradOutput
    return .ofPairs m (plane.zip gradPlane)

/-- The input gradient, slice by slice. -/
def inputGrad (ex : Executor) (args : BackwardArgs α A) (channels : Nat) (n : A)
    (mean invstd weight : List α) (sums : List (GradSums A)) : Guarded (Tensor α) := do
  let gradInput : Tensor α := args.input.zerosLike
  require (2 ≤ gradInput.rank)
  (ex.tasks channels gradInput.numel).flatten.foldlM
    (fun (out : Tensor α) (c : Fin channels) => do
      let plane ← slice args.input c
      let gradPlane ← slice args.gradOutput c
      let m ← entry mean c
      let s ← entry invstd c
      let w ← entry weight c
      let sum ← entry sums c
      if args.training then
        alikeSlices out args.input
        alikeSlices args.input args.gradOutput
        return out.modifyPlane c fun _ =>
          List.zipWith (trainingGrad n sum m s w) plane gradPlane
      else
        alikeSlices out args.gradOutput
        return out.modifyPlane c fun _ => gradPlane.map (evaluationGrad s w)) gradInput

/-- The gradients, in the order in which they are computed. -/
def backwardKernel (ex : Executor) (args : BackwardArgs α A) : Guarded (Gradients α) := do
  let channels ← entry args.input.dims 1
  let n : A := ofCount (← elementsPerChannel args.input)
  let (mean, invstd) ← (resolveStats args.training args.saved args.running args.eps).mapError
    (.named "batch_norm_backward")
  let values := valuesOr 1 channels args.weight
  let sums ← gradSums ex args.input args.gradOutput channels mean
  let weight ← whenAsked args.mask.weight
    (perChannel args.input channels
      ((sums.zip invstd).map fun (s, i) => narrow (s.dot * widen i)))
  let bias ← whenAsked args.mask.bias
    (perChannel args.input channels (sums.map fun s => narrow s.sum))
  let input ← whenAsked args.mask.input
    (inputGrad ex args channels n mean invstd values sums)
  return { input, weight, bias }

/-- Gradients of native batch normalization. -/
def nativeBatchNormBackward (ex : Executor) (args : BackwardArgs α A) :
    Guarded (Gradients α) := do
  let _ ← ofExcept (checkBackward "native_batch_norm_backward" args)
  backwardKernel ex args

/-! ## §3. Every step goes through. -/

section
variable (ex : Executor) {args : BackwardArgs α A} {mean invstd : List α} (h : args.Accepted)
  (hmean : ∀ c < args.input.channels, mean[c]? = some (args.meanAt c))
  (hinvstd : ∀ c < args.input.channels, invstd[c]? = some (args.invstdAt c))

include h in
/-- The statistics that the mode reads hold one value per channel. -/
theorem resolveStats_ok :
    ∃ mean invstd, resolveStats args.training args.saved args.running args.eps
        = pure (mean, invstd)
      ∧ (∀ c < args.input.channels, mean[c]? = some (args.meanAt c))
      ∧ ∀ c < args.input.channels, invstd[c]? = some (args.invstdAt c) := by
  obtain ⟨mean, hmean⟩ := Option.isSome_iff_exists.1 h.hasMean
  obtain ⟨spread, hspread⟩ := Option.isSome_iff_exists.1 h.hasVar
  have hread : ∀ {p : Option (Tensor α)} {t : Tensor α}, p = some t →
      OnePerChannel args.input.channels p →
      ∀ c < args.input.channels, t.toList[c]? = some (paramAt p 0 c) := by
    rintro _ t rfl hsize c hc
    exact t.getElem?_toList_eq_elem ((hsize t rfl).symm ▸ hc)
  have hspreads := hread hspread h.var
  unfold resolveStats BackwardArgs.invstdAt
  cases ht : args.training with
  | true =>
      have hstatistics : args.statistics = args.saved := if_pos ht
      refine ⟨mean.toList, spread.toList, ?_, hread hmean h.mean, hspreads⟩
      rw [if_pos rfl, ← hstatistics, hmean, hspread]
  | false =>
      have hstatistics : args.statistics = args.running := if_neg (by rw [ht]; nofun)
      refine ⟨mean.toList, spread.toList.map (runningInverseStd · args.eps), ?_,
        hread hmean h.mean, fun c hc => ?_⟩
      · rw [if_neg Bool.false_ne_true, ← hstatistics, hmean, hspread]
      · rw [List.getElem?_map, hspreads c hc]
        rfl

include h hmean in
/-- The sums of every channel. -/
theorem gradSums_ok :
    gradSums ex args.input args.gradOutput args.input.channels mean
      = pure (List.ofFn fun c : Fin args.input.channels => args.sumsAt c) := by
  unfold gradSums
  dsimp only
  rw [Executor.flatten_tasks, List.ofFn_eq_map]
  apply mapM_ok
  intro c _
  obtain ⟨hgrank, hgc⟩ := h.hasChannel c.isLt
  rw [sliceIn_ok h.rank c.isLt, pure_bind, sliceIn_ok hgrank hgc, pure_bind,
    entry_ok (hmean c c.isLt), pure_bind, alikeSlices_ok h.gradient.symm, pure_bind]
  rfl

include hinvstd in
/-- The values of the weight gradient. -/
theorem weightGrads_eq :
    ((List.ofFn fun c : Fin args.input.channels => args.sumsAt c).zip invstd).map
        (fun (s, i) => (narrow (s.dot * widen i) : α))
      = List.ofFn fun c : Fin args.input.channels => args.weightGradAt c := by
  have hlong : args.input.channels ≤ invstd.length := by
    by_contra hshort
    have hnone := List.getElem?_eq_none (Nat.le_refl invstd.length)
    rw [hinvstd _ (Nat.lt_of_not_le hshort)] at hnone
    cases hnone
  apply List.ext_getElem
  · rw [List.length_map, List.length_zip, List.length_ofFn, List.length_ofFn,
      Nat.min_eq_left hlong]
  · intro c hc _
    rw [List.length_map, List.length_zip, List.length_ofFn, Nat.min_eq_left hlong] at hc
    have hentry : invstd[c] = args.invstdAt c :=
      Option.some.inj ((List.getElem?_eq_getElem _).symm.trans (hinvstd c hc))
    rw [List.getElem_map, List.getElem_zip, List.getElem_ofFn, List.getElem_ofFn, hentry]
    rfl

include h hmean hinvstd in
/-- The input gradient, slice by slice, is that of the plain kernel. -/
theorem inputGrad_ok :
    inputGrad ex args args.input.channels (ofCount args.input.elementsPerChannel) mean invstd
        (valuesOr 1 args.input.channels args.weight)
        (List.ofFn fun c : Fin args.input.channels => args.sumsAt c)
      = pure (args.input.withContents
          ((List.range args.input.numel).map args.inputGradAt) (by simp)) := by
  have hdims : (args.input.zerosLike : Tensor α).dims = args.input.dims :=
    args.input.dims_zerosLike
  have hrank : 2 ≤ (args.input.zerosLike : Tensor α).rank := Tensor.rank_congr hdims ▸ h.rank
  -- the same values as vectors
  let vector (f : Nat → α) : Vector α args.input.channels := .ofFn fun c => f c
  have hvector : ∀ (f : Nat → α), ∀ c < args.input.channels, channelValue (vector f) c = f c :=
    fun f c hc => (channelValue_eq_getElem _ hc).trans (Vector.getElem_ofFn hc)
  -- and the same tasks as a schedule
  let s := ex.schedule args.input.channels (args.input.zerosLike : Tensor α).numel
  rw [← s.inputGrad_eq h.rank h.gradient (hvector args.meanAt) (hvector args.invstdAt)
    (hvector (paramAt args.weight 1))]
  unfold inputGrad
  dsimp only
  rw [require_ok hrank, pure_bind]
  apply foldlM_ok (fun out => out.dims = args.input.dims) _ hdims
  intro out hout c _
  obtain ⟨hgrank, hgc⟩ := h.hasChannel c.isLt
  refine ⟨?_, hout⟩
  have hsums : (Vector.ofFn fun c : Fin args.input.channels => args.sumsAt c).get c
      = args.sumsAt c := Vector.getElem_ofFn c.isLt
  simp only [slice_ok h.rank c.isLt, slice_ok hgrank hgc, entry_ok (hmean c c.isLt),
    entry_ok (hinvstd c c.isLt), entry_valuesOr 1 h.weight c.isLt, entry_ofFn args.sumsAt c.isLt,
    alikeSlices_ok hout, alikeSlices_ok h.gradient.symm,
    alikeSlices_ok (hout.trans h.gradient.symm), pure_bind, get_eq_channelValue,
    hvector _ c c.isLt]
  rw [hsums]
  split <;> rfl

include h in
/-- The kernel goes through, with the gradients the mask asks for. -/
theorem backwardKernel_ok : backwardKernel ex args = pure (args.gradients.masked args.mask) := by
  obtain ⟨mean, invstd, hstats, hmean, hinvstd⟩ := resolveStats_ok h
  have hbias : (List.ofFn fun c : Fin args.input.channels => args.sumsAt c).map
        (fun s => (narrow s.sum : α))
      = List.ofFn fun c : Fin args.input.channels => args.biasGradAt c := List.map_ofFn
  unfold backwardKernel
  rw [entry_dims_one h.rank, pure_bind, elementsPerChannel_ok h.rank, pure_bind, hstats]
  show (do
    let sums ← gradSums ex args.input args.gradOutput args.input.channels mean
    _) = _
  rw [gradSums_ok ex h hmean, pure_bind, weightGrads_eq hinvstd, perChannel_ok, whenAsked_pure,
    pure_bind, hbias, perChannel_ok, whenAsked_pure, pure_bind, inputGrad_ok ex h hmean hinvstd,
    whenAsked_pure, pure_bind]
  rfl

end

/-- **The backward goes through exactly when its checks do**, with the result of
the plain form. -/
theorem nativeBatchNormBackward_eq_ofExcept (ex : Executor) (args : BackwardArgs α A) :
    nativeBatchNormBackward ex args
      = ofExcept (ChannelNorm.nativeBatchNormBackward ex args) := by
  unfold nativeBatchNormBackward
  cases hcheck : checkBackward "native_batch_norm_backward" args with
  | error e =>
      rw [nativeBatchNormBackward_of_error ex hcheck]
      rfl
  | ok params =>
      have h : args.Accepted := accepted_of_checkBackward hcheck
      rw [nativeBatchNormBackward_ok ex h, ofExcept_ok rfl, pure_bind, backwardKernel_ok ex h]
      rfl

end Guarded

/-! ## §4. Every call. -/

section
variable {α A : Type}

/-- Why a backward call is refused. -/
theorem BackwardArgs.not_accepted_iff {args : BackwardArgs α A} :
    ¬ args.Accepted
      ↔ args.input.rank < 2 ∨ args.gradOutput.dims ≠ args.input.dims
        ∨ ¬ OnePerChannel args.input.channels args.weight
        ∨ ¬ Supplied args.input.channels args.statistics.mean
        ∨ ¬ Supplied args.input.channels args.statistics.var := by
  have haccepted : args.Accepted
      ↔ 2 ≤ args.input.rank ∧ args.gradOutput.dims = args.input.dims
        ∧ OnePerChannel args.input.channels args.weight
        ∧ Supplied args.input.channels args.statistics.mean
        ∧ Supplied args.input.channels args.statistics.var :=
    ⟨fun h => ⟨h.rank, h.gradient, h.weight, h.mean.supplied h.hasMean, h.var.supplied h.hasVar⟩,
      fun ⟨hr, hg, hw, hm, hv⟩ => BackwardArgs.Awaits.accepted ⟨hr, hw, hm, hv⟩ hg⟩
  rw [haccepted, not_and_or, not_and_or, not_and_or, not_and_or, Nat.not_le]

/-- The call with other statistics in the place of those its mode does not read. -/
def BackwardArgs.withUnread (args : BackwardArgs α A) (other : ChannelStats α) :
    BackwardArgs α A :=
  if args.training then { args with running := other } else { args with saved := other }

/-- Every gradient that is there is on a device. -/
structure Gradients.OnDevice (g : Gradients α) (device : Device) : Prop where
  input : ∀ t, g.input = some t → t.device = device
  weight : ∀ t, g.weight = some t → t.device = device
  bias : ∀ t, g.bias = some t → t.device = device

theorem Gradients.OnDevice.masked {g : Gradients α} {device : Device} (h : g.OnDevice device)
    (mask : GradMask) : (g.masked mask).OnDevice device := by
  refine ⟨fun t ht => h.input t ?_, fun t ht => h.weight t ?_, fun t ht => h.bias t ?_⟩
  all_goals exact (Option.filter_eq_some_iff.1 ht).1

end

section
variable {α A : Type} [OrderedArith A] [Element α A]

theorem BackwardArgs.onDevice_gradients (args : BackwardArgs α A) :
    args.gradients.OnDevice args.input.device := by
  refine ⟨?_, ?_, ?_⟩
  all_goals
    rintro _ ⟨⟩
    rfl

/-- A backward call is refused with its first fault, or accepted, and then
returns. -/
theorem nativeBatchNormBackward_outcome (ex : Executor) (args : BackwardArgs α A) :
    (∃ e, (args.faults "native_batch_norm_backward").head? = some e
        ∧ ¬ args.Accepted ∧ nativeBatchNormBackward ex args = .error e)
      ∨ args.Accepted
        ∧ nativeBatchNormBackward ex args = .ok (args.gradients.masked args.mask) := by
  cases hfaults : args.faults "native_batch_norm_backward" with
  | cons e more =>
      refine .inl ⟨e, rfl, ?_, ?_⟩
      · rw [← @BackwardArgs.faults_eq_nil α A args "native_batch_norm_backward", hfaults]
        exact List.cons_ne_nil e more
      · have hcheck : checkBackward "native_batch_norm_backward" args = .error e :=
          (checkBackward_reports _ args e).2 (by rw [hfaults]; rfl)
        exact nativeBatchNormBackward_of_error ex hcheck
  | nil =>
      have h : args.Accepted := BackwardArgs.faults_eq_nil.1 hfaults
      exact .inr ⟨h, nativeBatchNormBackward_ok ex h⟩

/-- The statistics of the other mode are not read. -/
theorem nativeBatchNormBackward_withUnread (ex : Executor) (args : BackwardArgs α A)
    (other : ChannelStats α) :
    nativeBatchNormBackward ex (args.withUnread other) = nativeBatchNormBackward ex args := by
  obtain ⟨gradOutput, input, weight, running, saved, training, eps, mask⟩ := args
  cases training <;> rfl

/-- **A backward call is refused at its checks or returns.**

Its guarded form, which may halt at any index, slice, elementwise loop or
constructor, halts with the first fault of the call or returns what the plain
form returns: the gradients asked for and no others, of the shapes of input and
channels, on the device of the input.  The statistics of the other mode are
nowhere looked at.  Memory is taken to be there, as for the forward. -/
theorem backward_calls_outcome (ex : Executor) (args : BackwardArgs α A) :
    let call := nativeBatchNormBackward ex args
    let guarded := Guarded.nativeBatchNormBackward ex args
    let channels := args.input.channels
    ((∃ e, call = .error e)
      ↔ args.input.rank < 2 ∨ args.gradOutput.dims ≠ args.input.dims
        ∨ ¬ OnePerChannel channels args.weight
        ∨ ¬ Supplied channels args.statistics.mean ∨ ¬ Supplied channels args.statistics.var)
    ∧ (∀ e, call = .error e →
        (args.faults "native_batch_norm_backward").head? = some e
          ∧ e.operation = "native_batch_norm_backward"
          ∧ e.IsArgumentFault args.input.rank true ∧ guarded = .error (.refused e))
    ∧ (∀ g, call = .ok g →
        guarded = .ok g ∧ g.HasShapes args.mask args.input.dims [channels]
          ∧ g.OnDevice args.input.device)
    ∧ ∀ other, nativeBatchNormBackward ex (args.withUnread other) = call
        ∧ Guarded.nativeBatchNormBackward ex (args.withUnread other) = guarded := by
  dsimp only
  rw [Guarded.nativeBatchNormBackward_eq_ofExcept, ← BackwardArgs.not_accepted_iff]
  refine ⟨?_, ?_, ?_, fun other => ?_⟩
  · rcases nativeBatchNormBackward_outcome ex args with ⟨e, _, hnot, hcall⟩ | ⟨h, hcall⟩
    · exact iff_of_true ⟨e, hcall⟩ hnot
    · rw [hcall]
      exact iff_of_false nofun (not_not.2 h)
  · intro e he
    rcases nativeBatchNormBackward_outcome ex args with ⟨e', hhead, _, hcall⟩ | ⟨_, hcall⟩
    · obtain rfl : e' = e := Except.error.inj (hcall.symm.trans he)
      obtain ⟨hoperation, hfault⟩ :=
        BackwardArgs.isArgumentFault_of_mem_faults (List.mem_of_mem_head? hhead)
      exact ⟨hhead, hoperation, hfault, Guarded.ofExcept_error he⟩
    · cases hcall.symm.trans he
  · intro g hg
    rcases nativeBatchNormBackward_outcome ex args with ⟨_, _, _, hcall⟩ | ⟨_, hcall⟩
    · cases hcall.symm.trans hg
    · obtain rfl : args.gradients.masked args.mask = g := Except.ok.inj (hcall.symm.trans hg)
      exact ⟨Guarded.ofExcept_ok hg, args.hasShapes_gradients.masked args.mask,
        args.onDevice_gradients.masked args.mask⟩
  · rw [Guarded.nativeBatchNormBackward_eq_ofExcept, nativeBatchNormBackward_withUnread]
    exact ⟨rfl, rfl⟩

end

/-- A call on one sample without channels, with the statistics of training. -/
def channellessBackward (training : Bool) : BackwardArgs Float32 Float where
  gradOutput := .fewRows 1 0 0
  input := .fewRows 1 0 0
  weight := none
  running := .none
  saved := ⟨some (.few 0 0), some (.few 0 0)⟩
  training := training
  eps := 1
  mask := ⟨true, true, false⟩

/-- In training it returns two empty gradients and no third; an evaluation misses
its statistics. -/
theorem backward_calls_outcome_channelless :
    let ex : Executor := ⟨.standard, 4⟩
    (∃ g, nativeBatchNormBackward ex (channellessBackward true) = .ok g
        ∧ Guarded.nativeBatchNormBackward ex (channellessBackward true) = .ok g
        ∧ g.HasShapes ⟨true, true, false⟩ [1, 0] [0])
      ∧ ∃ e, nativeBatchNormBackward ex (channellessBackward false) = .error e
        ∧ Guarded.nativeBatchNormBackward ex (channellessBackward false)
          = .error (.refused e) := by
  intro ex
  constructor
  · obtain ⟨hrefused, _, hreturned, _⟩ := backward_calls_outcome ex (channellessBackward true)
    cases hcall : nativeBatchNormBackward ex (channellessBackward true) with
    | ok g =>
        obtain ⟨hguarded, hshapes, _⟩ := hreturned g hcall
        exact ⟨g, rfl, hguarded, hshapes⟩
    | error e =>
        rcases hrefused.1 ⟨e, hcall⟩ with hrank | hgrad | hweight | hmean | hvar
        · exact absurd hrank (by decide)
        · exact absurd rfl hgrad
        · exact absurd nofun hweight
        · exact absurd ⟨_, rfl, rfl⟩ hmean
        · exact absurd ⟨_, rfl, rfl⟩ hvar
  · obtain ⟨hrefused, hfault, _⟩ := backward_calls_outcome ex (channellessBackward false)
    have hmissing : ¬ Supplied 0 (channellessBackward false).statistics.mean := by
      rintro ⟨_, hnone, _⟩
      cases hnone
    obtain ⟨e, he⟩ := hrefused.2 (.inr (.inr (.inr (.inl hmissing))))
    exact ⟨e, he, (hfault e he).2.2.2⟩

end ChannelNorm

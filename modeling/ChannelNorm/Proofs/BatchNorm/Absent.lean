/-
  ChannelNorm.Proofs.BatchNorm.Absent
  ───────────────────────────────────
  **A MISSING PARAMETER IS AN IDENTITY PARAMETER.**

  A weight that is absent counts as one in every channel and a bias as zero.
  The kernels read a parameter through `channelValues`, which says just that, so
  filling in the parameter leaves them the same values; and since what is filled
  in is contiguous, it does not change which kernel evaluates.  Checks, forward
  and backward are then the same call, with no law of arithmetic:

      nativeBatchNorm ex args running  =  nativeBatchNorm ex filled running
-/
import ChannelNorm.Proofs.BatchNorm.Fault
import ChannelNorm.Proofs.Tensor.Constant

namespace ChannelNorm

variable {α A : Type}

/-! ## §1. Parameters filled in. -/

/-- An absent parameter is replaced by a constant one of a shape that fits, and
one that is there is kept. -/
inductive FillsIn (fits : List Nat → Prop) (value : α) :
    Option (Tensor α) → Option (Tensor α) → Prop
  | kept (p : Option (Tensor α)) : FillsIn fits value p p
  | filled {t : Tensor α} (hfits : fits t.dims) (h : t.Constant value) :
      FillsIn fits value none (some t)

namespace FillsIn

variable {fits fits' : List Nat → Prop} {value : α} {p q : Option (Tensor α)}

/-- What was there is kept. -/
theorem eq_of_isSome (h : FillsIn fits value p q) (hsome : p.isSome = true) : q = p := by
  cases h with
  | kept p => rfl
  | filled hfits hconst => cases hsome

theorem isSome (h : FillsIn fits value p q) (hsome : p.isSome = true) : q.isSome = true := by
  rw [h.eq_of_isSome hsome]
  exact hsome

/-- Filling in does not make a tensor non-contiguous. -/
theorem all_isContiguous (h : FillsIn fits value p q) :
    p.all (·.isContiguous) = q.all (·.isContiguous) := by
  cases h with
  | kept p => rfl
  | filled hfits hconst => exact hconst.contiguous.symm

/-- An operation that takes constant tensors to constant tensors of its own
fitting shapes. -/
theorem mapOptional {f : Tensor α → Except TensorError (Tensor α)}
    (h : FillsIn fits value p q)
    (hf : ∀ t : Tensor α, fits t.dims → t.Constant value →
      ∃ r, f t = .ok r ∧ fits' r.dims ∧ r.Constant value) :
    OutcomeRel (FillsIn fits' value) (Tensor.mapOptional f p) (Tensor.mapOptional f q) := by
  cases h with
  | kept p => exact .refl .kept _
  | @filled t hfits hconst =>
      obtain ⟨r, hr, hrfits, hrconst⟩ := hf t hfits hconst
      have hfilled : Tensor.mapOptional f (some t) = .ok (some r) := by
        show (f t).map some = _
        rw [hr]
        rfl
      rw [hfilled]
      exact .ok (.filled hrfits hrconst)

/-- The values that are read are the same. -/
theorem checkOptional {channels : Nat} (operation name : String)
    (h : FillsIn (volume · = channels) value p q) :
    OutcomeRel (fun v w => channelValues v value = channelValues w value)
      (checkOptional operation name channels p) (checkOptional operation name channels q) := by
  cases h with
  | kept p =>
      refine .refl ?_ _
      exact fun _ => rfl
  | @filled t hfits hconst =>
      have hnumel : t.numel = channels := hfits
      have hcheck : ChannelNorm.checkOptional operation name channels (some t)
          = .ok (some ⟨t.toList.toArray, by simpa using hnumel⟩) := by
        show (checkParam operation name channels t).map some = _
        unfold checkParam
        rw [dif_pos hnumel]
        rfl
      rw [hcheck]
      refine .ok ?_
      show Vector.replicate channels value = _
      apply Vector.ext
      intro c hc
      rw [Vector.getElem_replicate]
      exact (hconst.entries _ (List.getElem_mem (by simpa [hnumel] using hc))).symm

end FillsIn

/-- The same call with its absent parameters filled in, one value per channel. -/
structure ForwardArgs.FillsIn [Zero α] [One α] (args args' : ForwardArgs α A) : Prop where
  weight : ChannelNorm.FillsIn (volume · = args.input.channels) 1 args.weight args'.weight
  bias : ChannelNorm.FillsIn (volume · = args.input.channels) 0 args.bias args'.bias
  rest : args' = { args with weight := args'.weight, bias := args'.bias }

/-- A call whose parameters are there is kept as it is. -/
theorem ForwardArgs.FillsIn.eq_of_isSome [Zero α] [One α] {args args' : ForwardArgs α A}
    (h : args.FillsIn args') (hweight : args.weight.isSome = true)
    (hbias : args.bias.isSome = true) : args' = args := by
  rw [h.rest, h.weight.eq_of_isSome hweight, h.bias.eq_of_isSome hbias]

variable [OrderedArith A] [Element α A]

/-! ## §2. The forward call. -/

/-- **Checks do not tell an absent parameter from one filled in**, and the
kernels read the same values of it. -/
theorem checkForward_fillsIn (operation : String) {args : ForwardArgs α A}
    (running : ChannelStats α) {weight bias : Option (Tensor α)}
    (hweight : FillsIn (volume · = args.input.channels) 1 args.weight weight)
    (hbias : FillsIn (volume · = args.input.channels) 0 args.bias bias) :
    OutcomeRel (fun params params' : ForwardParams α args.input.channels =>
        params'.mode = params.mode
          ∧ channelValues params.weight 1 = channelValues params'.weight 1
          ∧ channelValues params.bias 0 = channelValues params'.bias 0)
      (checkForward operation args running)
      (checkForward operation { args with weight, bias } running) := by
  have hparams : ∀ mode : NormMode α args.input.channels,
      OutcomeRel (fun params params' : ForwardParams α args.input.channels =>
          params'.mode = params.mode
            ∧ channelValues params.weight 1 = channelValues params'.weight 1
            ∧ channelValues params.bias 0 = channelValues params'.bias 0)
        (do
          let weight ← checkOptional operation "weight" args.input.channels args.weight
          let bias ← checkOptional operation "bias" args.input.channels args.bias
          return { mode, weight, bias })
        (do
          let weight ← checkOptional operation "weight" args.input.channels weight
          let bias ← checkOptional operation "bias" args.input.channels bias
          return { mode, weight, bias }) := fun mode =>
    (hweight.checkOptional operation "weight").bind fun _ _ hw =>
      (hbias.checkOptional operation "bias").bind fun _ _ hb => .ok ⟨rfl, hw, hb⟩
  unfold checkForward
  by_cases hrank : args.input.rank < 2
  · rw [if_pos hrank, if_pos hrank]
    exact .error _
  · rw [if_neg hrank, if_neg hrank]
    cases args.training with
    | true =>
        refine .bind_self _ fun _ _ => .bind_self _ fun _ _ => hparams .training
    | false =>
        refine .bind_self _ fun _ _ => .bind_self _ fun _ _ => hparams (.evaluation _ _)

/-- The general kernel reads no more of the parameters than their values. -/
theorem Schedule.transformGeneral_congr {input : Tensor α} (s : Schedule input.channels)
    {weight weight' bias bias' : Option (Vector α input.channels)}
    (hweight : channelValues weight 1 = channelValues weight' 1)
    (hbias : channelValues bias 0 = channelValues bias' 0) (mean invstd : Vector α input.channels) :
    s.transformGeneral (A := A) input weight bias mean invstd
      = s.transformGeneral (A := A) input weight' bias' mean invstd := by
  unfold transformGeneral
  rw [hweight, hbias]

/-- Nor does the flat one. -/
theorem transformContiguous_congr (input : Tensor α)
    {weight weight' bias bias' : Option (Vector α input.channels)}
    (hweight : channelValues weight 1 = channelValues weight' 1)
    (hbias : channelValues bias 0 = channelValues bias' 0) (mean var : Vector α input.channels)
    (eps : A) :
    transformContiguous input weight bias mean var eps
      = transformContiguous input weight' bias' mean var eps := by
  unfold transformContiguous
  simp only [hweight, hbias]

/-- **A native call does not tell an absent parameter from one filled in**: its
result, the statistics it leaves and what it reports are the same. -/
theorem ForwardArgs.FillsIn.nativeBatchNorm_eq {args args' : ForwardArgs α A}
    (h : args.FillsIn args') (ex : Executor) (running : ChannelStats α) :
    nativeBatchNorm ex args running = nativeBatchNorm ex args' running := by
  obtain ⟨hweight, hbias, hrest⟩ := h
  have hcheck := checkForward_fillsIn "native_batch_norm" running hweight hbias
  have hkernel : contiguousInference args running = contiguousInference args' running := by
    unfold contiguousInference
    rw [hweight.all_isContiguous, hbias.all_isContiguous, hrest]
  rw [hrest] at hkernel ⊢
  unfold nativeBatchNorm Schedule.nativeBatchNorm
  generalize checkForward "native_batch_norm" args running = check at hcheck ⊢
  generalize checkForward "native_batch_norm"
    { args with weight := args'.weight, bias := args'.bias } running = check' at hcheck ⊢
  cases hcheck with
  | error e => rfl
  | @ok params params' hparams =>
      obtain ⟨_, weight, bias⟩ := params
      obtain ⟨mode, weight', bias'⟩ := params'
      obtain ⟨rfl, hvalues⟩ := hparams
      have hw : channelValues weight 1 = channelValues weight' 1 := hvalues.1
      have hb : channelValues bias 0 = channelValues bias' 0 := hvalues.2
      cases mode with
      | training =>
          unfold Schedule.trainForward Schedule.updateStats
          dsimp only
          rw [Schedule.transformGeneral_congr _ hw hb]
      | evaluation mean var =>
          unfold Schedule.evaluateForward
          dsimp only
          rw [hkernel, Schedule.transformGeneral_congr _ hw hb,
            transformContiguous_congr args.input hw hb]

/-! ## §3. The backward call. -/

theorem checkBackward_fillsIn (operation : String) {args : BackwardArgs α A}
    {weight : Option (Tensor α)}
    (hweight : FillsIn (volume · = args.input.channels) 1 args.weight weight) :
    OutcomeRel (fun params params' : BackwardParams α args.input.channels =>
        params'.mean = params.mean ∧ params'.spread = params.spread
          ∧ channelValues params.weight 1 = channelValues params'.weight 1)
      (checkBackward operation args) (checkBackward operation { args with weight }) := by
  unfold checkBackward
  by_cases hrank : args.input.rank < 2
  · rw [if_pos hrank, if_pos hrank]
    exact .error _
  · rw [if_neg hrank, if_neg hrank]
    cases args.gradOutput.sameShape args.input with
    | false => exact .error _
    | true =>
        refine (hweight.checkOptional operation "weight").bind fun _ _ hw => ?_
        cases args.training with
        | true =>
            exact .bind_self _ fun _ _ => .bind_self _ fun _ _ => .ok ⟨rfl, rfl, hw⟩
        | false =>
            exact .bind_self _ fun _ _ => .bind_self _ fun _ _ => .ok ⟨rfl, rfl, hw⟩

/-- **Nor does the native backward**: every gradient is the same, that of the
weight included, and so is every refusal. -/
theorem FillsIn.nativeBatchNormBackward_eq {args : BackwardArgs α A} {weight : Option (Tensor α)}
    (hweight : FillsIn (volume · = args.input.channels) 1 args.weight weight) (ex : Executor) :
    nativeBatchNormBackward ex args = nativeBatchNormBackward ex { args with weight } := by
  refine OutcomeRel.eq ((checkBackward_fillsIn "native_batch_norm_backward" hweight).map ?_)
  rintro ⟨mean, spread, weight⟩ ⟨_, _, weight'⟩ ⟨rfl, rfl, hw⟩
  have hvalues : weight.getD (.replicate args.input.channels 1)
      = weight'.getD (.replicate args.input.channels 1) := hw
  unfold Schedule.backwardKernel
  dsimp only
  rw [hvalues]
  rfl

end ChannelNorm

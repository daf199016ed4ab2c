/-
  ChannelNorm.Proofs.BatchNorm.Check
  ──────────────────────────────────
  **ACCEPTED CALLS, AND THE VALUES THEIR KERNELS READ.**

  A call is accepted when its input has a channel axis, every tensor it brings
  along holds one value per channel, and the statistics of its mode are there.
  Accepted arguments pass their check, and what the kernels then read of a
  parameter is its contents:

      channelValue (channelValues w 1) c  =  paramAt args.weight 1 c
-/
import ChannelNorm.BatchNorm.Native
import ChannelNorm.BatchNorm.Backward
import ChannelNorm.Proofs.Tensor.Index

namespace ChannelNorm

/-! ## §1. Values by channel number. -/

section
variable {α : Type} [Zero α] {n c : Nat}

/-- The value of a channel, zero for a number that is none. -/
def channelValue (v : Vector α n) (c : Nat) : α :=
  v.toList.getD c 0

theorem get_eq_channelValue (v : Vector α n) (c : Fin n) : v.get c = channelValue v c := by
  have hc : (c : Nat) < v.toList.length := by
    rw [Vector.length_toList]
    exact c.isLt
  rw [channelValue, List.getD_eq_getElem?_getD, List.getElem?_eq_getElem hc]
  rfl

theorem channelValue_eq_getElem (v : Vector α n) (hc : c < n) : channelValue v c = v[c] :=
  (get_eq_channelValue v ⟨c, hc⟩).symm

theorem channelValue_map (v : Vector α n) (f : α → α) (hc : c < n) :
    channelValue (v.map f) c = f (channelValue v c) := by
  rw [channelValue_eq_getElem _ hc, channelValue_eq_getElem _ hc, Vector.getElem_map]

theorem channelValue_zipWith (v w : Vector α n) (f : α → α → α) (hc : c < n) :
    channelValue (Vector.zipWith f v w) c = f (channelValue v c) (channelValue w c) := by
  rw [channelValue_eq_getElem _ hc, channelValue_eq_getElem _ hc, channelValue_eq_getElem _ hc,
    Vector.getElem_zipWith]

end

/-! ## §2. One parameter. -/

variable {α A : Type}

/-- A tensor, if there is one, holds one value per channel. -/
def OnePerChannel (channels : Nat) (p : Option (Tensor α)) : Prop :=
  ∀ t, p = some t → t.numel = channels

theorem checkParam_ok [Zero α] (operation name : String) {channels : Nat} {p : Tensor α}
    (h : p.numel = channels) :
    ∃ v, checkParam operation name channels p = .ok v
      ∧ ∀ c < channels, channelValue v c = p.elem c := by
  unfold checkParam
  rw [dif_pos h]
  exact ⟨_, rfl, fun _ _ => rfl⟩

theorem checkOptional_ok [Zero α] (operation name : String) {channels : Nat}
    {p : Option (Tensor α)} (h : OnePerChannel channels p) :
    ∃ v, checkOptional operation name channels p = .ok v
      ∧ ∀ (default : α), ∀ c < channels,
          channelValue (channelValues v default) c = paramAt p default c := by
  cases p with
  | none =>
      refine ⟨none, rfl, fun default c hc => ?_⟩
      show channelValue (Vector.replicate channels default) c = default
      rw [channelValue_eq_getElem _ hc, Vector.getElem_replicate]
  | some t =>
      obtain ⟨v, hv, hval⟩ := checkParam_ok operation name (h t rfl)
      refine ⟨some v, ?_, fun default c hc => hval c hc⟩
      show (checkParam operation name channels t).map some = _
      rw [hv]
      rfl

theorem checkRequired_ok [Zero α] (operation name mode : String) {channels : Nat}
    {p : Option (Tensor α)} (h : OnePerChannel channels p) (hsome : p.isSome = true) :
    ∃ v, checkRequired operation name mode channels p = .ok v
      ∧ ∀ c < channels, channelValue v c = paramAt p 0 c := by
  obtain ⟨t, rfl⟩ := Option.isSome_iff_exists.1 hsome
  exact checkParam_ok operation name (h t rfl)

/-! ## §3. Forward calls. -/

/-- A forward call that passes its check. -/
structure ForwardArgs.Accepted (args : ForwardArgs α A) (running : ChannelStats α) : Prop where
  rank : 2 ≤ args.input.rank
  weight : OnePerChannel args.input.channels args.weight
  bias : OnePerChannel args.input.channels args.bias
  mean : OnePerChannel args.input.channels running.mean
  var : OnePerChannel args.input.channels running.var
  /-- Evaluation has both statistics. -/
  statistics : args.training = false → running.mean.isSome = true ∧ running.var.isSome = true

/-- What the kernels read of the affine parameters. -/
def ForwardArgs.AffineReadBy [Zero α] (args : ForwardArgs α A)
    (params : ForwardParams α args.input.channels) : Prop :=
  ∀ c < args.input.channels, ∀ default : α,
    channelValue (channelValues params.weight default) c = paramAt args.weight default c
      ∧ channelValue (channelValues params.bias default) c = paramAt args.bias default c

theorem checkForward_training [Zero α] (operation : String) {args : ForwardArgs α A}
    {running : ChannelStats α} (h : args.Accepted running) (ht : args.training = true) :
    ∃ params, checkForward operation args running = .ok params
      ∧ params.mode = .training ∧ args.AffineReadBy params := by
  obtain ⟨_, hmean, _⟩ := checkOptional_ok operation "running_mean" h.mean
  obtain ⟨_, hvar, _⟩ := checkOptional_ok operation "running_var" h.var
  obtain ⟨w, hw, hwval⟩ := checkOptional_ok operation "weight" h.weight
  obtain ⟨b, hb, hbval⟩ := checkOptional_ok operation "bias" h.bias
  refine ⟨⟨.training, w, b⟩, ?_, rfl, fun c hc default => ⟨hwval default c hc, hbval default c hc⟩⟩
  have hrank : ¬ args.input.rank < 2 := Nat.not_lt.2 h.rank
  unfold checkForward
  rw [if_neg hrank]
  simp only [ht, if_true, hmean, hvar, hw, hb]
  rfl

theorem checkForward_evaluation [Zero α] (operation : String) {args : ForwardArgs α A}
    {running : ChannelStats α} (h : args.Accepted running) (ht : args.training = false) :
    ∃ params mean var, checkForward operation args running = .ok params
      ∧ params.mode = .evaluation mean var ∧ args.AffineReadBy params
      ∧ ∀ c < args.input.channels,
          channelValue mean c = paramAt running.mean 0 c
            ∧ channelValue var c = paramAt running.var 0 c := by
  obtain ⟨hsm, hsv⟩ := h.statistics ht
  obtain ⟨m, hm, hmval⟩ := checkRequired_ok operation "running_mean" "evaluation" h.mean hsm
  obtain ⟨v, hv, hvval⟩ := checkRequired_ok operation "running_var" "evaluation" h.var hsv
  obtain ⟨w, hw, hwval⟩ := checkOptional_ok operation "weight" h.weight
  obtain ⟨b, hb, hbval⟩ := checkOptional_ok operation "bias" h.bias
  refine ⟨⟨.evaluation m v, w, b⟩, m, v, ?_, rfl,
    fun c hc default => ⟨hwval default c hc, hbval default c hc⟩,
    fun c hc => ⟨hmval c hc, hvval c hc⟩⟩
  have hrank : ¬ args.input.rank < 2 := Nat.not_lt.2 h.rank
  unfold checkForward
  rw [if_neg hrank]
  simp only [ht, hm, hv, hw, hb]
  rfl

/-- A call that passed its check has a channel axis. -/
theorem rank_of_checkForward {operation : String} {args : ForwardArgs α A}
    {running : ChannelStats α} {params : ForwardParams α args.input.channels}
    (h : checkForward operation args running = .ok params) : 2 ≤ args.input.rank := by
  rcases Nat.lt_or_ge args.input.rank 2 with hlt | hge
  · unfold checkForward at h
    rw [if_pos hlt] at h
    exact absurd h (by rintro ⟨⟩)
  · exact hge

/-! ## §4. Backward calls. -/

/-- The statistics a backward call reads: saved ones in training, running ones
in evaluation. -/
def BackwardArgs.statistics (args : BackwardArgs α A) : ChannelStats α :=
  if args.training then args.saved else args.running

/-- A backward call that passes its check. -/
structure BackwardArgs.Accepted (args : BackwardArgs α A) : Prop where
  rank : 2 ≤ args.input.rank
  gradient : args.gradOutput.dims = args.input.dims
  weight : OnePerChannel args.input.channels args.weight
  mean : OnePerChannel args.input.channels args.statistics.mean
  var : OnePerChannel args.input.channels args.statistics.var
  hasMean : args.statistics.mean.isSome = true
  hasVar : args.statistics.var.isSome = true

theorem checkBackward_ok [Zero α] (operation : String) {args : BackwardArgs α A}
    (h : args.Accepted) :
    ∃ params, checkBackward operation args = .ok params
      ∧ ∀ c < args.input.channels,
          channelValue params.mean c = paramAt args.statistics.mean 0 c
            ∧ channelValue params.spread c = paramAt args.statistics.var 0 c
            ∧ ∀ default, channelValue (channelValues params.weight default) c
                = paramAt args.weight default c := by
  obtain ⟨hrank, hgrad, hweight, hmean, hvar, hsm, hsv⟩ := h
  have hrank : ¬ args.input.rank < 2 := Nat.not_lt.2 hrank
  have hshape : args.gradOutput.sameShape args.input = true := Tensor.sameShape_of_dims hgrad
  obtain ⟨w, hw, hwval⟩ := checkOptional_ok operation "weight" hweight
  unfold checkBackward
  rw [if_neg hrank]
  simp only [hshape, hw]
  cases ht : args.training with
  | true =>
      have hstats : args.statistics = args.saved := by rw [BackwardArgs.statistics, ht]; rfl
      rw [hstats] at hmean hvar hsm hsv ⊢
      obtain ⟨m, hm, hmval⟩ := checkRequired_ok operation "save_mean" "training" hmean hsm
      obtain ⟨v, hv, hvval⟩ := checkRequired_ok operation "save_invstd" "training" hvar hsv
      refine ⟨⟨m, v, w⟩, ?_, fun c hc => ⟨hmval c hc, hvval c hc, fun d => hwval d c hc⟩⟩
      simp only [hm, hv]
      rfl
  | false =>
      have hstats : args.statistics = args.running := by rw [BackwardArgs.statistics, ht]; rfl
      rw [hstats] at hmean hvar hsm hsv ⊢
      obtain ⟨m, hm, hmval⟩ := checkRequired_ok operation "running_mean" "evaluation" hmean hsm
      obtain ⟨v, hv, hvval⟩ := checkRequired_ok operation "running_var" "evaluation" hvar hsv
      refine ⟨⟨m, v, w⟩, ?_, fun c hc => ⟨hmval c hc, hvval c hc, fun d => hwval d c hc⟩⟩
      simp only [hm, hv]
      rfl

end ChannelNorm

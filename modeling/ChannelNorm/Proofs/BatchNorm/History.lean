/-
  ChannelNorm.Proofs.BatchNorm.History
  ────────────────────────────────────
  **RUNNING STATISTICS OVER A RUN OF CALLS.**

  Training calls, updates and evaluations share one pair of running statistics.
  A call either leaves them as they are or folds its batch into them, so after
  any run they depend on the folded batches alone.  Over the reals, with one
  momentum `μ` for all `k` of them, channel `c` then holds

      mean   (1 - μ)ᵏ · mean₀  +  Σ_{i < k} μ (1 - μ)ᵏ⁻ⁱ⁻¹ · mean of batch i
      var    (1 - μ)ᵏ · var₀   +  Σ_{i < k} μ (1 - μ)ᵏ⁻ⁱ⁻¹ · Sᵢ / (nᵢ - 1)

  where `Sᵢ` sums the squared deviations of the `nᵢ` elements of channel `c` of
  batch `i`.  The tensors are the ones the run began with, overwritten in place.
-/
import Mathlib
import ChannelNorm.Proofs.BatchNorm.Answer
import ChannelNorm.Proofs.BatchNorm.Layout
import ChannelNorm.Proofs.BatchNorm.Loss

namespace ChannelNorm

open Finset

variable {α A : Type}

/-! ## §1. Calls that share running statistics. -/

/-- A call that reads or updates the running statistics. -/
inductive StatsCall (α A : Type) where
  | forward (ex : Executor) (args : ForwardArgs α A)
  | update (ex : Executor) (input : Tensor α) (momentum : A)

/-- A batch, and the weight it is folded in with. -/
structure FoldedBatch (α A : Type) where
  input : Tensor α
  momentum : A

/-- The batch a call folds in when it succeeds; an evaluation has none. -/
def StatsCall.batch? : StatsCall α A → Option (FoldedBatch α A)
  | .forward _ args => if args.training then some ⟨args.input, args.momentum⟩ else none
  | .update _ input momentum => some ⟨input, momentum⟩

/-- A training call has its input as a batch. -/
theorem StatsCall.batch?_training (ex : Executor) {args : ForwardArgs α A}
    (ht : args.training = true) :
    (StatsCall.forward ex args).batch? = some ⟨args.input, args.momentum⟩ :=
  if_pos ht

theorem StatsCall.batch?_evaluation (ex : Executor) {args : ForwardArgs α A}
    (ht : args.training = false) : (StatsCall.forward ex args).batch? = none :=
  if_neg (ht ▸ Bool.false_ne_true)

/-- A batch whose channels the running statistics fit. -/
structure FoldedBatch.Fits (b : FoldedBatch α A) (running : ChannelStats α) : Prop where
  rank : 2 ≤ b.input.rank
  mean : OnePerChannel b.input.channels running.mean
  var : OnePerChannel b.input.channels running.var

/-- The batches folded in so far, oldest first, and the running statistics. -/
structure History (α A : Type) where
  folded : List (FoldedBatch α A)
  running : ChannelStats α

variable [OrderedArith A] [Element α A]

/-- Whether a call succeeds, and the running statistics it leaves. -/
def StatsCall.outcome : StatsCall α A → ChannelStats α → Bool × ChannelStats α
  | .forward ex args, running =>
      let run := nativeBatchNorm ex args running
      (run.result.isOk, run.running)
  | .update ex input momentum, running =>
      let (result, running) := batchNormUpdateStats ex input running momentum
      (result.isOk, running)

namespace History

/-- One call: its batch counts when the call succeeded. -/
def step (h : History α A) (call : StatsCall α A) : History α A :=
  let (succeeded, running) := call.outcome h.running
  { folded := if succeeded then h.folded ++ call.batch?.toList else h.folded, running }

/-- One call after another. -/
def run (h : History α A) (calls : List (StatsCall α A)) : History α A :=
  calls.foldl step h

/-- A history with one more batch. -/
def fold (h : History α A) (b : FoldedBatch α A) : History α A where
  folded := h.folded ++ [b]
  running := h.running.afterBatch b.input b.momentum

end History

/-! ## §2. What one call does. -/

namespace StatsCall

variable {running : ChannelStats α}

/-- An accepted forward call succeeds, and folds in its input if it trains. -/
theorem outcome_forward (ex : Executor) {args : ForwardArgs α A} (h : args.Accepted running) :
    (forward ex args).outcome running
      = (true, if args.training then running.afterBatch args.input args.momentum
          else running) := by
  unfold outcome
  dsimp only
  cases ht : args.training with
  | true =>
      rw [nativeBatchNorm_training ex h ht, running_nativeBatchNorm_training ex h ht]
      rfl
  | false =>
      obtain ⟨hresult, hrunning⟩ := nativeBatchNorm_inferred ex h ht
      rw [hresult, hrunning]
      rfl

/-- An accepted update folds in its input. -/
theorem outcome_update (ex : Executor) {input : Tensor α} (momentum : A)
    (h : updateFaults input running = []) :
    (update ex input momentum).outcome running = (true, running.afterBatch input momentum) := by
  unfold outcome
  dsimp only
  rw [batchNormUpdateStats_ok ex momentum h]
  rfl

/-- A call leaves the running statistics alone, or it succeeds and folds in its
batch, which then fits them. -/
theorem outcome_cases (call : StatsCall α A) (running : ChannelStats α) :
    (call.outcome running).2 = running
        ∧ ((call.outcome running).1 = true → call.batch? = none)
      ∨ ∃ b, call.batch? = some b ∧ b.Fits running
        ∧ call.outcome running = (true, running.afterBatch b.input b.momentum) := by
  cases call with
  | forward ex args =>
      cases hfaults : args.faults "native_batch_norm" running with
      | cons e more =>
          have hrefused : (forward ex args).outcome running = (false, running) := by
            unfold outcome
            dsimp only
            rw [nativeBatchNorm_refused ex (congrArg List.head? hfaults)]
            rfl
          rw [hrefused]
          exact .inl ⟨rfl, nofun⟩
      | nil =>
          have haccepted := ForwardArgs.faults_eq_nil.1 hfaults
          have houtcome := outcome_forward ex haccepted
          cases ht : args.training with
          | true =>
              rw [ht] at houtcome
              exact .inr ⟨_, batch?_training ex ht,
                ⟨haccepted.rank, haccepted.mean, haccepted.var⟩, houtcome⟩
          | false =>
              rw [ht] at houtcome
              rw [houtcome]
              exact .inl ⟨rfl, fun _ => batch?_evaluation ex ht⟩
  | update ex input momentum =>
      cases hfaults : updateFaults input running with
      | cons e more =>
          have hrefused : (update ex input momentum).outcome running = (false, running) := by
            unfold outcome
            dsimp only
            rw [batchNormUpdateStats_refused ex momentum (congrArg List.head? hfaults)]
            rfl
          rw [hrefused]
          exact .inl ⟨rfl, nofun⟩
      | nil =>
          obtain ⟨hrank, hmean, hvar⟩ := updateFaults_eq_nil.1 hfaults
          exact .inr ⟨_, rfl, ⟨hrank, hmean, hvar⟩, outcome_update ex momentum hfaults⟩

end StatsCall

/-- **A call folds its batch in or changes nothing.** -/
theorem History.step_cases (h : History α A) (call : StatsCall α A) :
    h.step call = h
      ∨ ∃ b, call.batch? = some b ∧ b.Fits h.running ∧ h.step call = h.fold b := by
  unfold step fold
  obtain ⟨hkept, hnone⟩ | ⟨b, hb, hfits, houtcome⟩ := call.outcome_cases h.running
  · left
    generalize call.outcome h.running = outcome at hkept hnone
    obtain ⟨succeeded, running⟩ := outcome
    obtain rfl : running = h.running := hkept
    cases succeeded with
    | false => rfl
    | true =>
        rw [hnone rfl]
        simp
  · refine .inr ⟨b, hb, hfits, ?_⟩
    rw [houtcome, hb]
    rfl

/-! ## §3. Calls that pass their checks. -/

/-- A call that passes its checks against a pair of statistics of `C` values. -/
inductive StatsCall.Valid (C : Nat) : StatsCall α A → Prop where
  | forward {ex : Executor} {args : ForwardArgs α A} (rank : 2 ≤ args.input.rank)
      (channels : args.input.channels = C) (weight : OnePerChannel C args.weight)
      (bias : OnePerChannel C args.bias) : Valid C (.forward ex args)
  | update {ex : Executor} {input : Tensor α} {momentum : A} (rank : 2 ≤ input.rank)
      (channels : input.channels = C) : Valid C (.update ex input momentum)

/-- Statistics that are there, one value per channel. -/
def ChannelStats.BothSupplied (C : Nat) (s : ChannelStats α) : Prop :=
  Supplied C s.mean ∧ Supplied C s.var

theorem ChannelStats.BothSupplied.afterBatch {C : Nat} {s : ChannelStats α}
    (h : s.BothSupplied C) (input : Tensor α) (momentum : A) :
    (s.afterBatch input momentum).BothSupplied C := by
  obtain ⟨hmean, hvar⟩ :=
    onePerChannel_afterBatch h.1.onePerChannel h.2.onePerChannel input momentum
  exact ⟨hmean.supplied (Option.isSome_map.trans h.1.isSome),
    hvar.supplied (Option.isSome_map.trans h.2.isSome)⟩

namespace History

/-- A valid call folds in its batch, if it has one. -/
theorem step_of_valid {C : Nat} {h : History α A} (hstats : h.running.BothSupplied C)
    {call : StatsCall α A} (hvalid : call.Valid C) :
    (h.step call).folded = h.folded ++ call.batch?.toList
      ∧ (h.step call).running.BothSupplied C := by
  unfold step
  cases hvalid with
  | @forward ex args rank channels weight bias =>
      subst channels
      have haccepted : args.Accepted h.running :=
        ⟨rank, weight, bias, hstats.1.onePerChannel, hstats.2.onePerChannel,
          fun _ => ⟨hstats.1.isSome, hstats.2.isSome⟩⟩
      rw [StatsCall.outcome_forward ex haccepted]
      refine ⟨rfl, ?_⟩
      dsimp only
      split
      · exact hstats.afterBatch args.input args.momentum
      · exact hstats
  | @update ex input momentum rank channels =>
      subst channels
      have hfaults : updateFaults input h.running = [] :=
        updateFaults_eq_nil.2 ⟨rank, hstats.1.onePerChannel, hstats.2.onePerChannel⟩
      rw [StatsCall.outcome_update ex momentum hfaults]
      exact ⟨rfl, hstats.afterBatch input momentum⟩

/-- **A run of valid calls folds in every batch**, in the order of the calls. -/
theorem folded_run_of_valid {C : Nat} (h : History α A) (hstats : h.running.BothSupplied C)
    (calls : List (StatsCall α A)) (hvalid : ∀ call ∈ calls, call.Valid C) :
    (h.run calls).folded = h.folded ++ calls.filterMap StatsCall.batch? := by
  -- on the calls still to come
  induction calls generalizing h with
  | nil => exact (List.append_nil _).symm
  | cons call calls ih =>
      obtain ⟨hfolded, hleft⟩ := step_of_valid hstats (hvalid call (by simp))
      show ((h.step call).run calls).folded = _
      rw [ih (h.step call) hleft fun c hc => hvalid c (by simp [hc]), hfolded, List.append_assoc,
        List.filterMap_cons]
      cases call.batch? <;> rfl

end History

/-! ## §4. Weighted averages. -/

/-- A value with a statistic of each batch folded in, the oldest first. -/
noncomputable def blended (f : Tensor ℝ → ℝ) (start : ℝ) (bs : List (FoldedBatch ℝ ℝ)) : ℝ :=
  bs.foldl (fun old b => b.momentum * f b.input + (1 - b.momentum) * old) start

theorem blended_concat (f : Tensor ℝ → ℝ) (start : ℝ) (bs : List (FoldedBatch ℝ ℝ))
    (b : FoldedBatch ℝ ℝ) :
    blended f start (bs ++ [b])
      = b.momentum * f b.input + (1 - b.momentum) * blended f start bs :=
  List.foldl_append

/-- **With one momentum the weights decay geometrically.** -/
theorem blended_eq (f : Tensor ℝ → ℝ) (start : ℝ) {bs : List (FoldedBatch ℝ ℝ)} {μ : ℝ}
    (hμ : ∀ b ∈ bs, b.momentum = μ) :
    blended f start bs
      = (1 - μ) ^ bs.length * start
        + ∑ i : Fin bs.length, μ * (1 - μ) ^ (bs.length - (i + 1)) * f bs[i].input := by
  -- the oldest batch is part of the value that the others are folded into
  induction bs generalizing start with
  | nil => simp [blended]
  | cons b bs ih =>
      have hb : b.momentum = μ := hμ b (by simp)
      have hrest := ih (b.momentum * f b.input + (1 - b.momentum) * start)
        fun c hc => hμ c (by simp [hc])
      rw [hb] at hrest
      show blended f (b.momentum * f b.input + (1 - b.momentum) * start) bs = _
      have hsplit : ∑ i : Fin (b :: bs).length,
            μ * (1 - μ) ^ ((b :: bs).length - (i + 1)) * f (b :: bs)[i].input
          = μ * (1 - μ) ^ bs.length * f b.input
            + ∑ i : Fin bs.length, μ * (1 - μ) ^ (bs.length - (i + 1)) * f bs[i].input := by
        refine (Fin.sum_univ_succ (n := bs.length) _).trans ?_
        refine congrArg (_ + ·) (sum_congr rfl fun i _ => ?_)
        have hlater : bs.length + 1 - (i + 1 + 1) = bs.length - (i + 1) :=
          Nat.add_sub_add_right _ 1 _
        exact congrArg (fun e => μ * (1 - μ) ^ e * f bs[i].input) hlater
      rw [hb, hrest, hsplit]
      show (1 - μ) ^ bs.length * (μ * f b.input + (1 - μ) * start) + _
        = (1 - μ) ^ (bs.length + 1) * start + _
      ring

/-! ## §5. What the running statistics hold. -/

/-- Entries overwritten one by one. -/
theorem Tensor.elem_overwrite_zipWith {β : Type} [Zero α] {t : Tensor α} {n : Nat}
    (hn : t.numel = n) (g : β → α → α) (m : Fin n → β) {c : Nat} (hc : c < n) :
    (t.overwrite (List.zipWith g (List.ofFn m) t.toList)).elem c = g (m ⟨c, hc⟩) (t.elem c) := by
  have hlen : (List.zipWith g (List.ofFn m) t.toList).length = t.numel := by
    rw [List.length_zipWith, List.length_ofFn, length_toList, hn, Nat.min_self]
  have hentry : t.toList[c]? = some (t.elem c) := t.getElem?_toList_eq_elem (hn ▸ hc)
  rw [elem, toList_overwrite hlen, List.getD_eq_getElem?_getD, List.getElem?_zipWith,
    List.getElem?_ofFn, dif_pos hc, hentry]
  rfl

/-- `t` is `start`, overwritten with a statistic of each batch folded in. -/
structure Averages (f : Tensor ℝ → ℕ → ℝ) (start t : Tensor ℝ) (bs : List (FoldedBatch ℝ ℝ)) :
    Prop where
  layout : t.layout = start.layout
  device : t.device = start.device
  elem : ∀ c < start.numel, t.elem c = blended (f · c) (start.elem c) bs

theorem Averages.numel {f : Tensor ℝ → ℕ → ℝ} {start t : Tensor ℝ}
    {bs : List (FoldedBatch ℝ ℝ)} (h : Averages f start t bs) : t.numel = start.numel := by
  unfold Tensor.numel Tensor.dims
  rw [h.layout]

/-- One more batch. -/
theorem Averages.concat {f : Tensor ℝ → ℕ → ℝ} {start t : Tensor ℝ}
    {bs : List (FoldedBatch ℝ ℝ)} (h : Averages f start t bs) {b : FoldedBatch ℝ ℝ}
    (hn : t.numel = b.input.channels) {blend : ChannelMoments ℝ ℝ → ℝ → ℝ}
    (hblend : ∀ c old, blend (b.input.momentsAt c) old
      = b.momentum * f b.input c + (1 - b.momentum) * old) :
    Averages f start
      (t.overwrite (List.zipWith blend
        (List.ofFn fun c : Fin b.input.channels => b.input.momentsAt c) t.toList))
      (bs ++ [b]) := by
  refine ⟨h.layout, h.device, fun c hc => ?_⟩
  have hc' : c < b.input.channels := by rwa [← hn, h.numel]
  rw [Tensor.elem_overwrite_zipWith hn _ _ hc', hblend, h.elem c hc, blended_concat]

/-- The unbiased variance of one channel, as an update computes it. -/
noncomputable def Tensor.unbiasedVariance (input : Tensor ℝ) (c : ℕ) : ℝ :=
  (input.momentsAt c : ChannelMoments ℝ ℝ).varSum / (ofCount (input.elementsPerChannel - 1) : ℝ)

/-- What the running statistics hold after the batches of a history. -/
structure History.Holds (rm rv : Tensor ℝ) (h : History ℝ ℝ) : Prop where
  mean : ∃ t, h.running.mean = some t ∧ Averages (fun b c => b.batchMean c) rm t h.folded
  var : ∃ t, h.running.var = some t ∧ Averages Tensor.unbiasedVariance rv t h.folded
  fits : ∀ b ∈ h.folded, 2 ≤ b.input.rank ∧ b.input.channels = rm.numel

section
variable {rm rv : Tensor ℝ} {h : History ℝ ℝ}

/-- A batch that fits is folded into both. -/
theorem History.Holds.fold (hh : h.Holds rm rv) {b : FoldedBatch ℝ ℝ}
    (hb : b.Fits h.running) : (h.fold b).Holds rm rv := by
  obtain ⟨t, ht, htmean⟩ := hh.mean
  obtain ⟨u, hu, huvar⟩ := hh.var
  have htn : t.numel = b.input.channels := hb.mean t ht
  have hun : u.numel = b.input.channels := hb.var u hu
  have hmean : ∀ c old, (b.input.momentsAt c).blendMean b.momentum old
      = b.momentum * b.input.batchMean c + (1 - b.momentum) * old := fun _ _ => rfl
  have hvar : ∀ c old,
      (b.input.momentsAt c).blendVar b.momentum (ofCount (b.input.elementsPerChannel - 1)) old
        = b.momentum * b.input.unbiasedVariance c + (1 - b.momentum) * old := fun _ _ => rfl
  refine ⟨⟨_, ?_, htmean.concat htn hmean⟩, ⟨_, ?_, huvar.concat hun hvar⟩, ?_⟩
  · unfold History.fold ChannelStats.afterBatch ChannelStats.blend
    rw [Vector.toList_ofFn, ht]
    rfl
  · unfold History.fold ChannelStats.afterBatch ChannelStats.blend
    rw [Vector.toList_ofFn, hu]
    rfl
  · intro c hc
    rcases List.mem_append.1 hc with hc | hc
    · exact hh.fits c hc
    · obtain rfl : c = b := List.mem_singleton.1 hc
      exact ⟨hb.rank, htn.symm.trans htmean.numel⟩

/-- One call keeps it. -/
theorem History.Holds.step (hh : h.Holds rm rv) (call : StatsCall ℝ ℝ) :
    (h.step call).Holds rm rv := by
  obtain hsame | ⟨b, _, hfits, hfold⟩ := h.step_cases call
  · rw [hsame]
    exact hh
  · rw [hfold]
    exact hh.fold hfits

/-- Any run of calls keeps it. -/
theorem History.Holds.run (hh : h.Holds rm rv) (calls : List (StatsCall ℝ ℝ)) :
    (h.run calls).Holds rm rv := by
  induction calls generalizing h with
  | nil => exact hh
  | cons call calls ih => exact ih (hh.step call)

end

/-! ## §6. Any run. -/

/-- Unbiased variance over a block. -/
noncomputable def unbiasedOver (S : Finset ℕ) (x : ℕ → ℝ) : ℝ :=
  (∑ k ∈ S, (x k - meanOver S x) ^ 2) / (#S - 1)

theorem Tensor.unbiasedVariance_eq (input : Tensor ℝ) (hrank : 2 ≤ input.rank) {c : ℕ}
    (hc : c < input.channels) (hn : 2 ≤ input.elementsPerChannel) :
    input.unbiasedVariance c = unbiasedOver (channelSet input.dims c) input.elem := by
  have hcard := input.elementsPerChannel_eq_card hrank hc
  have hdof : ((#(channelSet input.dims c) - 1 : ℕ) : ℝ) = #(channelSet input.dims c) - 1 :=
    Nat.cast_pred (by omega)
  unfold unbiasedVariance unbiasedOver
  rw [input.varSum_momentsAt hrank hc, hcard, ofCount_real, hdof]
  simp only [sq]

/-- **Running statistics are geometric averages of the batches.**  After any run
of training calls, updates and evaluations, refused ones included, whose folded
batches share the momentum `μ` and have two elements per channel at least: every
folded batch has `C` channels, and the running tensors are the ones the run
began with, overwritten in place with the averages of their start and of the
means and unbiased variances of the batches. -/
theorem running_averages_of_run {C : ℕ} {rm rv : Tensor ℝ} (hrm : rm.numel = C)
    (hrv : rv.numel = C) (calls : List (StatsCall ℝ ℝ)) {μ : ℝ}
    (hfolded : ∀ b ∈ (History.run ⟨[], some rm, some rv⟩ calls).folded,
      b.momentum = μ ∧ 2 ≤ b.input.elementsPerChannel) :
    let h : History ℝ ℝ := .run ⟨[], some rm, some rv⟩ calls
    let k := h.folded.length
    (∀ b ∈ h.folded, 2 ≤ b.input.rank ∧ b.input.channels = C)
      ∧ ∃ mean var : Tensor ℝ, h.running = ⟨some mean, some var⟩
        ∧ (mean.layout = rm.layout ∧ mean.device = rm.device)
        ∧ (var.layout = rv.layout ∧ var.device = rv.device)
        ∧ ∀ c < C,
          mean.elem c = (1 - μ) ^ k * rm.elem c
            + ∑ i : Fin k, μ * (1 - μ) ^ (k - (i + 1))
              * meanOver (channelSet h.folded[i].input.dims c) h.folded[i].input.elem
          ∧ var.elem c = (1 - μ) ^ k * rv.elem c
            + ∑ i : Fin k, μ * (1 - μ) ^ (k - (i + 1))
              * unbiasedOver (channelSet h.folded[i].input.dims c) h.folded[i].input.elem := by
  intro h k
  have hstart : (⟨[], some rm, some rv⟩ : History ℝ ℝ).Holds rm rv :=
    ⟨⟨rm, rfl, rfl, rfl, fun _ _ => rfl⟩, ⟨rv, rfl, rfl, rfl, fun _ _ => rfl⟩, nofun⟩
  obtain ⟨⟨mean, hmean, hmeanavg⟩, ⟨var, hvar, hvaravg⟩, hfits⟩ := hstart.run calls
  have hμ : ∀ b ∈ h.folded, b.momentum = μ := fun b hb => (hfolded b hb).1
  have hfits : ∀ b ∈ h.folded, 2 ≤ b.input.rank ∧ b.input.channels = C := fun b hb =>
    ⟨(hfits b hb).1, (hfits b hb).2.trans hrm⟩
  refine ⟨hfits, mean, var, ?_, ⟨hmeanavg.layout, hmeanavg.device⟩,
    ⟨hvaravg.layout, hvaravg.device⟩, fun c hc => ⟨?_, ?_⟩⟩
  · show History.running _ = _
    rw [← hmean, ← hvar]
  · rw [hmeanavg.elem c (hrm ▸ hc), blended_eq _ _ hμ]
    refine congrArg (_ + ·) (sum_congr rfl fun i _ => ?_)
    obtain ⟨hrank, hchannels⟩ := hfits _ (List.getElem_mem i.isLt)
    exact congrArg (_ * ·) (Tensor.batchMean_eq_meanOver _ hrank (hchannels ▸ hc))
  · rw [hvaravg.elem c (hrv ▸ hc), blended_eq _ _ hμ]
    refine congrArg (_ + ·) (sum_congr rfl fun i _ => ?_)
    obtain ⟨hrank, hchannels⟩ := hfits _ (List.getElem_mem i.isLt)
    exact congrArg (_ * ·) (Tensor.unbiasedVariance_eq _ hrank (hchannels ▸ hc)
      (hfolded _ (List.getElem_mem i.isLt)).2)

/-- A training call, an evaluation and an update that share statistics. -/
noncomputable def sampleCalls (momentum : ℝ) : List (StatsCall ℝ ℝ) :=
  [.forward ⟨.standard, 4⟩ { sampleCall true with momentum },
    .forward ⟨.standard, 1⟩ (sampleCall false),
    .update ⟨.standard, 4⟩ sampleStrided momentum]

/-- Both updates count and the evaluation does not. -/
theorem running_averages_of_run_sample :
    let h : History ℝ ℝ := .run ⟨[], sampleRunning⟩ (sampleCalls (1 / 2))
    (samplePair 0 1).numel = 2 ∧ (samplePair 3 8).numel = 2
      ∧ h.folded = [⟨sampleBatch, 1 / 2⟩, ⟨sampleStrided, 1 / 2⟩]
      ∧ (∀ b ∈ h.folded, b.momentum = 1 / 2 ∧ 2 ≤ b.input.elementsPerChannel)
      ∧ ∃ mean var : Tensor ℝ, h.running = ⟨some mean, some var⟩
        ∧ mean.elem 0 = 3 / 2 ∧ var.elem 0 = 9 / 4 := by
  intro h
  have hstats : (⟨[], sampleRunning⟩ : History ℝ ℝ).running.BothSupplied 2 :=
    ⟨⟨_, rfl, rfl⟩, ⟨_, rfl, rfl⟩⟩
  have hvalid : ∀ call ∈ sampleCalls (1 / 2), call.Valid 2 := by
    intro call hcall
    have hweight : OnePerChannel 2 (some (samplePair 2 3)) := by
      rintro t ⟨⟩
      rfl
    simp only [sampleCalls, List.mem_cons, List.not_mem_nil, or_false] at hcall
    obtain rfl | rfl | rfl := hcall
    · exact .forward (by decide) rfl hweight nofun
    · exact .forward (by decide) rfl hweight nofun
    · exact .update (by decide) rfl
  have hfolded : h.folded = [⟨sampleBatch, 1 / 2⟩, ⟨sampleStrided, 1 / 2⟩] :=
    History.folded_run_of_valid _ hstats (sampleCalls (1 / 2)) hvalid
  have hshared : ∀ b ∈ h.folded, b.momentum = 1 / 2 ∧ 2 ≤ b.input.elementsPerChannel := by
    intro b hb
    rw [hfolded] at hb
    simp only [List.mem_cons, List.not_mem_nil, or_false] at hb
    obtain rfl | rfl := hb
    · exact ⟨rfl, by decide⟩
    · exact ⟨rfl, by decide⟩
  obtain ⟨_, mean, var, hrunning, _, _, helem⟩ :=
    running_averages_of_run (C := 2) rfl rfl (sampleCalls (1 / 2)) hshared
  refine ⟨rfl, rfl, hfolded, hshared, mean, var, hrunning, ?_⟩
  obtain ⟨hmean, hvar⟩ := helem 0 Nat.zero_lt_two
  -- channel 0 of either batch holds the values 1 and 3
  have hset : channelSet [2, 2] 0 = {0, 2} := by decide
  have hblock : ∀ x : ℕ → ℝ, x 0 = 1 → x 2 = 3 →
      meanOver {0, 2} x = 2 ∧ unbiasedOver {0, 2} x = 2 := by
    intro x h0 h2
    have hmeanOver : meanOver {0, 2} x = 2 := by
      unfold meanOver
      rw [sum_pair (by decide), card_pair (by decide), h0, h2]
      norm_num
    refine ⟨hmeanOver, ?_⟩
    unfold unbiasedOver
    rw [sum_pair (by decide), card_pair (by decide), hmeanOver, h0, h2]
    norm_num
  have haverage : ∀ (bs : List (FoldedBatch ℝ ℝ)) (f : Tensor ℝ → ℝ) (start : ℝ),
      bs = [⟨sampleBatch, 1 / 2⟩, ⟨sampleStrided, 1 / 2⟩] → f sampleBatch = 2 →
      f sampleStrided = 2 →
      (1 - 1 / 2) ^ bs.length * start
        + ∑ i : Fin bs.length, 1 / 2 * (1 - 1 / 2) ^ (bs.length - (i + 1)) * f bs[i].input
        = 1 / 4 * start + 3 / 2 := by
    rintro _ f start rfl hbatch hstrided
    show (1 - 1 / 2) ^ 2 * start
      + ∑ i : Fin 2, 1 / 2 * (1 - 1 / 2) ^ (2 - ((i : ℕ) + 1))
        * f ([⟨sampleBatch, 1 / 2⟩, ⟨sampleStrided, 1 / 2⟩] : List (FoldedBatch ℝ ℝ))[i].input = _
    rw [Fin.sum_univ_two]
    show (1 - 1 / 2) ^ 2 * start + (1 / 2 * (1 - 1 / 2) ^ 1 * f sampleBatch
      + 1 / 2 * (1 - 1 / 2) ^ 0 * f sampleStrided) = _
    rw [hbatch, hstrided]
    ring
  obtain ⟨hmean₀, hvar₀⟩ := hblock sampleBatch.elem rfl rfl
  obtain ⟨hmean₁, hvar₁⟩ := hblock sampleStrided.elem rfl rfl
  rw [← hset] at hmean₀ hvar₀ hmean₁ hvar₁
  constructor
  · refine (hmean.trans (haverage _ (fun t => meanOver (channelSet t.dims 0) t.elem) _ hfolded
      hmean₀ hmean₁)).trans ?_
    show 1 / 4 * (0 : ℝ) + 3 / 2 = 3 / 2
    norm_num
  · refine (hvar.trans (haverage _ (fun t => unbiasedOver (channelSet t.dims 0) t.elem) _ hfolded
      hvar₀ hvar₁)).trans ?_
    show 1 / 4 * (3 : ℝ) + 3 / 2 = 9 / 4
    norm_num

end ChannelNorm

/-
  ChannelNorm.Proofs.InstanceNorm.Evaluation
  ──────────────────────────────────────────
  **WHAT EVALUATION DOES TO RUNNING STATISTICS.**

  In evaluation mode nothing is folded into the tiled running statistics, but
  they are averaged over the samples and written back all the same.  Every
  entry of the caller's tensors is then the average of as many copies of itself
  as there are samples, added up and divided in its own arithmetic:

      x  ↦  averageOfCopies N x        N samples
      N = 0:  an undefined value,      N > 0, exact arithmetic:  x itself

  In binary floating point a single sample restores everything but minus zero,
  and more of them round.  So a run of evaluations keeps an entry as long as
  every batch size in it does.
-/
import ChannelNorm.Proofs.BatchNorm.Layout
import ChannelNorm.Proofs.InstanceNorm.Folded
import ChannelNorm.Proofs.Scalar.Rounding

namespace ChannelNorm

variable {α A : Type}

/-! ## §1. Averages of copies, entry by entry. -/

section
variable [Arith α]

/-- The tensor with each entry replaced by the average of `n` copies of it. -/
def Tensor.averagedCopies (t : Tensor α) (n : Nat) : Tensor α :=
  t.overwrite (t.toList.map (averageOfCopies n))

theorem Tensor.toList_averagedCopies (t : Tensor α) (n : Nat) :
    (t.averagedCopies n).toList = t.toList.map (averageOfCopies n) :=
  toList_overwrite (by rw [List.length_map, length_toList])

/-- Averaging copies keeps a tensor exactly if it keeps every entry. -/
theorem Tensor.averagedCopies_alike_iff (t : Tensor α) (n : Nat) :
    (t.averagedCopies n).Alike t ↔ ∀ x ∈ t.toList, averageOfCopies n x = x := by
  constructor
  · intro h
    have hlist := h.contents
    rw [t.toList_averagedCopies] at hlist
    exact List.map_inj_left.1 (hlist.trans (List.map_id' _).symm)
  · intro h
    refine ⟨rfl, rfl, ?_⟩
    rw [t.toList_averagedCopies, List.map_congr_left h, List.map_id']

/-- Running statistics with each entry replaced by the average of `n` copies. -/
def ChannelStats.averagedCopies (s : ChannelStats α) (n : Nat) : ChannelStats α where
  mean := s.mean.map (·.averagedCopies n)
  var := s.var.map (·.averagedCopies n)

/-- Every entry is the average of `n` copies of itself. -/
def ChannelStats.RestoredBy (s : ChannelStats α) (n : Nat) : Prop :=
  ∀ t, s.mean = some t ∨ s.var = some t → ∀ x ∈ t.toList, averageOfCopies n x = x

/-- **Averaging copies keeps running statistics exactly if it restores every
entry.** -/
theorem ChannelStats.averagedCopies_alike_iff (s : ChannelStats α) (n : Nat) :
    (s.averagedCopies n).Alike s ↔ s.RestoredBy n := by
  have hentry : ∀ p : Option (Tensor α), OptionAlike (p.map (·.averagedCopies n)) p
      ↔ ∀ t, p = some t → ∀ x ∈ t.toList, averageOfCopies n x = x := by
    intro p
    cases p with
    | none => exact ⟨fun _ => nofun, fun _ => OptionAlike.refl (Option.none)⟩
    | some t =>
        constructor
        · intro h u hu
          cases hu
          cases h with
          | some h => exact (t.averagedCopies_alike_iff n).1 h
        · intro h
          exact .some ((t.averagedCopies_alike_iff n).2 (h t rfl))
  constructor
  · intro h t ht
    rcases ht with ht | ht
    · exact (hentry s.mean).1 h.mean t ht
    · exact (hentry s.var).1 h.var t ht
  · intro h
    exact ⟨(hentry s.mean).2 fun t ht => h t (.inl ht),
      (hentry s.var).2 fun t ht => h t (.inr ht)⟩

end

/-! ## §2. One evaluation. -/

section
variable [OrderedArith A] [Element α A]

/-- A statistic still as it was tiled is written back as averages of copies. -/
theorem InstanceNormPlan.writeBack_evaluation {p : InstanceNormPlan}
    {caller tiled written : Option (Tensor α)} (hfits : p.Fits caller)
    (htiled : p.repeatParam caller = .ok tiled) (hok : p.writeBack caller tiled = .ok written) :
    written = caller.map (·.averagedCopies p.batch) := by
  have h := hfits.repeatParam_tiled htiled
  cases caller with
  | none =>
      cases htiled
      cases hok
      rfl
  | some t =>
      obtain ⟨u, rfl⟩ := Option.isSome_iff_exists.1 h.isSome
      rw [writeBack_eq (h.onePerChannel u rfl)] at hok
      split at hok
      next hsize =>
        cases hok
        rw [averages_tiled h hsize]
        rfl
      next => cases hok

/-- Finishing a call that succeeds writes both statistics back. -/
theorem InstanceNormPlan.running_finish_of_ok {p : InstanceNormPlan} {running : ChannelStats α}
    {call : Run α A (Forward α)} {forward : Forward α}
    (hok : (p.finish running call).result = .ok forward) :
    ∃ mean var, p.writeBack running.mean call.running.mean = .ok mean
      ∧ p.writeBack running.var call.running.var = .ok var
      ∧ (p.finish running call).running = ⟨mean, var⟩ := by
  unfold finish at hok ⊢
  split at hok <;> try contradiction
  split at hok <;> try contradiction
  next hmean =>
    split at hok <;> try contradiction
    next hvar =>
      rw [hmean]
      dsimp only
      rw [hvar]
      exact ⟨_, _, rfl, rfl, rfl⟩

variable (ex : Executor) (registry : Registry α A) (enabled : Bool)

/-- **A native evaluation replaces every entry of the running statistics by the
average of copies of it**, one for each sample. -/
theorem running_instanceNormForward_evaluation {args : ForwardArgs α A}
    {running : ChannelStats α} {forward : Forward α} (ht : args.training = false)
    (hok : (instanceNormForward ex registry enabled args running).result = .ok forward)
    (hbackend : forward.backend = .native) :
    (instanceNormForward ex registry enabled args running).running
      = running.averagedCopies (args.input.dims.headD 0) := by
  rcases instanceNormForward_cases ex registry enabled args running with
    ⟨_, e, he⟩ | ⟨hfoldable, p, folded, tiled, hdims, hf, haccepted, hcall⟩
  · rw [he] at hok
    cases hok
  · rw [hcall] at hok ⊢
    -- the folded call ran natively, and leaves the tiled statistics alone
    obtain ⟨returned, hreturned, htag⟩ := InstanceNormPlan.result_finish hok
    have hkept : (batchNormForward ex registry enabled folded tiled).running = tiled :=
      (native_of_backend hreturned (htag.trans hbackend)).2.trans
        (nativeBatchNorm_inferred ex haccepted (hf.training.trans ht)).2
    obtain ⟨_, _, hmean, hvar⟩ := hfoldable.fits hdims
    obtain ⟨mean, var, hwmean, hwvar, hleft⟩ := InstanceNormPlan.running_finish_of_ok hok
    rw [hkept] at hwmean hwvar
    rw [hleft, InstanceNormPlan.writeBack_evaluation hmean hf.mean hwmean,
      InstanceNormPlan.writeBack_evaluation hvar hf.var hwvar,
      InstanceNormPlan.headD_of_dims hdims]
    rfl

/-! ## §3. Runs of evaluations. -/

/-- An instance-norm call and what it is made with. -/
structure InstanceNormCall (α A : Type) where
  ex : Executor
  registry : Registry α A
  enabled : Bool
  args : ForwardArgs α A

namespace InstanceNormCall

/-- Number of samples. -/
def batch (c : InstanceNormCall α A) : Nat :=
  c.args.input.dims.headD 0

/-- The call on given running statistics. -/
def run (c : InstanceNormCall α A) (running : ChannelStats α) : Run α A (Forward α) :=
  instanceNormForward c.ex c.registry c.enabled c.args running

/-- The call evaluates, and succeeds on the native implementation. -/
def Evaluates (c : InstanceNormCall α A) (running : ChannelStats α) : Prop :=
  c.args.training = false
    ∧ ∃ forward, (c.run running).result = .ok forward ∧ forward.backend = .native

/-- The running statistics after one call after another. -/
def runAll (calls : List (InstanceNormCall α A)) (running : ChannelStats α) : ChannelStats α :=
  calls.foldl (fun running c => (c.run running).running) running

/-- Every call of a run evaluates, on the running statistics it meets. -/
def AllEvaluate : List (InstanceNormCall α A) → ChannelStats α → Prop
  | [], _ => True
  | c :: rest, running => c.Evaluates running ∧ AllEvaluate rest (c.run running).running

/-- A call in evaluation mode whose result carries the native tag evaluates. -/
theorem evaluates_of_tag {c : InstanceNormCall α A} {running : ChannelStats α}
    (ht : c.args.training = false)
    (htag : (c.run running).result.toOption.map (·.backend) = some .native) :
    c.Evaluates running := by
  refine ⟨ht, ?_⟩
  cases hresult : (c.run running).result with
  | error e =>
      rw [hresult] at htag
      cases htag
  | ok forward =>
      rw [hresult] at htag
      exact ⟨forward, rfl, Option.some.inj htag⟩

/-- One call. -/
theorem Evaluates.running_eq {c : InstanceNormCall α A} {running : ChannelStats α}
    (h : c.Evaluates running) : (c.run running).running = running.averagedCopies c.batch := by
  obtain ⟨ht, forward, hok, hbackend⟩ := h
  exact running_instanceNormForward_evaluation c.ex c.registry c.enabled ht hok hbackend

/-- **A run of evaluations averages copies once for each call.** -/
theorem runAll_eq {calls : List (InstanceNormCall α A)} {running : ChannelStats α}
    (h : AllEvaluate calls running) :
    runAll calls running = (calls.map batch).foldl ChannelStats.averagedCopies running := by
  -- on the calls still to come; the statistics they meet change
  induction calls generalizing running with
  | nil => rfl
  | cons c rest ih =>
      obtain ⟨hcall, hrest⟩ := h
      show runAll rest (c.run running).running = _
      rw [ih hrest, hcall.running_eq]
      rfl

end InstanceNormCall

end

section
variable [Arith α]

/-- What restores the entries of alike statistics is the same. -/
theorem ChannelStats.Alike.restoredBy {s s' : ChannelStats α} (h : s.Alike s') {n : Nat}
    (hs : s'.RestoredBy n) : s.RestoredBy n := by
  have hentry : ∀ {p q : Option (Tensor α)} {t : Tensor α}, OptionAlike p q → p = some t →
      ∃ u, q = some u ∧ t.toList = u.toList := by
    intro p q t hpq hp
    cases hp
    cases hpq with
    | some htu => exact ⟨_, rfl, htu.contents⟩
  intro t ht
  rcases ht with ht | ht
  · obtain ⟨u, hu, hlist⟩ := hentry h.mean ht
    rw [hlist]
    exact hs u (.inl hu)
  · obtain ⟨u, hu, hlist⟩ := hentry h.var ht
    rw [hlist]
    exact hs u (.inr hu)

/-- **Statistics restored by every batch size of a run are kept by it.** -/
theorem ChannelStats.foldl_averagedCopies_alike {batches : List Nat} {s : ChannelStats α}
    (h : ∀ n ∈ batches, s.RestoredBy n) : (batches.foldl averagedCopies s).Alike s := by
  -- a step keeps the values, so that the next batch size restores them again
  suffices hrun : ∀ s' : ChannelStats α, s'.Alike s → (batches.foldl averagedCopies s').Alike s from
    hrun s (.refl s)
  induction batches with
  | nil => exact fun s' hs' => hs'
  | cons n rest ih =>
      intro s' hs'
      have hstep : (s'.averagedCopies n).Alike s' :=
        (s'.averagedCopies_alike_iff n).2 (hs'.restoredBy (h n List.mem_cons_self))
      exact ih (fun m hm => h m (List.mem_cons_of_mem n hm)) _ (hstep.trans hs')

end

/-! ## §4. Binary floating point. -/

section
variable {spec : Float.Model.Format}

/-- No entry is minus zero. -/
def ChannelStats.NoMinusZero [Arith α] [BinaryArith α spec] (s : ChannelStats α) : Prop :=
  ∀ t, s.mean = some t ∨ s.var = some t → ∀ x ∈ t.toList, ¬ BinaryArith.IsMinusZero x

/-- **One copy averages to itself, unless it is minus zero.** -/
theorem averageOfCopies_one_iff [Arith α] [BinaryArith α spec] {x : α} :
    averageOfCopies 1 x = x ↔ ¬ BinaryArith.IsMinusZero x := by
  show (0 + x) / ofCount 1 = x ↔ _
  rw [BinaryArith.div_ofCount_one, BinaryArith.zero_add_eq_iff]

/-- One sample restores statistics in which no entry is minus zero. -/
theorem ChannelStats.restoredBy_one_iff [Arith α] [BinaryArith α spec] (s : ChannelStats α) :
    s.RestoredBy 1 ↔ s.NoMinusZero := by
  unfold RestoredBy NoMinusZero
  simp only [averageOfCopies_one_iff]

end

/-! ## §5. Every evaluation. -/

namespace InstanceNormCall

/-- **What evaluation does to running statistics.**  A native evaluation replaces
every entry of the caller's running mean and running variance by the average of
one copy of it for each sample, added up and divided in the arithmetic it is
stored in, and changes nothing else about them.  It keeps them exactly if every
entry is such an average: with one sample, if no entry is minus zero.  A run of
evaluations keeps them if that is so for every batch size in it. -/
theorem evaluation_averages_copies [OrderedArith A] [Element α A] {spec : Float.Model.Format}
    [BinaryArith α spec] :
    (∀ (c : InstanceNormCall α A) (running : ChannelStats α), c.Evaluates running →
      (c.run running).running = running.averagedCopies c.batch
        ∧ ((c.run running).running.Alike running ↔ running.RestoredBy c.batch))
    ∧ (∀ (calls : List (InstanceNormCall α A)) (running : ChannelStats α),
      AllEvaluate calls running →
        runAll calls running = (calls.map batch).foldl ChannelStats.averagedCopies running
          ∧ ((∀ c ∈ calls, running.RestoredBy c.batch) → (runAll calls running).Alike running))
    ∧ ∀ running : ChannelStats α, running.RestoredBy 1 ↔ running.NoMinusZero := by
  refine ⟨?_, ?_, ChannelStats.restoredBy_one_iff⟩
  · intro c running h
    refine ⟨h.running_eq, ?_⟩
    rw [h.running_eq]
    exact running.averagedCopies_alike_iff c.batch
  · intro calls running h
    refine ⟨runAll_eq h, ?_⟩
    intro hrestored
    rw [runAll_eq h]
    apply ChannelStats.foldl_averagedCopies_alike
    intro n hn
    obtain ⟨c, hc, rfl⟩ := List.mem_map.1 hn
    exact hrestored c hc

/-- Three samples of one channel, evaluated. -/
def threeSamples : InstanceNormCall Float32 Float where
  ex := ⟨.standard, 4⟩
  registry := .empty
  enabled := false
  args :=
    { input := .build [3, 1] (by decide) [1, 2, 3] rfl .cpu
      weight := none
      bias := none
      training := false
      momentum := 0
      eps := 1 }

/-- Statistics of one channel, of variance one. -/
def oneChannel (mean : Float32) : ChannelStats Float32 :=
  ⟨some (.few 1 mean), some (.few 1 1)⟩

/-- Its mean is restored when averaging copies restores it and one. -/
theorem restoredBy_oneChannel {mean : Float32} {n : Nat} (hmean : averageOfCopies n mean = mean)
    (hone : averageOfCopies n (1 : Float32) = 1) : (oneChannel mean).RestoredBy n := by
  intro t ht x hx
  rcases ht with ht | ht
  · cases ht
    rw [Tensor.toList_few] at hx
    rw [List.eq_of_mem_replicate hx, hmean]
  · cases ht
    rw [Tensor.toList_few] at hx
    rw [List.eq_of_mem_replicate hx, hone]

/-- A mean of one is kept by one evaluation after another. -/
theorem evaluation_averages_copies_kept :
    threeSamples.Evaluates (oneChannel 1)
      ∧ (threeSamples.run (oneChannel 1)).running.Alike (oneChannel 1)
      ∧ AllEvaluate [threeSamples, threeSamples] (oneChannel 1)
      ∧ (runAll [threeSamples, threeSamples] (oneChannel 1)).Alike (oneChannel 1) := by
  have hcall : threeSamples.Evaluates (oneChannel 1) := evaluates_of_tag rfl (by decide +kernel)
  have hcalls : AllEvaluate [threeSamples, threeSamples] (oneChannel 1) :=
    ⟨hcall, evaluates_of_tag rfl (by decide +kernel), trivial⟩
  have hone : averageOfCopies 3 (1 : Float32) = 1 := by decide +kernel
  have hrestored : (oneChannel 1).RestoredBy 3 := restoredBy_oneChannel hone hone
  refine ⟨hcall, ?_, hcalls, ?_⟩
  · exact (evaluation_averages_copies.1 threeSamples _ hcall).2.2 hrestored
  · apply (evaluation_averages_copies.2.1 _ _ hcalls).2
    intro c hc
    have hc : c = threeSamples := by simpa using hc
    rw [hc]
    exact hrestored

/-- A mean of `11184814` is not: the sum of three copies has to be rounded. -/
theorem evaluation_changes_mean :
    let running := oneChannel 11184814
    threeSamples.Evaluates running
      ∧ running.mean.map Tensor.toList = some [11184814]
      ∧ (threeSamples.run running).running.mean.map Tensor.toList = some [11184813]
      ∧ (11184813 : Float32) ≠ 11184814 := by
  intro running
  have hcall : threeSamples.Evaluates running := evaluates_of_tag rfl (by decide +kernel)
  have haverage : averageOfCopies 3 (11184814 : Float32) = 11184813 := by decide +kernel
  refine ⟨hcall, congrArg some (Tensor.toList_few 1 _), ?_, by decide +kernel⟩
  rw [hcall.running_eq]
  show some ((Tensor.few 1 (11184814 : Float32)).averagedCopies 3).toList = _
  rw [Tensor.toList_averagedCopies, Tensor.toList_few]
  exact congrArg (some [·]) haverage

end InstanceNormCall

end ChannelNorm

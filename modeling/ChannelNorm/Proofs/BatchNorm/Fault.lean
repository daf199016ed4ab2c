/-
  ChannelNorm.Proofs.BatchNorm.Fault
  ──────────────────────────────────
  **WHAT IS WRONG WITH A CALL, AND WHICH FAULT IS REPORTED.**

  The faults of a call are listed in the order in which they are looked for:
  the rank, then the statistics, then the affine parameters.  A check reports
  the first one on the list and passes when the list is empty:

      checkForward op args running = .error e  ↔  (args.faults op running).head? = some e
      args.faults op running = []              ↔  args.Accepted running

  Reporting the first fault is kept by sequencing, so each check is read off
  its steps.
-/
import ChannelNorm.Proofs.BatchNorm.Check

namespace ChannelNorm

variable {α A β γ : Type}

/-! ## §1. Checks that report the first fault. -/

/-- A check fails with the first of the given faults, and with nothing else. -/
def ReportsFirst (faults : List TensorError) (r : Except TensorError β) : Prop :=
  ∀ e, r = .error e ↔ faults.head? = some e

namespace ReportsFirst

variable {faults more : List TensorError} {r : Except TensorError β}

/-- A step that cannot fail has no faults. -/
theorem ok (v : β) : ReportsFirst [] (.ok v) := by
  intro e
  constructor
  · rintro ⟨⟩
  · rintro ⟨⟩

/-- A step that fails outright leaves later faults unreported. -/
theorem error (e : TensorError) (more : List TensorError) :
    ReportsFirst (e :: more) (.error e : Except TensorError β) := by
  intro e'
  constructor
  · rintro ⟨⟩
    rfl
  · rintro ⟨⟩
    rfl

/-- Without faults a check passes. -/
theorem exists_ok (h : ReportsFirst [] r) : ∃ v, r = .ok v := by
  cases r with
  | ok v => exact ⟨v, rfl⟩
  | error e => exact nomatch (h e).1 rfl

/-- A check that passes had no faults. -/
theorem eq_nil {v : β} (h : ReportsFirst faults (.ok v)) : faults = [] := by
  cases faults with
  | nil => rfl
  | cons e es => exact nomatch (h e).2 rfl

/-- The faults of a step come before those of the rest of the check. -/
theorem bind {f : β → Except TensorError γ} (h : ReportsFirst faults r)
    (hf : ∀ v, r = .ok v → ReportsFirst more (f v)) :
    ReportsFirst (faults ++ more) (r >>= f) := by
  cases r with
  | ok v =>
      rw [h.eq_nil, List.nil_append]
      exact hf v rfl
  | error e =>
      intro e'
      have hhead : faults.head? = some e := (h e).1 rfl
      rw [List.head?_append, hhead]
      constructor
      · rintro ⟨⟩
        rfl
      · rintro ⟨⟩
        rfl

/-- What a check does with what it checked has no faults. -/
theorem map {f : β → γ} (h : ReportsFirst faults r) : ReportsFirst faults (r.map f) := by
  cases r with
  | ok v =>
      rw [h.eq_nil]
      exact ok (f v)
  | error e =>
      intro e'
      have herror : (Except.error e : Except TensorError β) = .error e' ↔ faults.head? = some e' :=
        h e'
      rw [← herror]
      constructor <;> (rintro ⟨⟩; rfl)

end ReportsFirst

/-! ## §2. Two calls. -/

/-- Two calls fail with one error, or both return and what they return is
related. -/
inductive OutcomeRel {ρ : Type} (R : ρ → ρ → Prop) :
    Except TensorError ρ → Except TensorError ρ → Prop
  | ok {r s : ρ} : R r s → OutcomeRel R (.ok r) (.ok s)
  | error (e : TensorError) : OutcomeRel R (.error e) (.error e)

namespace OutcomeRel

variable {R : β → β → Prop} {S : γ → γ → Prop} {x y : Except TensorError β}

theorem refl (hR : ∀ r, R r r) (x : Except TensorError β) : OutcomeRel R x x := by
  cases x with
  | error e => exact .error e
  | ok r => exact .ok (hR r)

/-- Returning the same is being equal. -/
theorem eq (h : OutcomeRel Eq x y) : x = y := by
  cases h with
  | error e => rfl
  | ok h => exact congrArg Except.ok h

theorem bind {f g : β → Except TensorError γ} (h : OutcomeRel R x y)
    (hfg : ∀ r s, R r s → OutcomeRel S (f r) (g s)) : OutcomeRel S (x >>= f) (y >>= g) := by
  cases h with
  | error e => exact .error e
  | ok h => exact hfg _ _ h

/-- One call, continued in two ways. -/
theorem bind_self {f g : β → Except TensorError γ} (x : Except TensorError β)
    (hfg : ∀ r, x = .ok r → OutcomeRel S (f r) (g r)) : OutcomeRel S (x >>= f) (x >>= g) := by
  cases x with
  | error e => exact .error e
  | ok r => exact hfg r rfl

theorem map {f g : β → γ} (h : OutcomeRel R x y) (hfg : ∀ r s, R r s → S (f r) (g s)) :
    OutcomeRel S (x.map f) (y.map g) := by
  cases h with
  | error e => exact .error e
  | ok h => exact .ok (hfg _ _ h)

theorem mono {R' : β → β → Prop} (h : OutcomeRel R x y)
    (hR : ∀ r s, x = .ok r → y = .ok s → R r s → R' r s) : OutcomeRel R' x y := by
  cases h with
  | error e => exact .error e
  | ok h => exact .ok (hR _ _ rfl rfl h)

/-- The first faults of related calls are the same. -/
theorem head?_faults {faults faults' : List TensorError} (h : OutcomeRel R x y)
    (hx : ReportsFirst faults x) (hy : ReportsFirst faults' y) : faults.head? = faults'.head? := by
  ext e
  rw [← hx e, ← hy e]
  cases h with
  | error e => exact ⟨fun h => by cases h; rfl, fun h => by cases h; rfl⟩
  | ok h => exact iff_of_false nofun nofun

/-- What is related to a call that returned has returned, too. -/
theorem exists_of_ok {r : β} (h : OutcomeRel R (.ok r) y) : ∃ s, y = .ok s ∧ R r s := by
  cases h with
  | ok h => exact ⟨_, rfl, h⟩

end OutcomeRel

/-! ## §3. One parameter. -/

/-- What is wrong with a parameter that may be missing. -/
def paramFaults (operation name : String) (channels : Nat) :
    Option (Tensor α) → List TensorError
  | none => []
  | some p =>
      if p.numel = channels then [] else [.channelCount operation name channels p.numel p.dims]

/-- What is wrong with a statistic that the mode reads. -/
def requiredFaults (operation name mode : String) (channels : Nat) :
    Option (Tensor α) → List TensorError
  | none => [.missingStatistic operation name mode]
  | some p => paramFaults operation name channels (some p)

/-- The kinds of fault there are: an input without a channel axis is reported by
its shape, then a tensor by its size or, where statistics are needed, a missing
one as such. -/
def TensorError.IsArgumentFault (e : TensorError) (rank : Nat) (needed : Bool) : Prop :=
  if rank < 2 then ∃ reason shape, e.fault = .invalidShape reason shape
  else (∃ expected got, e.fault = .shapeMismatch expected got)
    ∨ needed = true ∧ ∃ reason, e.fault = .missingState reason

/-- Without a channel axis, a fault of the shape. -/
theorem TensorError.isArgumentFault_of_invalidShape {e : TensorError} {rank : Nat} {needed : Bool}
    {reason : String} {shape : List Nat} (hrank : rank < 2)
    (h : e.fault = .invalidShape reason shape) : e.IsArgumentFault rank needed := by
  unfold IsArgumentFault
  rw [if_pos hrank]
  exact ⟨reason, shape, h⟩

/-- With one, a mismatch of sizes. -/
theorem TensorError.isArgumentFault_of_shapeMismatch {e : TensorError} {rank : Nat} {needed : Bool}
    {expected got : String} (hrank : ¬ rank < 2)
    (h : e.fault = .shapeMismatch expected got) : e.IsArgumentFault rank needed := by
  unfold IsArgumentFault
  rw [if_neg hrank]
  exact .inl ⟨expected, got, h⟩

section
variable (operation name mode : String) (channels : Nat)

theorem checkParam_reports (p : Tensor α) :
    ReportsFirst (paramFaults operation name channels (some p))
      (checkParam operation name channels p) := by
  unfold checkParam paramFaults
  dsimp only
  split
  · exact .ok _
  · exact .error _ []

theorem checkOptional_reports (p : Option (Tensor α)) :
    ReportsFirst (paramFaults operation name channels p)
      (checkOptional operation name channels p) := by
  cases p with
  | none => exact .ok none
  | some p => exact (checkParam_reports operation name channels p).map

theorem checkRequired_reports (p : Option (Tensor α)) :
    ReportsFirst (requiredFaults operation name mode channels p)
      (checkRequired operation name mode channels p) := by
  cases p with
  | none => exact .error _ []
  | some p => exact checkParam_reports operation name channels p

variable {operation name mode channels} {e : TensorError} {rank : Nat}

theorem isArgumentFault_of_mem_paramFaults {p : Option (Tensor α)} {needed : Bool}
    (hrank : ¬ rank < 2) (h : e ∈ paramFaults operation name channels p) :
    e.operation = operation ∧ e.IsArgumentFault rank needed := by
  unfold paramFaults at h
  split at h
  · exact nomatch h
  · split at h
    · exact nomatch h
    · rw [List.mem_singleton.1 h]
      exact ⟨rfl, TensorError.isArgumentFault_of_shapeMismatch hrank rfl⟩

theorem isArgumentFault_of_mem_requiredFaults {p : Option (Tensor α)} (hrank : ¬ rank < 2)
    (h : e ∈ requiredFaults operation name mode channels p) :
    e.operation = operation ∧ e.IsArgumentFault rank true := by
  unfold requiredFaults at h
  split at h
  · rw [List.mem_singleton.1 h]
    unfold TensorError.IsArgumentFault
    rw [if_neg hrank]
    exact ⟨rfl, .inr ⟨rfl, _, rfl⟩⟩
  · exact isArgumentFault_of_mem_paramFaults hrank h

/-- Only the shape of a parameter is looked at. -/
theorem paramFaults_congr {p q : Option (Tensor α)} (h : p.map Tensor.dims = q.map Tensor.dims) :
    paramFaults operation name channels p = paramFaults operation name channels q := by
  have hshape : ∀ o : Option (Tensor α), paramFaults operation name channels o
      = (o.map Tensor.dims).elim [] fun dims =>
          if volume dims = channels then []
          else [.channelCount operation name channels (volume dims) dims] := by
    rintro (_ | t)
    · rfl
    · rfl
  rw [hshape p, hshape q, h]

theorem requiredFaults_congr {p q : Option (Tensor α)}
    (h : p.map Tensor.dims = q.map Tensor.dims) :
    requiredFaults operation name mode channels p
      = requiredFaults operation name mode channels q := by
  cases p with
  | none =>
      cases q with
      | none => rfl
      | some u => cases h
  | some t =>
      cases q with
      | none => cases h
      | some u => exact paramFaults_congr h

theorem paramFaults_eq_nil {p : Option (Tensor α)} :
    paramFaults operation name channels p = [] ↔ OnePerChannel channels p := by
  cases p with
  | none => simp [paramFaults, OnePerChannel]
  | some p => simp [paramFaults, OnePerChannel]

theorem requiredFaults_eq_nil {p : Option (Tensor α)} :
    requiredFaults operation name mode channels p = []
      ↔ OnePerChannel channels p ∧ p.isSome = true := by
  cases p with
  | none => simp [requiredFaults]
  | some p =>
      constructor
      · intro h
        exact ⟨paramFaults_eq_nil.1 h, rfl⟩
      · intro h
        exact paramFaults_eq_nil.2 h.1

end

/-! ## §4. Forward calls. -/

/-- What is wrong with a running statistic: only evaluation needs it. -/
def statisticFaults (operation name : String) (training : Bool) (channels : Nat)
    (p : Option (Tensor α)) : List TensorError :=
  if training then paramFaults operation name channels p
  else requiredFaults operation name "evaluation" channels p

theorem statisticFaults_eq_nil {operation name : String} {training : Bool} {channels : Nat}
    {p : Option (Tensor α)} :
    statisticFaults operation name training channels p = []
      ↔ OnePerChannel channels p ∧ (training = false → p.isSome = true) := by
  cases training with
  | true =>
      show paramFaults operation name channels p = [] ↔ _
      simp [paramFaults_eq_nil]
  | false =>
      show requiredFaults operation name "evaluation" channels p = [] ↔ _
      simp [requiredFaults_eq_nil]

/-- What is wrong with a forward call.  Without a channel axis there is no
number of channels to compare with. -/
def ForwardArgs.faults (args : ForwardArgs α A) (operation : String)
    (running : ChannelStats α) : List TensorError :=
  let channels := args.input.channels
  if args.input.rank < 2 then [.noChannelAxis operation args.input.dims]
  else
    statisticFaults operation "running_mean" args.training channels running.mean
      ++ statisticFaults operation "running_var" args.training channels running.var
      ++ (paramFaults operation "weight" channels args.weight
        ++ paramFaults operation "bias" channels args.bias)

/-- The faults of a forward call depend on its shapes and its mode. -/
theorem ForwardArgs.faults_congr {args args' : ForwardArgs α A}
    {running running' : ChannelStats α} (hinput : args.input.dims = args'.input.dims)
    (hweight : args.weight.map Tensor.dims = args'.weight.map Tensor.dims)
    (hbias : args.bias.map Tensor.dims = args'.bias.map Tensor.dims)
    (hmean : running.mean.map Tensor.dims = running'.mean.map Tensor.dims)
    (hvar : running.var.map Tensor.dims = running'.var.map Tensor.dims)
    (ht : args.training = args'.training) (operation : String) :
    args.faults operation running = args'.faults operation running' := by
  unfold faults statisticFaults Tensor.rank Tensor.channels
  simp only [hinput, ht, paramFaults_congr hweight, paramFaults_congr hbias,
    paramFaults_congr hmean, paramFaults_congr hvar, requiredFaults_congr hmean,
    requiredFaults_congr hvar]

/-- **A forward check reports the first fault.** -/
theorem checkForward_reports (operation : String) (args : ForwardArgs α A)
    (running : ChannelStats α) :
    ReportsFirst (args.faults operation running) (checkForward operation args running) := by
  unfold ForwardArgs.faults checkForward
  dsimp only
  split
  · exact .error _ []
  -- the affine parameters are looked at in both modes, after the statistics
  have haffine : ∀ mode : NormMode α args.input.channels,
      ReportsFirst (paramFaults operation "weight" args.input.channels args.weight
          ++ paramFaults operation "bias" args.input.channels args.bias)
        (do
          let weight ← checkOptional operation "weight" args.input.channels args.weight
          let bias ← checkOptional operation "bias" args.input.channels args.bias
          return { mode, weight, bias } :
            Except TensorError (ForwardParams α args.input.channels)) :=
    fun _ => .bind (checkOptional_reports _ _ _ _) fun _ _ => (checkOptional_reports _ _ _ _).map
  rw [List.append_assoc]
  cases args.training with
  | true =>
      refine .bind (checkOptional_reports _ _ _ running.mean) fun _ _ => ?_
      exact .bind (checkOptional_reports _ _ _ running.var) fun _ _ => haffine .training
  | false =>
      refine .bind (checkRequired_reports _ _ _ _ running.mean) fun mean _ => ?_
      exact .bind (checkRequired_reports _ _ _ _ running.var) fun var _ =>
        haffine (.evaluation mean var)

/-- A call without faults is an accepted one. -/
theorem ForwardArgs.faults_eq_nil {args : ForwardArgs α A} {operation : String}
    {running : ChannelStats α} : args.faults operation running = [] ↔ args.Accepted running := by
  unfold ForwardArgs.faults
  dsimp only
  split
  next hrank =>
    constructor
    · rintro ⟨⟩
    · intro h
      exact absurd h.rank (Nat.not_le.2 hrank)
  next hrank =>
    simp only [List.append_eq_nil_iff, statisticFaults_eq_nil, paramFaults_eq_nil]
    constructor
    · rintro ⟨⟨⟨hmean, hsm⟩, hvar, hsv⟩, hweight, hbias⟩
      exact ⟨Nat.not_lt.1 hrank, hweight, hbias, hmean, hvar, fun ht => ⟨hsm ht, hsv ht⟩⟩
    · intro h
      exact ⟨⟨⟨h.mean, fun ht => (h.statistics ht).1⟩, h.var, fun ht => (h.statistics ht).2⟩,
        h.weight, h.bias⟩

/-- Every fault of a forward call names the call; a statistic can be missing in
evaluation only. -/
theorem ForwardArgs.isArgumentFault_of_mem_faults {args : ForwardArgs α A} {operation : String}
    {running : ChannelStats α} {e : TensorError} (h : e ∈ args.faults operation running) :
    e.operation = operation ∧ e.IsArgumentFault args.input.rank (!args.training) := by
  unfold ForwardArgs.faults at h
  dsimp only at h
  split at h
  next hrank =>
    rw [List.mem_singleton.1 h]
    exact ⟨rfl, TensorError.isArgumentFault_of_invalidShape hrank rfl⟩
  next hrank =>
    have hstat : ∀ {name : String} {p : Option (Tensor α)},
        e ∈ statisticFaults operation name args.training args.input.channels p →
          e.operation = operation ∧ e.IsArgumentFault args.input.rank (!args.training) := by
      intro name p h
      unfold statisticFaults at h
      cases ht : args.training with
      | true =>
          rw [if_pos ht] at h
          exact isArgumentFault_of_mem_paramFaults hrank h
      | false =>
          rw [if_neg (ht ▸ Bool.false_ne_true)] at h
          exact isArgumentFault_of_mem_requiredFaults hrank h
    simp only [List.mem_append] at h
    obtain (h | h) | h | h := h
    · exact hstat h
    · exact hstat h
    · exact isArgumentFault_of_mem_paramFaults hrank h
    · exact isArgumentFault_of_mem_paramFaults hrank h

/-! ## §5. Updates of the statistics. -/

/-- What is wrong with an update of the statistics. -/
def updateFaults (input : Tensor α) (running : ChannelStats α) : List TensorError :=
  if input.rank < 2 then [.noChannelsToUpdate input.dims]
  else
    paramFaults "batch_norm_update_stats" "running_mean" input.channels running.mean
      ++ paramFaults "batch_norm_update_stats" "running_var" input.channels running.var

theorem updateFaults_congr {input input' : Tensor α} {running running' : ChannelStats α}
    (hinput : input.dims = input'.dims)
    (hmean : running.mean.map Tensor.dims = running'.mean.map Tensor.dims)
    (hvar : running.var.map Tensor.dims = running'.var.map Tensor.dims) :
    updateFaults input running = updateFaults input' running' := by
  unfold updateFaults Tensor.rank Tensor.channels
  rw [hinput, paramFaults_congr hmean, paramFaults_congr hvar]

theorem checkUpdate_reports (input : Tensor α) (running : ChannelStats α) :
    ReportsFirst (updateFaults input running) (checkUpdate input running) := by
  unfold updateFaults checkUpdate
  split
  · exact .error _ []
  · refine .bind (checkOptional_reports _ _ _ running.mean) fun _ _ => ?_
    exact (checkOptional_reports _ _ _ running.var).map

/-- Every fault of an update names the update, and none is a missing statistic. -/
theorem isArgumentFault_of_mem_updateFaults {input : Tensor α} {running : ChannelStats α}
    {e : TensorError} (h : e ∈ updateFaults input running) :
    e.operation = "batch_norm_update_stats" ∧ e.IsArgumentFault input.rank false := by
  unfold updateFaults at h
  split at h
  next hrank =>
    rw [List.mem_singleton.1 h]
    exact ⟨rfl, TensorError.isArgumentFault_of_invalidShape hrank rfl⟩
  next hrank =>
    rw [List.mem_append] at h
    obtain h | h := h
    · exact isArgumentFault_of_mem_paramFaults hrank h
    · exact isArgumentFault_of_mem_paramFaults hrank h

theorem updateFaults_eq_nil {input : Tensor α} {running : ChannelStats α} :
    updateFaults input running = []
      ↔ 2 ≤ input.rank ∧ OnePerChannel input.channels running.mean
        ∧ OnePerChannel input.channels running.var := by
  unfold updateFaults
  split
  next hrank => simp [Nat.not_le.2 hrank]
  next hrank =>
    rw [List.append_eq_nil_iff, paramFaults_eq_nil, paramFaults_eq_nil,
      and_iff_right (Nat.not_lt.1 hrank)]

/-! ## §6. Backward calls. -/

/-- What is wrong with the incoming gradient. -/
def gradientFaults (operation : String) (input gradOutput : Tensor α) : List TensorError :=
  if gradOutput.sameShape input then []
  else [.gradientShape operation input.shape gradOutput.shape]

/-- What is wrong with a backward call.  Only the statistics of its mode are
looked at. -/
def BackwardArgs.faults (args : BackwardArgs α A) (operation : String) : List TensorError :=
  let channels := args.input.channels
  if args.input.rank < 2 then [.noChannelAxis operation args.input.dims]
  else
    gradientFaults operation args.input args.gradOutput
      ++ (paramFaults operation "weight" channels args.weight
        ++ if args.training then
            requiredFaults operation "save_mean" "training" channels args.saved.mean
              ++ requiredFaults operation "save_invstd" "training" channels args.saved.var
          else
            requiredFaults operation "running_mean" "evaluation" channels args.running.mean
              ++ requiredFaults operation "running_var" "evaluation" channels args.running.var)

/-- The faults of a backward call depend on its shapes and its mode. -/
theorem BackwardArgs.faults_congr {args args' : BackwardArgs α A}
    (hgrad : args.gradOutput.dims = args'.gradOutput.dims)
    (hinput : args.input.dims = args'.input.dims)
    (hweight : args.weight.map Tensor.dims = args'.weight.map Tensor.dims)
    (hrmean : args.running.mean.map Tensor.dims = args'.running.mean.map Tensor.dims)
    (hrvar : args.running.var.map Tensor.dims = args'.running.var.map Tensor.dims)
    (hsmean : args.saved.mean.map Tensor.dims = args'.saved.mean.map Tensor.dims)
    (hsvar : args.saved.var.map Tensor.dims = args'.saved.var.map Tensor.dims)
    (ht : args.training = args'.training) (operation : String) :
    args.faults operation = args'.faults operation := by
  unfold faults gradientFaults Tensor.sameShape Tensor.shape Tensor.rank Tensor.channels
  simp only [hgrad, hinput, ht, paramFaults_congr hweight, requiredFaults_congr hrmean,
    requiredFaults_congr hrvar, requiredFaults_congr hsmean, requiredFaults_congr hsvar]

/-- **A backward check reports the first fault.** -/
theorem checkBackward_reports (operation : String) (args : BackwardArgs α A) :
    ReportsFirst (args.faults operation) (checkBackward operation args) := by
  unfold BackwardArgs.faults checkBackward gradientFaults
  dsimp only
  split
  · exact .error _ []
  cases args.gradOutput.sameShape args.input with
  | false => exact .error _ _
  | true =>
      rw [if_pos rfl, List.nil_append]
      refine .bind (checkOptional_reports _ _ _ args.weight) fun _ _ => ?_
      cases args.training with
      | true =>
          rw [if_pos rfl]
          refine .bind (checkRequired_reports _ _ _ _ args.saved.mean) fun _ _ => ?_
          exact (checkRequired_reports _ _ _ _ args.saved.var).map
      | false =>
          rw [if_neg Bool.false_ne_true]
          refine .bind (checkRequired_reports _ _ _ _ args.running.mean) fun _ _ => ?_
          exact (checkRequired_reports _ _ _ _ args.running.var).map

/-- A backward call without faults is an accepted one. -/
theorem BackwardArgs.faults_eq_nil {args : BackwardArgs α A} {operation : String} :
    args.faults operation = [] ↔ args.Accepted := by
  have hgradient : gradientFaults operation args.input args.gradOutput = []
      ↔ args.gradOutput.dims = args.input.dims := by
    unfold gradientFaults Tensor.sameShape
    simp
  -- which statistics are required depends on the mode
  have hstatistics : (if args.training then
        requiredFaults operation "save_mean" "training" args.input.channels args.saved.mean
          ++ requiredFaults operation "save_invstd" "training" args.input.channels args.saved.var
      else
        requiredFaults operation "running_mean" "evaluation" args.input.channels args.running.mean
          ++ requiredFaults operation "running_var" "evaluation" args.input.channels
            args.running.var) = []
      ↔ (OnePerChannel args.input.channels args.statistics.mean
          ∧ args.statistics.mean.isSome = true)
        ∧ OnePerChannel args.input.channels args.statistics.var
          ∧ args.statistics.var.isSome = true := by
    unfold BackwardArgs.statistics
    split <;> rw [List.append_eq_nil_iff, requiredFaults_eq_nil, requiredFaults_eq_nil]
  unfold BackwardArgs.faults
  dsimp only
  split
  next hrank =>
    constructor
    · rintro ⟨⟩
    · intro h
      exact absurd h.rank (Nat.not_le.2 hrank)
  next hrank =>
    rw [List.append_eq_nil_iff, List.append_eq_nil_iff, hgradient, paramFaults_eq_nil, hstatistics]
    constructor
    · rintro ⟨hgrad, hweight, ⟨hmean, hsm⟩, hvar, hsv⟩
      exact ⟨Nat.not_lt.1 hrank, hgrad, hweight, hmean, hvar, hsm, hsv⟩
    · intro h
      exact ⟨h.gradient, h.weight, ⟨h.mean, h.hasMean⟩, h.var, h.hasVar⟩

/-- Every fault of a backward call names the call; it always needs statistics. -/
theorem BackwardArgs.isArgumentFault_of_mem_faults {args : BackwardArgs α A} {operation : String}
    {e : TensorError} (h : e ∈ args.faults operation) :
    e.operation = operation ∧ e.IsArgumentFault args.input.rank true := by
  unfold BackwardArgs.faults at h
  dsimp only at h
  split at h
  next hrank =>
    rw [List.mem_singleton.1 h]
    exact ⟨rfl, TensorError.isArgumentFault_of_invalidShape hrank rfl⟩
  next hrank =>
    have hgradient : e ∈ gradientFaults operation args.input args.gradOutput →
        e.operation = operation ∧ e.IsArgumentFault args.input.rank true := by
      intro h
      unfold gradientFaults at h
      split at h
      · exact nomatch h
      · rw [List.mem_singleton.1 h]
        exact ⟨rfl, TensorError.isArgumentFault_of_shapeMismatch hrank rfl⟩
    rw [List.mem_append, List.mem_append] at h
    obtain h | h | h := h
    · exact hgradient h
    · exact isArgumentFault_of_mem_paramFaults hrank h
    · split at h
      all_goals
        rw [List.mem_append] at h
        exact h.elim (isArgumentFault_of_mem_requiredFaults hrank)
          (isArgumentFault_of_mem_requiredFaults hrank)

/-- A backward call that passed its check is an accepted one. -/
theorem accepted_of_checkBackward {operation : String} {args : BackwardArgs α A}
    {params : BackwardParams α args.input.channels}
    (h : checkBackward operation args = .ok params) : args.Accepted := by
  have hreports := checkBackward_reports operation args
  rw [h] at hreports
  exact BackwardArgs.faults_eq_nil.1 hreports.eq_nil

end ChannelNorm

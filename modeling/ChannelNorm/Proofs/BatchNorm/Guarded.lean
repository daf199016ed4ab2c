/-
  ChannelNorm.Proofs.BatchNorm.Guarded
  ────────────────────────────────────
  **NOTHING FAILS AFTER THE CHECKS.**

  The forward and the update once more, as sequences of steps that may not go
  through.  Every index, slice, integer division and cut into chunks halts when
  its operand is out of range, every constructor that can refuse does, and the
  running statistics are written in place, so that what was written before a
  halt stays written.  No step takes anything from the checks but that they
  passed.  Memory is taken to be there.

      (Guarded.nativeBatchNorm ex args).after running
        =  (result with refusals as halts, running statistics)

  Both forms agree on all arguments, so a call halts at its checks or nowhere.
-/
import ChannelNorm.Proofs.BatchNorm.Outcome
import ChannelNorm.Proofs.Tensor.Buffer

namespace ChannelNorm

/-! ## §1. Steps that may not go through. -/

/-- How a call ends early. -/
inductive Halt where
  | refused (e : TensorError)
  | panicked

/-- A step that may halt the call. -/
abbrev Guarded (β : Type) : Type :=
  Except Halt β

/-- A step that may also write the running statistics.  What it wrote is there
whether or not the call halts later. -/
abbrev StatsStep (α β : Type) : Type :=
  ExceptT Halt (StateM (ChannelStats α)) β

/-- How a call ends, and the running statistics it leaves. -/
def StatsStep.after {α β : Type} (step : StatsStep α β) (running : ChannelStats α) :
    Guarded β × ChannelStats α :=
  step.run.run running

namespace Guarded

variable {α β γ : Type}

/-- Something that must hold. -/
def require (p : Prop) [Decidable p] : Guarded Unit :=
  if p then pure () else throw .panicked

/-- An entry, at an index that must be in range. -/
def entry (xs : List β) (k : Nat) : Guarded β :=
  match xs[k]? with
  | some x => pure x
  | none => throw .panicked

/-- A quotient, by a divisor that must not be zero. -/
def quotient (m n : Nat) : Guarded Nat := do
  require (n ≠ 0)
  return m / n

/-- A remainder, by a divisor that must not be zero. -/
def remainder (m n : Nat) : Guarded Nat := do
  require (n ≠ 0)
  return m % n

/-- Consecutive chunks, of a size that must not be zero. -/
def chunks (k : Nat) (xs : List β) : Guarded (List (List β)) := do
  require (k ≠ 0)
  return chunksOf k xs

/-- A channel, of a tensor that must have it. -/
def slice (t : Tensor α) (c : Nat) : Guarded (List α) := do
  require (2 ≤ t.rank ∧ c < t.channels)
  return t.plane c

/-- A value that is refused when it is missing. -/
def orRefuse (e : TensorError) : Option β → Guarded β
  | some x => pure x
  | none => throw (.refused e)

/-- A result whose error refuses the call. -/
def ofExcept (r : Except TensorError β) : Guarded β :=
  r.mapError .refused

theorem ofExcept_ok {r : Except TensorError β} {v : β} (h : r = .ok v) :
    ofExcept r = pure v := by
  rw [h]
  rfl

theorem ofExcept_error {r : Except TensorError β} {e : TensorError} (h : r = .error e) :
    ofExcept r = throw (.refused e) := by
  rw [h]
  rfl

theorem require_ok {p : Prop} [Decidable p] (h : p) : require p = pure () :=
  if_pos h

theorem entry_ok {xs : List β} {k : Nat} {x : β} (h : xs[k]? = some x) :
    entry xs k = pure x := by
  unfold entry
  rw [h]

theorem quotient_ok {m n : Nat} (h : n ≠ 0) : quotient m n = pure (m / n) := by
  unfold quotient
  rw [require_ok h, pure_bind]

theorem remainder_ok {m n : Nat} (h : n ≠ 0) : remainder m n = pure (m % n) := by
  unfold remainder
  rw [require_ok h, pure_bind]

theorem chunks_ok {k : Nat} (h : k ≠ 0) (xs : List β) : chunks k xs = pure (chunksOf k xs) := by
  unfold chunks
  rw [require_ok h, pure_bind]

theorem slice_ok {t : Tensor α} {c : Nat} (hrank : 2 ≤ t.rank) (hc : c < t.channels) :
    slice t c = pure (t.plane c) := by
  unfold slice
  rw [require_ok ⟨hrank, hc⟩, pure_bind]

/-- A loop whose steps all go through. -/
theorem mapM_ok {f : β → Guarded γ} {g : β → γ} {xs : List β}
    (h : ∀ x ∈ xs, f x = pure (g x)) : xs.mapM f = pure (xs.map g) := by
  induction xs with
  | nil => rfl
  | cons x xs ih =>
      rw [List.mapM_cons, h x (by simp), ih fun y hy => h y (by simp [hy])]
      rfl

/-- A loop whose steps go through from every state it can be in. -/
theorem foldlM_ok {f : γ → β → Guarded γ} {g : γ → β → γ} (Inv : γ → Prop) {xs : List β}
    (h : ∀ s, Inv s → ∀ x ∈ xs, f s x = pure (g s x) ∧ Inv (g s x)) {s : γ} (hs : Inv s) :
    xs.foldlM f s = pure (xs.foldl g s) := by
  induction xs generalizing s with
  | nil => rfl
  | cons x xs ih =>
      obtain ⟨hx, hinv⟩ := h s hs x (by simp)
      rw [List.foldlM_cons, hx, pure_bind, List.foldl_cons]
      exact ih (fun s hs y hy => h s hs y (by simp [hy])) hinv

/-! ## §2. The guarded forms. -/

variable {A : Type} [OrderedArith A] [Element α A]

/-- The values of a parameter, or a default for every channel. -/
def valuesOr (default : α) (channels : Nat) : Option (Tensor α) → List α
  | some p => p.toList
  | none => List.replicate channels default

/-- Number of elements in each channel. -/
def elementsPerChannel (input : Tensor α) : Guarded Nat := do
  let channels ← entry input.dims 1
  if channels = 0 then return 0 else quotient input.numel channels

/-- The moments of every channel. -/
def channelMoments (ex : Executor) (input : Tensor α) : Guarded (List (ChannelMoments α A)) := do
  let channels ← entry input.dims 1
  let n : A := ofCount (← elementsPerChannel input)
  (ex.tasks channels input.numel).flatten.mapM fun (c : Fin channels) => do
    let plane ← slice input c
    return .ofValues n plane

/-- Statistics of a batch, folded into the running ones on the way. -/
def updateStats (ex : Executor) (input : Tensor α) (momentum eps : A) (policy : VarTransform) :
    StatsStep α (Tensor α × Tensor α) := do
  let channels ← entry input.dims 1
  let count ← elementsPerChannel input
  let moments ← channelMoments ex input
  let n : A := ofCount count
  let dof : A := ofCount (count - 1)
  modify fun running => { running with
    mean := running.mean.map fun t =>
      t.overwrite (List.zipWith (·.blendMean momentum ·) moments t.toList) }
  modify fun running => { running with
    var := running.var.map fun t =>
      t.overwrite (List.zipWith (·.blendVar momentum dof ·) moments t.toList) }
  -- the running statistics have changed by the time these are built
  let mean ← ofExcept (Tensor.ofList (moments.map (·.mean)) [channels])
  let var ← ofExcept
    (Tensor.ofList (moments.map fun m => narrow (policy.apply (m.varSum / n) eps)) [channels])
  return (mean.toDevice input.device, var.toDevice input.device)

/-- The kernel over the flat buffer. -/
def transformContiguous (input : Tensor α) (weight bias : Option (Tensor α))
    (mean var : Tensor α) (eps : A) : Guarded (Tensor α) := do
  let channels ← entry input.dims 1
  let output : Tensor α := input.zerosLike
  if input.isEmpty then return output
  let imageSize ← quotient (← quotient input.numel (← entry input.dims 0)) channels
  let weight := valuesOr 1 channels weight
  let bias := valuesOr 0 channels bias
  let hoisted ← (List.range channels).mapM fun c => do
    let alpha := inferenceAlpha eps (← entry var.toList c) (← entry weight c)
    return (alpha, inferenceBeta alpha (← entry mean.toList c) (← entry bias c))
  let src ← orRefuse
    (.unsupportedOperation "batch_norm" "fast path requires contiguous input") input.asSlice?
  let dst ← orRefuse
    (.unsupportedOperation "batch_norm" "output not contiguous") output.asSlice?
  let pairs := (← chunks imageSize dst.toList).zip (← chunks imageSize src.toList)
  let planes ← pairs.zipIdx.mapM fun ((out, inp), plane) => do
    let (a, b) ← entry hoisted (← remainder plane channels)
    return List.zipWith (fun _ x => x * a + b) out inp
  return output.overwrite planes.flatten

/-- The kernel over arbitrary strides. -/
def transformGeneral (ex : Executor) (input : Tensor α) (weight bias : Option (Tensor α))
    (mean invstd : List α) : Guarded (Tensor α) := do
  let channels ← entry input.dims 1
  let weight := valuesOr 1 channels weight
  let bias := valuesOr 0 channels bias
  let output : Tensor α := input.zerosLike
  require (2 ≤ output.rank)
  (ex.tasks channels output.numel).flatten.foldlM (fun (out : Tensor α) (c : Fin channels) => do
    let plane ← slice input c
    let m ← entry mean c
    let s ← entry invstd c
    let w ← entry weight c
    let b ← entry bias c
    -- the elementwise loop wants one shape on both sides
    require (out.dims.eraseIdx 1 = input.dims.eraseIdx 1)
    return out.modifyPlane c fun _ => plane.map (normalizeElement m s w b)) output

/-- Mean and inverse standard deviation of every channel, by mode. -/
def resolveStats (training : Bool) (saved running : ChannelStats α) (eps : A) :
    Guarded (List α × List α) :=
  if training then
    match saved.mean, saved.var with
    | some mean, some invstd => pure (mean.toList, invstd.toList)
    | _, _ => throw (.refused (.missingState "batch_norm"
        "saved mean and inverse std are required in training mode"))
  else
    match running.mean, running.var with
    | some mean, some var => pure (mean.toList, var.toList.map (runningInverseStd · eps))
    | _, _ => throw (.refused (.missingState "batch_norm"
        "running_mean and running_var must be defined in evaluation mode"))

/-- The transform, by either kernel. -/
def transformInput (ex : Executor) (args : ForwardArgs α A) (saved running : ChannelStats α) :
    Guarded (Tensor α) :=
  match contiguousInference args running, running.mean, running.var with
  | true, some mean, some var =>
      transformContiguous args.input args.weight args.bias mean var args.eps
  | _, _, _ => do
      let (mean, invstd) ← resolveStats args.training saved running args.eps
      transformGeneral ex args.input args.weight args.bias mean invstd

/-- Native batch normalization. -/
def nativeBatchNorm (ex : Executor) (args : ForwardArgs α A) : StatsStep α (Forward α) := do
  let _ ← ofExcept (checkForward "native_batch_norm" args (← get))
  if args.training then
    let (mean, invstd) ← updateStats ex args.input args.momentum args.eps .inverseStd
    let saved : ChannelStats α := ⟨some mean, some invstd⟩
    let output ← transformInput ex args saved (← get)
    return { output, saved, backend := .native }
  else
    let output ← transformInput ex args .none (← get)
    return { output, saved := .none, backend := .native }

/-- The update of the statistics. -/
def batchNormUpdateStats (ex : Executor) (input : Tensor α) (momentum : A) :
    StatsStep α (Tensor α × Tensor α) := do
  let _ ← ofExcept (checkUpdate input (← get))
  updateStats ex input momentum 0 .rawVariance

/-! ## §3. Every step goes through. -/

theorem entry_dims_one {input : Tensor α} (hrank : 2 ≤ input.rank) :
    entry input.dims 1 = pure input.channels := by
  obtain ⟨n, C, rest, hdims⟩ := exists_eq_cons_cons hrank
  rw [Tensor.channels_of_cons hdims, hdims]
  rfl

theorem entry_valuesOr {p : Option (Tensor α)} {channels : Nat} (default : α)
    (h : OnePerChannel channels p) {c : Nat} (hc : c < channels) :
    entry (valuesOr default channels p) c = pure (paramAt p default c) := by
  apply entry_ok
  cases p with
  | none =>
      show (List.replicate channels default)[c]? = _
      rw [List.getElem?_replicate, if_pos hc]
      rfl
  | some t => exact t.getElem?_toList_eq_elem ((h t rfl).symm ▸ hc)

theorem elementsPerChannel_ok {input : Tensor α} (hrank : 2 ≤ input.rank) :
    elementsPerChannel input = pure input.elementsPerChannel := by
  unfold elementsPerChannel Tensor.elementsPerChannel
  rw [entry_dims_one hrank, pure_bind]
  split
  next h => rw [h, Nat.div_zero]
  next h => rw [quotient_ok h]

theorem channelMoments_ok (ex : Executor) {input : Tensor α} (hrank : 2 ≤ input.rank) :
    (channelMoments ex input : Guarded (List (ChannelMoments α A)))
      = pure (List.ofFn fun c : Fin input.channels => input.momentsAt c) := by
  unfold channelMoments
  rw [entry_dims_one hrank, pure_bind, elementsPerChannel_ok hrank, pure_bind,
    Executor.flatten_tasks, List.ofFn_eq_map]
  apply mapM_ok
  intro c _
  rw [slice_ok hrank c.isLt, pure_bind]
  rfl

/-- What the general kernel makes of values that are there for every channel. -/
theorem transformGeneral_ok (ex : Executor) {input : Tensor α} {weight bias : Option (Tensor α)}
    {mean invstd : List α} {m s : Nat → α} (hrank : 2 ≤ input.rank)
    (hweight : OnePerChannel input.channels weight) (hbias : OnePerChannel input.channels bias)
    (hmean : ∀ c < input.channels, mean[c]? = some (m c))
    (hinvstd : ∀ c < input.channels, invstd[c]? = some (s c)) :
    transformGeneral ex input weight bias mean invstd
      = pure (input.withContents ((List.range input.numel).map fun k =>
          let c := channelOf input.dims k
          normalizeElement (m c) (s c) (paramAt weight 1 c) (paramAt bias 0 c) (input.elem k))
          (by simp)) := by
  have hdims : (input.zerosLike : Tensor α).dims = input.dims := input.dims_zerosLike
  have houtput : 2 ≤ (input.zerosLike : Tensor α).rank := Tensor.rank_congr hdims ▸ hrank
  unfold transformGeneral
  rw [entry_dims_one hrank, pure_bind]
  dsimp only
  rw [require_ok houtput, pure_bind, foldlM_ok
    (g := fun out c => out.modifyPlane c fun _ => (input.plane c).map
      (normalizeElement (m c) (s c) (paramAt weight 1 c) (paramAt bias 0 c)))
    (fun out => out.dims = input.dims) _ hdims]
  · -- the loop that remains is that of the plain kernel
    show pure ((ex.schedule input.channels _).forEachChannel input.zerosLike _) = _
    rw [input.forEachChannel_zerosLike _ hrank]
    intro c _
    rw [input.plane_eq_map hrank c.isLt, List.map_map]
    apply List.map_congr_left
    intro k hk
    have hchan : channelOf input.dims k = c := ((mem_channelPlaces hrank c.isLt).1 hk).2
    simp only [Function.comp_apply, hchan]
  · intro out hout c _
    refine ⟨?_, hout⟩
    simp only [slice_ok hrank c.isLt, entry_ok (hmean c c.isLt), entry_ok (hinvstd c c.isLt),
      entry_valuesOr 1 hweight c.isLt, entry_valuesOr 0 hbias c.isLt,
      require_ok (congrArg (List.eraseIdx · 1) hout), pure_bind]

/-- An input with elements has no zero among the lengths the flat kernel divides
by, and its chunks are not empty. -/
theorem imageSize_pos {input : Tensor α} (hrank : 2 ≤ input.rank) (hne : 0 < input.numel) :
    input.dims.headD 0 ≠ 0 ∧ input.channels ≠ 0
      ∧ input.numel / input.dims.headD 0 / input.channels ≠ 0 := by
  have himage := imageSize_eq input hrank hne
  obtain ⟨n, C, rest, hdims⟩ := exists_eq_cons_cons hrank
  rw [himage]
  unfold Tensor.numel at hne
  unfold Tensor.channels
  rw [hdims] at hne ⊢
  have hne : 0 < n * (C * volume rest) := hne
  refine ⟨?_, ?_, ?_⟩
  · exact Nat.ne_of_gt (Nat.pos_of_mul_pos_right hne)
  · exact Nat.ne_of_gt (Nat.pos_of_mul_pos_right (Nat.pos_of_mul_pos_left hne))
  · exact Nat.ne_of_gt (Nat.pos_of_mul_pos_left (Nat.pos_of_mul_pos_left hne))

/-- The loop of the flat kernel: numbered chunks of output and input go side by
side, and the number of a chunk finds its channel. -/
theorem planes_ok {C k : Nat} {alpha beta : Nat → α} {out inp : List α} (hC : C ≠ 0)
    (hlen : out.length = inp.length) :
    (((chunksOf k out).zip (chunksOf k inp)).zipIdx.mapM fun ((out, inp), plane) => do
        let (a, b) ← entry ((List.range C).map fun c => (alpha c, beta c)) (← remainder plane C)
        return List.zipWith (fun _ x => x * a + b) out inp)
      = (pure (((chunksOf k (out.zip inp)).mapIdx fun p chunk =>
          chunk.map fun x => x.2 * alpha (p % C) + beta (p % C))) : Guarded (List (List α))) := by
  rw [mapM_ok (g := fun x => List.zipWith (fun _ y => y * alpha (x.2 % C) + beta (x.2 % C))
    x.1.1 x.1.2)]
  · rw [zip_chunksOf k hlen, List.mapIdx_eq_zipIdx_map, List.zipIdx_map, List.map_map]
    congr 1
    apply List.map_congr_left
    rintro ⟨chunk, p⟩ _
    simp only [Function.comp_apply, Prod.map_apply, List.unzip_eq_map, id_eq]
    rw [List.zipWith_map, List.zipWith_self]
  · rintro ⟨⟨o, i⟩, p⟩ _
    have hentry : ((List.range C).map fun c => (alpha c, beta c))[p % C]?
        = some (alpha (p % C), beta (p % C)) := by
      rw [List.getElem?_map, List.getElem?_range (Nat.mod_lt _ (Nat.pos_of_ne_zero hC))]
      rfl
    simp only [remainder_ok hC, entry_ok hentry, pure_bind]

/-- What the flat kernel makes of contiguous tensors that hold one value per
channel. -/
theorem transformContiguous_ok {args : ForwardArgs α A} {mean var : Tensor α}
    (h : args.Accepted ⟨some mean, some var⟩) (hinput : args.input.isContiguous = true) :
    transformContiguous args.input args.weight args.bias mean var args.eps
      = pure (args.input.withContents
          ((List.range args.input.numel).map (args.hoistedAt ⟨some mean, some var⟩))
          (by simp)) := by
  have hfirst : entry args.input.dims 0 = pure (args.input.dims.headD 0) := by
    obtain ⟨n, C, rest, hdims⟩ := exists_eq_cons_cons h.rank
    rw [hdims]
    rfl
  have hmean : ∀ c < args.input.channels, mean.toList[c]? = some (mean.elem c) := fun c hc =>
    mean.getElem?_toList_eq_elem ((h.mean mean rfl).symm ▸ hc)
  have hvar : ∀ c < args.input.channels, var.toList[c]? = some (var.elem c) := fun c hc =>
    var.getElem?_toList_eq_elem ((h.var var rfl).symm ▸ hc)
  have hzeros : (args.input.zerosLike : Tensor α).toList.length = args.input.toList.length := by
    rw [Tensor.length_toList, Tensor.length_toList]
    exact congrArg volume args.input.dims_zerosLike
  unfold transformContiguous
  rw [entry_dims_one h.rank, pure_bind]
  dsimp only
  split
  next hempty =>
    -- without elements the fresh tensor is the answer
    have h0 : args.input.numel = 0 := beq_iff_eq.1 hempty
    have hnil : List.replicate args.input.numel (0 : α)
        = (List.range args.input.numel).map (args.hoistedAt ⟨some mean, some var⟩) := by
      rw [h0]
      rfl
    show pure (args.input.withContents (List.replicate _ 0) List.length_replicate) = _
    rw [args.input.withContents_congr hnil]
  next hne =>
    have hpos : 0 < args.input.numel := Nat.pos_of_ne_zero fun h0 => hne (beq_iff_eq.2 h0)
    obtain ⟨hn, hC, himage⟩ := imageSize_pos h.rank hpos
    let alpha (c : Nat) : α := inferenceAlpha args.eps (var.elem c) (paramAt args.weight 1 c)
    let beta (c : Nat) : α := inferenceBeta (alpha c) (mean.elem c) (paramAt args.bias 0 c)
    rw [hfirst, pure_bind, quotient_ok hn, pure_bind, quotient_ok hC, pure_bind,
      mapM_ok (g := fun c => (alpha c, beta c)) (by
        intro c hc
        have hc : c < args.input.channels := List.mem_range.1 hc
        simp only [entry_ok (hmean c hc), entry_ok (hvar c hc), entry_valuesOr 1 h.weight hc,
          entry_valuesOr 0 h.bias hc, pure_bind]
        rfl),
      pure_bind, Tensor.asSlice?_eq hinput, Tensor.asSlice?_eq args.input.isContiguous_zerosLike]
    simp only [orRefuse, pure_bind, chunks_ok himage]
    rw [planes_ok hC hzeros, pure_bind,
      flatten_mapIdx_chunksOf (Nat.pos_of_ne_zero himage) fun p (x : α × α) =>
        x.2 * alpha (p % args.input.channels) + beta (p % args.input.channels)]
    -- what the chunks hold, entry by entry
    have hplanes : ((args.input.zerosLike : Tensor α).toList.zip args.input.toList).mapIdx
          (fun i x => x.2 * alpha (i / (args.input.numel / args.input.dims.headD 0
              / args.input.channels) % args.input.channels)
            + beta (i / (args.input.numel / args.input.dims.headD 0
              / args.input.channels) % args.input.channels))
        = (List.range args.input.numel).map (args.hoistedAt ⟨some mean, some var⟩) := by
      have hnumel : (args.input.zerosLike : Tensor α).numel = args.input.numel :=
        congrArg volume args.input.dims_zerosLike
      rw [Tensor.zip_toList _ args.input.dims_zerosLike.symm, hnumel, mapIdx_map_range,
        imageSize_eq args.input h.rank hpos]
      rfl
    rw [hplanes, Tensor.overwrite_zerosLike]

/-- A vector of one value per channel is built, whatever its length. -/
theorem ofList_perChannel (t : Tensor α) (v : Vector α t.channels) :
    ∃ r, Tensor.ofList v.toList [t.channels] = .ok r ∧ r.toDevice t.device = t.perChannel v := by
  have haddr : Addressable [t.channels] := by
    have h := (t.perChannel v).addressable
    rwa [Tensor.dims_perChannel] at h
  have hlen : v.toList.length = volume [t.channels] := by simp
  refine ⟨.build [t.channels] haddr v.toList hlen .cpu, ?_, rfl⟩
  unfold Tensor.ofList
  rw [dif_pos hlen, dif_pos haddr]

/-- The transform of an accepted evaluation goes through. -/
theorem transformInput_evaluation (ex : Executor) {args : ForwardArgs α A}
    {running : ChannelStats α} (h : args.Accepted running) (ht : args.training = false) :
    transformInput ex args .none running
      = pure (args.input.withContents
          ((List.range args.input.numel).map (args.inferredAt running)) (by simp)) := by
  obtain ⟨hsm, hsv⟩ := h.statistics ht
  obtain ⟨rmean, rvar⟩ := running
  obtain ⟨mean, rfl⟩ := Option.isSome_iff_exists.1 hsm
  obtain ⟨var, rfl⟩ := Option.isSome_iff_exists.1 hsv
  have hmean : ∀ c < args.input.channels, mean.toList[c]? = some (mean.elem c) := fun c hc =>
    mean.getElem?_toList_eq_elem ((h.mean mean rfl).symm ▸ hc)
  have hvar : ∀ c < args.input.channels,
      (var.toList.map (runningInverseStd · args.eps))[c]?
        = some (runningInverseStd (var.elem c) args.eps) := fun c hc => by
    rw [List.getElem?_map, var.getElem?_toList_eq_elem ((h.var var rfl).symm ▸ hc)]
    rfl
  unfold transformInput ForwardArgs.inferredAt
  cases hflat : contiguousInference args ⟨some mean, some var⟩ with
  | true =>
      have hinput : args.input.isContiguous = true := by
        unfold contiguousInference at hflat
        simp only [Bool.and_eq_true] at hflat
        exact hflat.1.1.1.1.2
      exact transformContiguous_ok h hinput
  | false =>
      show (do
        let (mean, invstd) ← resolveStats args.training .none ⟨some mean, some var⟩ args.eps
        transformGeneral ex args.input args.weight args.bias mean invstd) = _
      unfold resolveStats
      rw [ht]
      exact transformGeneral_ok ex h.rank h.weight h.bias hmean hvar

/-- The transform of an accepted training call goes through. -/
theorem transformInput_training (ex : Executor) {args : ForwardArgs α A}
    {running updated : ChannelStats α} (h : args.Accepted running) (ht : args.training = true) :
    transformInput ex args args.batchStats updated
      = pure (args.input.withContents
          ((List.range args.input.numel).map args.trainingAt) (by simp)) := by
  have hflat : contiguousInference args updated = false := by
    unfold contiguousInference
    rw [ht]
    rfl
  -- a saved statistic holds a value for every channel
  have hsaved : ∀ (f : Nat → α), ∀ c < args.input.channels,
      (args.input.perChannel (.ofFn fun c => f c)).toList[c]? = some (f c) := by
    intro f c hc
    rw [Tensor.getElem?_toList_eq_elem _ (by rwa [Tensor.numel_perChannel]),
      Tensor.elem_perChannel_ofFn _ f hc]
  unfold transformInput
  rw [hflat]
  show (do
    let (mean, invstd) ← resolveStats args.training args.batchStats updated args.eps
    transformGeneral ex args.input args.weight args.bias mean invstd) = _
  unfold resolveStats
  rw [ht]
  exact transformGeneral_ok ex h.rank h.weight h.bias (hsaved args.input.batchMean)
    (hsaved (args.input.batchInvstd args.eps))

end Guarded

/-! ## §4. Running statistics on the way. -/

namespace StatsStep

variable {α β γ : Type} {running updated : ChannelStats α}

/-- What comes after a step starts from the statistics the step left. -/
theorem after_bind_ok {step : StatsStep α β} {f : β → StatsStep α γ} {v : β}
    (h : step.after running = (.ok v, updated)) :
    (step >>= f).after running = (f v).after updated := by
  unfold after at h ⊢
  rw [ExceptT.run_bind, StateT.run_bind, h]
  rfl

/-- Nothing comes after a halt, and what was written stays. -/
theorem after_bind_error {step : StatsStep α β} {f : β → StatsStep α γ} {e : Halt}
    (h : step.after running = (.error e, updated)) :
    (step >>= f).after running = (.error e, updated) := by
  unfold after at h ⊢
  rw [ExceptT.run_bind, StateT.run_bind, h]
  rfl

/-- A step that goes through without touching the statistics. -/
theorem after_lift_bind {f : β → StatsStep α γ} {r : Guarded β} {v : β} (h : r = pure v) :
    (liftM r >>= f : StatsStep α γ).after running = (f v).after running := by
  subst h
  exact after_bind_ok rfl

/-- A step that halts without touching the statistics. -/
theorem after_lift_halt {f : β → StatsStep α γ} {r : Guarded β} {e : Halt} (h : r = throw e) :
    (liftM r >>= f : StatsStep α γ).after running = (.error e, running) := by
  subst h
  exact after_bind_error rfl

theorem after_get_bind (f : ChannelStats α → StatsStep α γ) :
    (get >>= f).after running = (f running).after running :=
  after_bind_ok rfl

theorem after_modify_bind (g : ChannelStats α → ChannelStats α) (f : PUnit → StatsStep α γ) :
    (modify g >>= f).after running = (f ⟨⟩).after (g running) :=
  after_bind_ok rfl

end StatsStep

namespace Guarded

variable {α A : Type} [OrderedArith A] [Element α A]

open StatsStep

/-- The update of an input with channels goes through. -/
theorem updateStats_ok (ex : Executor) {input : Tensor α} (hrank : 2 ≤ input.rank)
    (running : ChannelStats α) (momentum eps : A) (policy : VarTransform) :
    (updateStats ex input momentum eps policy).after running
      = (.ok (input.perChannel (.ofFn fun c => input.batchMean c),
            input.perChannel (.ofFn fun c => input.batchSpread policy eps c)),
          running.afterBatch input momentum) := by
  obtain ⟨m, hm, hmean⟩ := ofList_perChannel input (.ofFn fun c => input.batchMean c)
  obtain ⟨v, hv, hvar⟩ := ofList_perChannel input (.ofFn fun c => input.batchSpread policy eps c)
  unfold updateStats
  rw [after_lift_bind (entry_dims_one hrank), after_lift_bind (elementsPerChannel_ok hrank),
    after_lift_bind (channelMoments_ok ex hrank)]
  dsimp only
  rw [after_modify_bind, after_modify_bind, List.map_ofFn, List.map_ofFn]
  rw [Vector.toList_ofFn] at hm hv
  refine (after_lift_bind (ofExcept_ok hm)).trans ?_
  refine (after_lift_bind (ofExcept_ok hv)).trans ?_
  show (Except.ok (m.toDevice input.device, v.toDevice input.device), _) = _
  rw [hmean, hvar]
  unfold ChannelStats.afterBatch ChannelStats.blend
  rw [Vector.toList_ofFn]

/-- **The forward goes through exactly when the checks do**, with the result of
the plain form and the same running statistics, whatever the arguments. -/
theorem after_nativeBatchNorm (ex : Executor) (args : ForwardArgs α A)
    (running : ChannelStats α) :
    (nativeBatchNorm ex args).after running
      = (ofExcept (ChannelNorm.nativeBatchNorm ex args running).result,
          (ChannelNorm.nativeBatchNorm ex args running).running) := by
  unfold nativeBatchNorm
  rw [after_get_bind]
  cases hcheck : checkForward "native_batch_norm" args running with
  | error e =>
      have hfault := (checkForward_reports "native_batch_norm" args running e).1 hcheck
      rw [nativeBatchNorm_refused ex hfault, after_lift_halt (ofExcept_error rfl)]
      rfl
  | ok params =>
      have hnone := (hcheck ▸ checkForward_reports "native_batch_norm" args running).eq_nil
      have h : args.Accepted running := ForwardArgs.faults_eq_nil.1 hnone
      rw [after_lift_bind (ofExcept_ok rfl)]
      cases ht : args.training with
      | true =>
          rw [nativeBatchNorm_training ex h ht, running_nativeBatchNorm_training ex h ht,
            if_pos rfl, after_bind_ok (updateStats_ok ex h.rank running _ _ _)]
          show ((get >>= fun updated => _) : StatsStep α (Forward α)).after _ = _
          rw [after_get_bind]
          exact after_lift_bind (transformInput_training ex h ht)
      | false =>
          obtain ⟨hresult, hrunning⟩ := nativeBatchNorm_inferred ex h ht
          rw [hresult, hrunning, if_neg Bool.false_ne_true, after_get_bind,
            after_lift_bind (transformInput_evaluation ex h ht)]
          rfl

/-- **The update goes through exactly when its checks do.** -/
theorem after_batchNormUpdateStats (ex : Executor) (input : Tensor α) (running : ChannelStats α)
    (momentum : A) :
    (batchNormUpdateStats ex input momentum).after running
      = (ofExcept (ChannelNorm.batchNormUpdateStats ex input running momentum).1,
          (ChannelNorm.batchNormUpdateStats ex input running momentum).2) := by
  unfold batchNormUpdateStats
  rw [after_get_bind]
  cases hcheck : checkUpdate input running with
  | error e =>
      have hfault := (checkUpdate_reports input running e).1 hcheck
      rw [batchNormUpdateStats_refused ex momentum hfault, after_lift_halt (ofExcept_error rfl)]
      rfl
  | ok _ =>
      have hnone := (hcheck ▸ checkUpdate_reports input running).eq_nil
      rw [batchNormUpdateStats_ok ex momentum hnone, after_lift_bind (ofExcept_ok rfl),
        updateStats_ok ex (updateFaults_eq_nil.1 hnone).1]
      rfl

end Guarded

end ChannelNorm

/-
  ChannelNorm.Proofs.Gradient.Difference
  ──────────────────────────────────────
  **WHAT A DIFFERENCE QUOTIENT MEASURES.**

  Along an axis through a point a loss may be quadratic in the distance moved,

      f (x + t·eᵢ)  =  f x + bᵢ·t + cᵢ·t²

  A difference over a step `h` is then the slope `bᵢ`, off by `cᵢ·h` if it looks
  to one side only:

      forward    bᵢ + cᵢ·h
      backward   bᵢ - cᵢ·h
      central    bᵢ

  A check by central differences therefore accepts a gradient exactly if each of
  its elements is within tolerance of the true slope.  A weighted sum of elements
  has no quadratic part, so every method returns its weights.

  The loss is a computation: it may keep a state of its own between evaluations,
  as long as what it returns depends on the contents it is given alone.
-/
import ChannelNorm.Proofs.Gradient.Loss

namespace ChannelNorm

open OrderedArith (larger decimalPart)

/-! ## §1. Computations that return. -/

/-- A computation that may fail and keeps a state. -/
abbrev Evaluation (σ : Type) : Type → Type :=
  ExceptT TensorError (StateM σ)

section
variable {σ β γ : Type}

/-- From every state, the computation returns the value. -/
def Returns (p : Evaluation σ β) (v : β) : Prop :=
  ∀ s, ∃ s', p.run.run s = (.ok v, s')

namespace Returns

theorem pure (v : β) : Returns (Pure.pure v : Evaluation σ β) v :=
  fun s => ⟨s, rfl⟩

/-- A value that was computed without effects. -/
theorem lift {r : Except TensorError β} {v : β} (h : r = .ok v) :
    Returns (liftM r : Evaluation σ β) v := by
  subst h
  exact pure v

theorem bind {p : Evaluation σ β} {f : β → Evaluation σ γ} {v : β} {w : γ} (hp : Returns p v)
    (hf : Returns (f v) w) : Returns (p >>= f) w := by
  intro s
  obtain ⟨s', hs'⟩ := hp s
  obtain ⟨s'', hs''⟩ := hf s'
  refine ⟨s'', ?_⟩
  rw [ExceptT.run_bind, StateT.run_bind, hs']
  exact hs''

theorem map {p : Evaluation σ β} {v : β} (g : β → γ) (hp : Returns p v) :
    Returns (g <$> p) (g v) := by
  rw [map_eq_pure_bind]
  exact hp.bind (pure (g v))

/-- Each step returning its value, all of them return the values in order. -/
theorem mapM {f : β → Evaluation σ γ} {g : β → γ} {xs : List β}
    (h : ∀ x ∈ xs, Returns (f x) (g x)) : Returns (xs.mapM f) (xs.map g) := by
  induction xs with
  | nil => exact pure []
  | cons x xs ih =>
      rw [List.mapM_cons, List.map_cons]
      have hrest := ih fun y hy => h y (List.mem_cons_of_mem x hy)
      exact (h x List.mem_cons_self).bind (hrest.bind (pure _))

end Returns

end

/-! ## §2. Slopes. -/

/-- A loss that returns a function of the contents, quadratic along every axis
through a point. -/
structure QuadraticAlong {σ : Type} (loss : Tensor ℝ → Evaluation σ ℝ)
    (x : Tensor ℝ) (F : List ℝ → ℝ) (slope curvature : ℕ → ℝ) : Prop where
  returns : ∀ u : Tensor ℝ, u.dims = x.dims → Returns (loss u) (F u.toList)
  along : ∀ i < x.numel, ∀ t,
    F (x.toList.modify i (· + t)) = F x.toList + slope i * t + curvature i * t ^ 2

namespace DifferenceMethod

/-- What a method makes of a slope and a curvature, with a step. -/
def measured (h b c : ℝ) : DifferenceMethod → ℝ
  | .forward => b + c * h
  | .backward => b - c * h
  | .central => b

/-- What a method is told of the value at the centre. -/
def centre (fx : ℝ) : DifferenceMethod → Option ℝ
  | .forward => some fx
  | .backward => some fx
  | .central => none

theorem centre_of_ne_central {method : DifferenceMethod} (h : method ≠ .central) (fx : ℝ) :
    method.centre fx = some fx := by
  cases method with
  | forward => rfl
  | backward => rfl
  | central => exact absurd rfl h

end DifferenceMethod

/-- As many numbers as a tensor has elements make a tensor of its shape. -/
theorem Tensor.ofList_dims {x : Tensor ℝ} {data : List ℝ} (h : data.length = x.numel) :
    Tensor.ofList data x.dims = .ok (build x.dims x.addressable data h .cpu) := by
  have hlen : data.length = volume x.dims := h
  rw [ofList, dif_pos hlen, dif_pos x.addressable]

namespace QuadraticAlong

variable {σ : Type} {loss : Tensor ℝ → Evaluation σ ℝ} {x : Tensor ℝ}
  {F : List ℝ → ℝ} {slope curvature : ℕ → ℝ}

/-- The loss after one element was moved. -/
theorem returns_shiftElement (hf : QuadraticAlong loss x F slope curvature) {i : ℕ}
    (hi : i < x.numel) (t : ℝ) :
    Returns (loss (x.shiftElement i t)) (F x.toList + slope i * t + curvature i * t ^ 2) := by
  have hmoved := hf.returns (x.shiftElement i t) Tensor.dims_withContents
  rw [Tensor.shiftElement, Tensor.toList_withContents, hf.along i hi t] at hmoved
  exact hmoved

theorem returns_slopeAt (hf : QuadraticAlong loss x F slope curvature) {c : CheckerConfig ℝ}
    (hstep : 0 < c.step) {i : ℕ} (hi : i < x.numel) :
    Returns (slopeAt c x loss (c.method.centre (F x.toList)) i)
      (c.method.measured c.step (slope i) (curvature i)) := by
  have hahead := hf.returns_shiftElement hi c.step
  have hbehind := hf.returns_shiftElement hi (-c.step)
  have hne := hstep.ne'
  unfold slopeAt DifferenceMethod.measured DifferenceMethod.centre
  cases c.method with
  | forward =>
      have hquotient : slope i + curvature i * c.step
          = (F x.toList + slope i * c.step + curvature i * c.step ^ 2 - F x.toList) / c.step := by
        field_simp
        ring
      rw [hquotient]
      exact hahead.bind (.pure _)
  | backward =>
      have hquotient : slope i - curvature i * c.step
          = (F x.toList - (F x.toList + slope i * -c.step + curvature i * (-c.step) ^ 2))
              / c.step := by
        field_simp
        ring
      rw [hquotient]
      exact hbehind.bind (.pure _)
  | central =>
      -- the quadratic parts of the two sides cancel
      have hquotient : slope i
          = (F x.toList + slope i * c.step + curvature i * c.step ^ 2
              - (F x.toList + slope i * -c.step + curvature i * (-c.step) ^ 2))
              / (ofCount 2 * c.step) := by
        rw [ofCount_real]
        field_simp
        ring
      rw [hquotient]
      exact hahead.bind (hbehind.bind (.pure _))

/-- The numerical gradient has the shape and device of the point and holds what the
method measures, place by place. -/
theorem returns_numericalGradient (hf : QuadraticAlong loss x F slope curvature)
    {c : CheckerConfig ℝ} (hstep : 0 < c.step) :
    ∃ g, Returns (numericalGradient c x loss) g ∧ g.dims = x.dims ∧ g.device = x.device
      ∧ g.toList = (List.range x.numel).map fun i =>
          c.method.measured c.step (slope i) (curvature i) := by
  have hslopes : Returns ((List.range x.numel).mapM
      (slopeAt c x loss (c.method.centre (F x.toList))))
      ((List.range x.numel).map fun i => c.method.measured c.step (slope i) (curvature i)) :=
    .mapM fun i hi => hf.returns_slopeAt hstep (List.mem_range.1 hi)
  have hlen : ((List.range x.numel).map fun i =>
      c.method.measured c.step (slope i) (curvature i)).length = x.numel := by
    rw [List.length_map, List.length_range]
  refine ⟨x.withContents _ hlen, ?_, Tensor.dims_withContents, Tensor.device_withContents,
    Tensor.toList_withContents⟩
  -- the loss at the centre is asked for by the one-sided methods only
  unfold numericalGradient
  dsimp only
  split
  next hcentral =>
      have hcentre : c.method.centre (F x.toList) = none := by
        rw [hcentral]
        rfl
      rw [hcentre] at hslopes
      refine (Returns.pure none).bind (hslopes.bind ?_)
      rw [Tensor.ofList_dims hlen]
      exact .pure _
  next hsided =>
      rw [DifferenceMethod.centre_of_ne_central hsided] at hslopes
      refine ((hf.returns x rfl).map some).bind (hslopes.bind ?_)
      rw [Tensor.ofList_dims hlen]
      exact .pure _

end QuadraticAlong

/-! ## §3. Acceptance. -/

/-- A comparison accepts exactly if every pair of elements passes. -/
theorem compareGradients_isValid_iff {A : Type} [OrderedArith A] (c : CheckerConfig A)
    {analytical numerical : Tensor A} (hdims : analytical.dims = numerical.dims) :
    ∃ r, compareGradients c analytical numerical = .ok r
      ∧ (r.isValid = true
        ↔ ∀ i < analytical.numel, c.passes (analytical.elem i, numerical.elem i) = true) := by
  unfold compareGradients
  rw [if_pos (Tensor.sameShape_of_dims hdims)]
  refine ⟨_, rfl, ?_⟩
  dsimp only
  rw [analytical.zip_toList hdims.symm, List.countP_map, beq_iff_eq]
  -- as many pass as there are
  have hall := List.countP_eq_length (l := List.range analytical.numel)
    (p := c.passes ∘ fun i => (analytical.elem i, numerical.elem i))
  rw [List.length_range] at hall
  simpa only [List.mem_range, Function.comp_apply] using hall

/-- What a relative error is relative to: the larger of the two values, unless that
is tiny. -/
noncomputable def errorScale (a b : ℝ) : ℝ :=
  if 1 / 10 ^ 10 < max |a| |b| then max |a| |b| else 1

theorem errorScale_pos (a b : ℝ) : 0 < errorScale a b := by
  unfold errorScale
  split
  next h => exact lt_trans (by positivity) h
  next => exact one_pos

theorem relativeError_real (a b : ℝ) : relativeError (a, b) = |a - b| / errorScale a b := by
  have hscale : larger |a| |b| = max |a| |b| := larger_real _ _
  show (if decide (decimalPart 10 < larger |a| |b|) = true then |a - b| / larger |a| |b|
    else |a - b|) = _
  unfold errorScale
  rw [hscale, decimalPart_real]
  by_cases h : 1 / 10 ^ 10 < max |a| |b|
  · rw [if_pos (decide_eq_true h), if_pos h]
  · rw [if_neg (by simpa using h), if_neg h, div_one]

/-- A pair passes if it is within the absolute tolerance, or within the relative one
at its scale. -/
theorem passes_iff (c : CheckerConfig ℝ) (a b : ℝ) :
    c.passes (a, b) = true ↔ |a - b| ≤ c.atol ∨ |a - b| ≤ c.rtol * errorScale a b := by
  show (decide (|a - b| ≤ c.atol) || decide (relativeError (a, b) ≤ c.rtol)) = true ↔ _
  rw [Bool.or_eq_true, decide_eq_true_eq, decide_eq_true_eq, relativeError_real,
    div_le_iff₀ (errorScale_pos a b)]

/-- A check by central differences compares with the slopes themselves. -/
theorem QuadraticAlong.returns_checkGradient {σ : Type}
    {loss : Tensor ℝ → Evaluation σ ℝ} {x : Tensor ℝ} {F : List ℝ → ℝ}
    {slope curvature : ℕ → ℝ} (hf : QuadraticAlong loss x F slope curvature)
    {c : CheckerConfig ℝ} (hstep : 0 < c.step) (hmethod : c.method = .central)
    {a : Tensor ℝ} (ha : a.dims = x.dims) :
    ∃ r, Returns (checkGradient c x a loss) r
      ∧ (r.isValid = true ↔ ∀ i < x.numel,
          |a.elem i - slope i| ≤ c.atol
            ∨ |a.elem i - slope i| ≤ c.rtol * errorScale (a.elem i) (slope i)) := by
  obtain ⟨g, hg, hdims, _, hlist⟩ := hf.returns_numericalGradient hstep
  obtain ⟨r, hr, hvalid⟩ := compareGradients_isValid_iff c (ha.trans hdims.symm)
  refine ⟨r, hg.bind ?_, ?_⟩
  · rw [hr]
    exact .pure r
  · have hnumel : a.numel = x.numel := congrArg volume ha
    rw [hvalid, hnumel]
    refine forall₂_congr fun i hi => ?_
    rw [Tensor.elem_of_toList_eq_map hlist hi, hmethod]
    exact passes_iff c _ _

/-! ## §4. Weighted sums. -/

/-- Moving one element moves a weighted sum by that element's weight. -/
theorem sum_zipWith_modify (xs ws : List ℝ) {i : ℕ} (hi : i < xs.length) (t : ℝ) :
    (List.zipWith (· * ·) (xs.modify i (· + t)) ws).sum
      = (List.zipWith (· * ·) xs ws).sum + ws.getD i 0 * t := by
  induction xs generalizing i ws with
  | nil => cases hi
  | cons x xs ih =>
      cases ws with
      | nil => simp
      | cons w ws =>
          cases i with
          | zero =>
              show (x + t) * w + _ = x * w + _ + w * t
              ring
          | succ i =>
              have htail := ih ws (Nat.lt_of_succ_lt_succ hi)
              show x * w + (List.zipWith (· * ·) (xs.modify i (· + t)) ws).sum
                = x * w + (List.zipWith (· * ·) xs ws).sum + ws.getD i 0 * t
              rw [htail, add_assoc]

/-- A weighted sum has its weights as slopes, and no curvature. -/
theorem quadraticAlong_weightedSumLoss (σ : Type) {x upstream : Tensor ℝ}
    (h : upstream.dims = x.dims) :
    QuadraticAlong (fun u => (liftM (weightedSumLoss u upstream) : Evaluation σ ℝ)) x
      (fun data => (List.zipWith (· * ·) data upstream.toList).sum) upstream.elem 0 where
  returns u hu := by
    refine .lift ?_
    rw [weightedSumLoss_eq (hu.trans h.symm), u.zipWith_toList (h.trans hu.symm),
      ← List.sum_toFinset _ List.nodup_range, List.toFinset_range]
  along i hi t := by
    have hlen : i < x.toList.length := by rwa [x.length_toList]
    rw [sum_zipWith_modify _ _ hlen, Pi.zero_apply, zero_mul, add_zero]
    rfl

/-! ## §5. Numerical gradients. -/

/-- **Numerical gradients of losses that are quadratic along the axes.**  With a
positive step, each method returns a gradient of the point's shape and device that
holds what the method measures; a check by central differences accepts a gradient
exactly if each element is within tolerance of the slope; and for a weighted sum of
elements every method returns the weights.  The point, the gradient that is checked
and the weights may be laid out in any way. -/
theorem numericalGradient_measures (σ : Type) (c : CheckerConfig ℝ) (x : Tensor ℝ)
    (hstep : 0 < c.step) :
    (∀ (loss : Tensor ℝ → Evaluation σ ℝ) (F : List ℝ → ℝ)
        (slope curvature : ℕ → ℝ), QuadraticAlong loss x F slope curvature →
      (∃ g, Returns (numericalGradient c x loss) g ∧ g.dims = x.dims ∧ g.device = x.device
          ∧ g.toList = (List.range x.numel).map fun i =>
              c.method.measured c.step (slope i) (curvature i))
        ∧ (c.method = .central → ∀ a : Tensor ℝ, a.dims = x.dims →
            ∃ r, Returns (checkGradient c x a loss) r
              ∧ (r.isValid = true ↔ ∀ i < x.numel,
                  |a.elem i - slope i| ≤ c.atol
                    ∨ |a.elem i - slope i| ≤ c.rtol * errorScale (a.elem i) (slope i))))
      ∧ ∀ upstream : Tensor ℝ, upstream.dims = x.dims →
          ∃ g, Returns
              (numericalGradient c x fun u => (liftM (weightedSumLoss u upstream) : Evaluation σ ℝ))
              g
            ∧ g.dims = x.dims ∧ g.device = x.device ∧ g.toList = upstream.toList := by
  refine ⟨fun loss F slope curvature hf => ⟨hf.returns_numericalGradient hstep, ?_⟩,
    fun upstream h => ?_⟩
  · intro hmethod a ha
    exact hf.returns_checkGradient hstep hmethod ha
  · obtain ⟨g, hg, hdims, hdevice, hlist⟩ :=
      (quadraticAlong_weightedSumLoss σ h).returns_numericalGradient hstep
    refine ⟨g, hg, hdims, hdevice, ?_⟩
    have hnumel : upstream.numel = x.numel := congrArg volume h
    rw [hlist, upstream.toList_eq_map_elem, hnumel]
    refine List.map_congr_left fun i _ => ?_
    -- without curvature the methods agree
    unfold DifferenceMethod.measured
    rw [Pi.zero_apply, zero_mul, add_zero, sub_zero]
    cases c.method <;> rfl

/-- Two elements with a gap between them. -/
noncomputable def spacedPair (a b : ℝ) : Tensor ℝ where
  layout := { axes := [⟨2, 2⟩], nodup := by decide, addressable := by decide }
  buffer := #[a, 0, b]
  device := .cpu
  bound := by
    show ∀ p ∈ [0, 2], p < 3
    decide

/-- The sum of squares, by a loss that counts its evaluations. -/
noncomputable def countedSquares (u : Tensor ℝ) : Evaluation ℕ ℝ := do
  modify (· + 1)
  return (u.toList.map fun v => v * v).sum

theorem quadraticAlong_countedSquares (a b : ℝ) :
    QuadraticAlong countedSquares (spacedPair a b) (fun data => (data.map fun v => v * v).sum)
      (fun i => 2 * (spacedPair a b).elem i) 1 where
  returns _ _ := fun s => ⟨s + 1, rfl⟩
  along i hi t := by
    have hi : i < 2 := hi
    interval_cases i
    · show (a + t) * (a + t) + (b * b + 0) = a * a + (b * b + 0) + 2 * a * t + 1 * t ^ 2
      ring
    · show a * a + ((b + t) * (b + t) + 0) = a * a + (b * b + 0) + 2 * b * t + 1 * t ^ 2
      ring

theorem numericalGradient_measures_spacedPair :
    (∃ g, Returns (numericalGradient ⟨.forward, some (1 / 2), 0, 0⟩ (spacedPair 1 (-2))
          countedSquares) g
        ∧ g.dims = [2] ∧ g.toList = [5 / 2, -(7 / 2)])
      ∧ (∃ r, Returns (checkGradient ⟨.central, some (1 / 2), 0, 0⟩ (spacedPair 1 (-2))
          (spacedPair 2 (-4)) countedSquares) r ∧ r.isValid = true)
      ∧ ∃ g, Returns (numericalGradient ⟨.backward, some (1 / 2), 0, 0⟩ (spacedPair 3 5)
          fun u => (liftM (weightedSumLoss u (spacedPair 1 (-2))) : Evaluation ℕ ℝ)) g
        ∧ g.toList = [1, -2] := by
  have hstep : ∀ method, (0 : ℝ) < (CheckerConfig.mk method (some (1 / 2)) (0 : ℝ) 0).step :=
    fun _ => half_pos one_pos
  refine ⟨?_, ?_, ?_⟩
  · obtain ⟨⟨g, hg, hdims, _, hlist⟩, _⟩ := (numericalGradient_measures ℕ _ (spacedPair 1 (-2))
      (hstep .forward)).1 _ _ _ _ (quadraticAlong_countedSquares 1 (-2))
    refine ⟨g, hg, hdims, hlist.trans ?_⟩
    show [2 * 1 + 1 * (1 / 2), 2 * -2 + 1 * (1 / 2)] = [(5 / 2 : ℝ), -(7 / 2)]
    norm_num
  · obtain ⟨_, hcheck⟩ := (numericalGradient_measures ℕ _ (spacedPair 1 (-2))
      (hstep .central)).1 _ _ _ _ (quadraticAlong_countedSquares 1 (-2))
    obtain ⟨r, hr, hvalid⟩ := hcheck rfl (spacedPair 2 (-4)) rfl
    refine ⟨r, hr, hvalid.2 fun i hi => .inl ?_⟩
    have hi : i < 2 := hi
    interval_cases i
    · show |(2 : ℝ) - 2 * 1| ≤ 0
      norm_num
    · show |(-4 : ℝ) - 2 * -2| ≤ 0
      norm_num
  · obtain ⟨g, hg, _, _, hlist⟩ := (numericalGradient_measures ℕ _ (spacedPair 3 5)
      (hstep .backward)).2 (spacedPair 1 (-2)) rfl
    exact ⟨g, hg, hlist⟩

end ChannelNorm

/-
  ChannelNorm.Proofs.Tensor.Reshape
  ─────────────────────────────────
  **WHEN A RESHAPE SUCCEEDS, AND WHAT IT KEEPS.**

  A reshape to an addressable shape with as many elements succeeds and keeps the
  contents.  The shapes that blocks are folded to are addressable whenever the
  shape they come from is: multiplying neighbouring dimensions does not raise the
  extent.  An open dimension after two known ones is what is left of the count.
-/
import ChannelNorm.GroupNorm
import ChannelNorm.Proofs.Tensor.Index

namespace ChannelNorm

variable {α : Type}

/-! ## §1. Shapes that can be addressed. -/

theorem extent_append (ds es : List Nat) : extent (ds ++ es) = extent ds * extent es := by
  unfold extent
  rw [List.filter_append, volume_append]

/-- A run of dimensions, taken as one, counts for no more than the run. -/
theorem extent_volume_cons_le (ds es : List Nat) :
    extent (volume ds :: es) ≤ extent (ds ++ es) := by
  rw [extent_cons, extent_append]
  refine Nat.mul_le_mul_right _ ?_
  split
  · exact extent_pos ds
  · exact volume_le_extent ds

theorem Addressable.right {ds es : List Nat} (h : Addressable (ds ++ es)) : Addressable es := by
  unfold Addressable at h ⊢
  rw [extent_append] at h
  exact Nat.le_trans (Nat.le_mul_of_pos_left _ (extent_pos ds)) h

theorem Addressable.left {ds es : List Nat} (h : Addressable (ds ++ es)) : Addressable ds := by
  unfold Addressable at h ⊢
  rw [extent_append] at h
  exact Nat.le_trans (Nat.le_mul_of_pos_right _ (extent_pos es)) h

/-- Two runs of dimensions, taken as two. -/
theorem Addressable.pair {ds es : List Nat} (h : Addressable (ds ++ es)) :
    Addressable [volume ds, volume es] := by
  have hright : extent [volume es] ≤ extent es := by
    have hle := extent_volume_cons_le es []
    rwa [List.append_nil] at hle
  have hleft := extent_volume_cons_le ds [volume es]
  rw [extent_append] at hleft
  unfold Addressable at h ⊢
  rw [extent_append] at h
  exact Nat.le_trans hleft (Nat.le_trans (Nat.mul_le_mul_left _ hright) h)

/-- A leading dimension of one costs nothing. -/
theorem Addressable.one_cons {ds : List Nat} (h : Addressable ds) : Addressable (1 :: ds) := by
  unfold Addressable at h ⊢
  rw [extent_cons, if_neg Nat.one_ne_zero, Nat.one_mul]
  exact h

/-! ## §2. Reshapes that succeed. -/

/-- A sequence of steps succeeds when each of them does. -/
theorem bind_eq_ok {ε ρ σ : Type} {x : Except ε ρ} {f : ρ → Except ε σ} {s : σ} :
    (x >>= f) = .ok s ↔ ∃ r, x = .ok r ∧ f r = .ok s := by
  cases x with
  | error e => exact ⟨nofun, nofun⟩
  | ok r =>
      constructor
      · intro h
        exact ⟨r, rfl, h⟩
      · rintro ⟨_, ⟨⟩, h⟩
        exact h

namespace Tensor

theorem elem_of_toList_eq [Zero α] {t r : Tensor α} (h : r.toList = t.toList) :
    r.elem = t.elem := by
  funext k
  unfold elem
  rw [h]

/-- A reshape builds its result afresh, in row-major order. -/
theorem reshape_eq_build {t r : Tensor α} {target : List Nat} (h : t.reshape target = .ok r) :
    ∃ (haddr : Addressable target) (len : t.toList.length = volume target),
      r = build target haddr t.toList len t.device := by
  unfold reshape at h
  split at h <;> try contradiction
  split at h <;> try contradiction
  cases h
  exact ⟨_, _, rfl⟩

/-- So does a tiling. -/
theorem tile_eq_build {t r : Tensor α} {times : Nat} (h : t.tile times = .ok r) :
    ∃ (haddr : Addressable [(tiled times t.toList).length])
      (len : (tiled times t.toList).length = volume [(tiled times t.toList).length]),
      r = build _ haddr (tiled times t.toList) len t.device := by
  unfold tile at h
  split at h <;> try contradiction
  dsimp only at h
  split at h <;> try contradiction
  cases h
  exact ⟨_, _, rfl⟩

theorem axes_reshape {t r : Tensor α} {target : List Nat} (h : t.reshape target = .ok r) :
    r.layout.axes = rowMajorAxes target := by
  obtain ⟨_, _, rfl⟩ := reshape_eq_build h
  rfl

theorem device_reshape {t r : Tensor α} {target : List Nat} (h : t.reshape target = .ok r) :
    r.device = t.device := by
  obtain ⟨_, _, rfl⟩ := reshape_eq_build h
  rfl

theorem reshape_ok (t : Tensor α) {target : List Nat} (hvolume : volume target = t.numel)
    (h : Addressable target) :
    ∃ r, t.reshape target = .ok r ∧ r.dims = target ∧ r.toList = t.toList := by
  have hok : ∃ r, t.reshape target = .ok r := by
    unfold reshape
    rw [dif_pos hvolume, dif_pos h]
    exact ⟨_, rfl⟩
  obtain ⟨r, hr⟩ := hok
  exact ⟨r, hr, dims_reshape hr, toList_reshape hr⟩

/-- An open dimension after two known ones is what is left of the count, if the
known ones divide it. -/
theorem reshapeInfer_pair (t : Tensor α) (a b : Nat) :
    t.reshapeInfer [(a : Int), (b : Int), -1]
      = if a * b = 0 ∨ t.numel % (a * b) ≠ 0 then
          .error (.cannotInfer 2 [(a : Int), (b : Int), -1] t.dims)
        else t.reshape [a, b, t.numel / (a * b)] := by
  have ha : ¬ (a : Int) = -1 ∧ ¬ (a : Int) < 0 := by omega
  have hb : ¬ (b : Int) = -1 ∧ ¬ (b : Int) < 0 := by omega
  -- the two known dimensions are passed over, and the third is open
  have hopen : openDimension? [(a : Int), (b : Int), -1] 0 none = .ok (some 2) := by
    unfold openDimension?
    rw [if_neg ha.1, if_neg ha.2]
    unfold openDimension?
    rw [if_neg hb.1, if_neg hb.2]
    rfl
  have hknown : knownSize [(a : Int), (b : Int), -1] = a * b := by
    unfold knownSize
    have hfilter : ([(a : Int), (b : Int), -1]).filter (0 ≤ ·) = [(a : Int), (b : Int)] := by
      simp
    rw [hfilter]
    exact volume_pair a b
  unfold reshapeInfer
  rw [hopen]
  dsimp only
  rw [hknown]
  rfl

theorem reshapeInfer_eq (t : Tensor α) {a b : Nat} (hpos : 0 < a * b)
    (hdvd : t.numel % (a * b) = 0) :
    t.reshapeInfer [(a : Int), (b : Int), -1] = t.reshape [a, b, t.numel / (a * b)] := by
  rw [reshapeInfer_pair, if_neg (by omega)]

/-- An open dimension is the one that fits. -/
theorem reshapeInfer_eq_reshape (t : Tensor α) {a b c : Nat} (hpos : 0 < a * b)
    (hvolume : volume [a, b, c] = t.numel) :
    t.reshapeInfer [(a : Int), (b : Int), -1] = t.reshape [a, b, c] := by
  have hnumel : t.numel = a * b * c := by
    rw [← hvolume]
    show a * (b * (c * 1)) = a * b * c
    rw [Nat.mul_one, Nat.mul_assoc]
  have hdiv : t.numel / (a * b) = c := by
    rw [hnumel, Nat.mul_div_cancel_left _ hpos]
  have hmod : t.numel % (a * b) = 0 := by
    rw [hnumel, Nat.mul_mod_right]
  rw [t.reshapeInfer_eq hpos hmod, hdiv]

/-- A reshape with an open dimension succeeds when some dimension fits. -/
theorem reshapeInfer_ok (t : Tensor α) {a b c : Nat} (hpos : 0 < a * b)
    (hvolume : volume [a, b, c] = t.numel) (h : Addressable [a, b, c]) :
    ∃ r, t.reshapeInfer [(a : Int), (b : Int), -1] = .ok r
      ∧ r.dims = [a, b, c] ∧ r.toList = t.toList := by
  rw [t.reshapeInfer_eq_reshape hpos hvolume]
  exact t.reshape_ok hvolume h

@[simp] theorem dims_contiguous (t : Tensor α) : t.contiguous.dims = t.dims := by
  unfold contiguous
  split
  · rfl
  · exact dims_withContents

@[simp] theorem device_contiguous (t : Tensor α) : t.contiguous.device = t.device := by
  unfold contiguous
  split <;> rfl

@[simp] theorem toList_contiguous (t : Tensor α) : t.contiguous.toList = t.toList := by
  unfold contiguous
  split
  · rfl
  · exact toList_withContents

/-! ## §3. Short tensors. -/

/-- Short axes can be addressed. -/
theorem addressable_min (n : Nat) : Addressable [min n 8] := by
  have hle : min n 8 ≤ 8 := Nat.min_le_right n 8
  unfold Addressable
  rw [extent_cons]
  show (if min n 8 = 0 then 1 else min n 8) * 1 ≤ 9223372036854775807
  split <;> omega

/-- A few copies of a value along one axis, eight at most. -/
def few (n : Nat) (x : α) : Tensor α :=
  full [min n 8] (addressable_min n) x

theorem toList_few (n : Nat) (x : α) : (few n x).toList = List.replicate (min n 8) x := by
  unfold few full
  rw [toList_build, volume_singleton]

theorem addressable_min_pair (m n : Nat) : Addressable [min m 8, min n 8] := by
  have hm : min m 8 ≤ 8 := Nat.min_le_right m 8
  have hn : min n 8 ≤ 8 := Nat.min_le_right n 8
  unfold Addressable
  rw [extent_cons, extent_cons]
  show (if min m 8 = 0 then 1 else min m 8) * ((if min n 8 = 0 then 1 else min n 8) * 1)
    ≤ 9223372036854775807
  have hrows : (if min m 8 = 0 then 1 else min m 8) ≤ 8 := by
    split <;> omega
  have hrow : (if min n 8 = 0 then 1 else min n 8) * 1 ≤ 8 := by
    split <;> omega
  exact Nat.le_trans (Nat.mul_le_mul hrows hrow) (by decide)

/-- A few rows of copies of a value, eight by eight at most. -/
def fewRows (m n : Nat) (x : α) : Tensor α :=
  full [min m 8, min n 8] (addressable_min_pair m n) x

end Tensor

/-- A count that can be addressed is itself as a signed word. -/
theorem signedWord_eq {n : Nat} (h : n ≤ maxExtent) : signedWord n = n := by
  unfold maxExtent at h
  unfold signedWord
  -- a count up to `maxExtent` lies in the lower half of the words
  refine Int.bmod_eq_of_le ?_ ?_
  · show -((18446744073709551616 : Int) / 2) ≤ n
    omega
  · show (n : Int) < (18446744073709551616 + 1) / 2
    omega

end ChannelNorm

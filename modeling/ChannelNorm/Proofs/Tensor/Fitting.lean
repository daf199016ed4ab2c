/-
  ChannelNorm.Proofs.Tensor.Fitting
  ─────────────────────────────────
  **WHICH SHAPES AN OPERATION ACCEPTS.**

  Whether an operation on tensors succeeds is a matter of shapes alone:

      reshape        the target has as many elements and can be addressed
      open dimension the known dimensions are counts that divide the number of
                     elements, and none of them is zero
      affine         each operand, aligned on the right, has dimensions of the
                     target's length or of length one

  so what succeeds for one tensor succeeds for every other of its shape, and
  most of it for every other of its size.
-/
import ChannelNorm.Proofs.Tensor.Broadcast

namespace ChannelNorm

variable {α : Type}

/-! ## §1. Reshapes. -/

namespace Tensor

theorem reshape_error (t : Tensor α) {target : List Nat} (h : volume target ≠ t.numel) :
    t.reshape target = .error (.reshapeCount t.numel target t.dims) := by
  unfold reshape
  rw [dif_neg h]

/-- A reshape keeps the number of elements. -/
theorem numel_reshape {t r : Tensor α} {target : List Nat} (h : t.reshape target = .ok r) :
    r.numel = t.numel := by
  rw [← r.length_toList, toList_reshape h, t.length_toList]

theorem volume_of_reshape {t r : Tensor α} {target : List Nat} (h : t.reshape target = .ok r) :
    volume target = t.numel :=
  (congrArg volume (dims_reshape h)).symm.trans (numel_reshape h)

/-- A reshape does not look at the shape it comes from. -/
theorem reshape_reshape {t r : Tensor α} {target other : List Nat} (h : t.reshape target = .ok r)
    (hother : volume other = t.numel) : r.reshape other = t.reshape other := by
  unfold reshape
  rw [dif_pos (hother.trans (numel_reshape h).symm), dif_pos hother]
  by_cases haddr : Addressable other
  · rw [dif_pos haddr, dif_pos haddr]
    simp only [toList_reshape h, device_reshape h]
  · rw [dif_neg haddr, dif_neg haddr]

/-- Two known dimensions before an open one are counts. -/
theorem reshapeInfer_error (t : Tensor α) {a b : Int} (h : a < 0 ∨ b < 0) :
    ∃ e, t.reshapeInfer [a, b, -1] = .error e := by
  have hopen : ∃ e, openDimension? [a, b, -1] 0 none = .error e := by
    unfold openDimension?
    by_cases hopen : a = -1
    · -- a second open dimension follows, unless the one between is refused
      rw [if_pos hopen]
      unfold openDimension?
      by_cases hb : b = -1
      · exact ⟨_, by rw [if_pos hb]⟩
      · rw [if_neg hb]
        by_cases hneg : b < 0
        · exact ⟨_, if_pos hneg⟩
        · exact ⟨_, if_neg hneg⟩
    · rw [if_neg hopen]
      by_cases ha : a < 0
      · exact ⟨_, if_pos ha⟩
      · rw [if_neg ha]
        have hneg : b < 0 := h.resolve_left ha
        unfold openDimension?
        by_cases hb : b = -1
        · exact ⟨_, if_pos hb⟩
        · rw [if_neg hb]
          exact ⟨_, if_pos hneg⟩
  obtain ⟨e, he⟩ := hopen
  refine ⟨e, ?_⟩
  unfold reshapeInfer
  rw [he]

/-- What a reshape with an open dimension tells when it succeeds. -/
theorem reshapeInfer_inv {t r : Tensor α} {a b : Int} (h : t.reshapeInfer [a, b, -1] = .ok r) :
    ∃ m n : Nat, a = m ∧ b = n ∧ 0 < m * n ∧ t.numel % (m * n) = 0
      ∧ t.reshape [m, n, t.numel / (m * n)] = .ok r := by
  by_cases hneg : a < 0 ∨ b < 0
  · obtain ⟨e, he⟩ := t.reshapeInfer_error hneg
    rw [he] at h
    cases h
  · obtain ⟨m, rfl⟩ := Int.eq_ofNat_of_zero_le (show 0 ≤ a by omega)
    obtain ⟨n, rfl⟩ := Int.eq_ofNat_of_zero_le (show 0 ≤ b by omega)
    rw [reshapeInfer_pair] at h
    split at h
    · cases h
    · next hfits => exact ⟨m, n, rfl, rfl, by omega, by omega, h⟩

theorem numel_reshapeInfer {t r : Tensor α} {a b : Int}
    (h : t.reshapeInfer [a, b, -1] = .ok r) : r.numel = t.numel := by
  obtain ⟨m, n, _, _, _, _, hreshape⟩ := reshapeInfer_inv h
  exact numel_reshape hreshape

theorem device_reshapeInfer {t r : Tensor α} {a b : Int}
    (h : t.reshapeInfer [a, b, -1] = .ok r) : r.device = t.device := by
  obtain ⟨m, n, _, _, _, _, hreshape⟩ := reshapeInfer_inv h
  exact device_reshape hreshape

/-- Which dimension is inferred depends on the number of elements alone. -/
theorem reshapeInfer_of_numel_eq {t r : Tensor α} {a b : Int}
    (h : t.reshapeInfer [a, b, -1] = .ok r) {u : Tensor α} (hnumel : u.numel = t.numel) :
    ∃ s, u.reshapeInfer [a, b, -1] = .ok s ∧ s.dims = r.dims := by
  obtain ⟨m, n, rfl, rfl, hpos, hdvd, hreshape⟩ := reshapeInfer_inv h
  have haddr : Addressable [m, n, t.numel / (m * n)] := dims_reshape hreshape ▸ r.addressable
  obtain ⟨s, hs, hdims, _⟩ :=
    u.reshape_ok ((volume_of_reshape hreshape).trans hnumel.symm) haddr
  refine ⟨s, ?_, hdims.trans (dims_reshape hreshape).symm⟩
  rw [u.reshapeInfer_eq hpos (hnumel ▸ hdvd), hnumel]
  exact hs

end Tensor

/-! ## §2. Stretched operands. -/

/-- Dimensions that stretch to a target: aligned on the right, each has the
target's length or length one. -/
def Broadcastable (dims target : List Nat) : Prop :=
  StretchesTo (List.replicate (target.length - dims.length) 1 ++ dims) target

theorem broadcastable_refl (dims : List Nat) : Broadcastable dims dims := by
  unfold Broadcastable
  rw [Nat.sub_self]
  exact stretchesTo_refl dims

/-- Trailing dimensions stretch to all of them. -/
theorem broadcastable_append (leading dims : List Nat) : Broadcastable dims (leading ++ dims) := by
  unfold Broadcastable
  rw [List.length_append, Nat.add_sub_cancel]
  exact stretchesTo_replicate_append (stretchesTo_refl dims) leading

/-- Axes stretch only to what their lengths stretch to. -/
theorem stretchesTo_of_stretchAxes? {axes out : List Axis} {target : List Nat}
    (h : stretchAxes? axes target = some out) : StretchesTo (dimsOf axes) target := by
  fun_induction stretchAxes? axes target generalizing out with
  | case1 => trivial
  | case2 a as ds ih =>
      obtain ⟨bs, hbs, _⟩ := Option.map_eq_some_iff.1 h
      exact ⟨.inl rfl, ih hbs⟩
  | case3 a as d ds _ hone ih =>
      obtain ⟨bs, hbs, _⟩ := Option.map_eq_some_iff.1 h
      exact ⟨.inr hone, ih hbs⟩
  | case4 => cases h
  | case5 => cases h

theorem dimsOf_padAxes (axes : List Axis) (rank : Nat) :
    dimsOf (padAxes axes rank) = List.replicate (rank - axes.length) 1 ++ dimsOf axes := by
  unfold padAxes dimsOf
  rw [List.map_append, List.map_replicate]

namespace Tensor

/-- **An operand is stretched exactly when its dimensions stretch.** -/
theorem exists_broadcast?_iff (t : Tensor α) (target : List Nat) :
    (∃ values, t.broadcast? target = some values) ↔ Broadcastable t.dims target := by
  have hlength : t.dims.length = t.layout.axes.length := List.length_map _
  have hdims : dimsOf (padAxes t.layout.axes target.length)
      = List.replicate (target.length - t.dims.length) 1 ++ t.dims := by
    rw [dimsOf_padAxes, hlength]
    rfl
  unfold Broadcastable
  rw [← hdims]
  constructor
  · rintro ⟨values, hvalues⟩
    unfold broadcast? at hvalues
    split at hvalues
    · cases hvalues
    · next out hout => exact stretchesTo_of_stretchAxes? hout
  · intro h
    obtain ⟨out, hout, _⟩ := exists_stretchAxes?_eq h
    unfold broadcast?
    split
    · next hnone =>
        rw [hnone] at hout
        cases hout
    · exact ⟨_, rfl⟩

/-- An operand that contributes at every place is stretched. -/
theorem StretchedBy.broadcastable [Zero α] {operand : Tensor α} {dims : List Nat} {p : Nat → Nat}
    (h : operand.StretchedBy dims p) : Broadcastable operand.dims dims := by
  obtain ⟨values, hvalues, _⟩ := h
  exact (operand.exists_broadcast?_iff dims).1 ⟨values, hvalues⟩

section
variable {t r : Tensor α} {f : α → α → α} {operand scale shift : Option (Tensor α)}

theorem exists_combine_iff :
    (∃ r, t.combine f operand = .ok r)
      ↔ ∀ o, operand = some o → Broadcastable o.dims t.dims := by
  cases operand with
  | none => exact iff_of_true ⟨t, rfl⟩ nofun
  | some o =>
      have hsome : (∀ o', some o = some o' → Broadcastable o'.dims t.dims)
          ↔ Broadcastable o.dims t.dims :=
        ⟨fun h => h o rfl, fun h o' ho' => Option.some.inj ho' ▸ h⟩
      rw [hsome, ← exists_broadcast?_iff]
      unfold combine
      dsimp only
      cases o.broadcast? t.dims with
      | none => exact iff_of_false (fun ⟨_, h⟩ => nomatch h) fun ⟨_, h⟩ => nomatch h
      | some values => exact iff_of_true ⟨_, rfl⟩ ⟨_, rfl⟩

/-- A combination is the tensor itself, or the tensor overwritten. -/
theorem eq_or_eq_overwrite_of_combine (h : t.combine f operand = .ok r) :
    r = t ∨ ∃ values, r = t.overwrite values := by
  unfold combine at h
  split at h
  · cases h
    exact .inl rfl
  · split at h
    · cases h
    · cases h
      exact .inr ⟨_, rfl⟩

theorem dims_combine (h : t.combine f operand = .ok r) : r.dims = t.dims := by
  rcases eq_or_eq_overwrite_of_combine h with rfl | ⟨values, rfl⟩ <;> rfl

theorem device_combine (h : t.combine f operand = .ok r) : r.device = t.device := by
  rcases eq_or_eq_overwrite_of_combine h with rfl | ⟨values, rfl⟩ <;> rfl

variable [Mul α] [Add α]

theorem affine_eq_ok_iff :
    t.affine scale shift = .ok r
      ↔ ∃ scaled, t.contiguous.combine (· * ·) scale = .ok scaled
        ∧ scaled.combine (· + ·) shift = .ok r := by
  unfold affine
  exact bind_eq_ok

theorem dims_affine (h : t.affine scale shift = .ok r) : r.dims = t.dims := by
  obtain ⟨scaled, hscaled, hr⟩ := affine_eq_ok_iff.1 h
  rw [dims_combine hr, dims_combine hscaled, dims_contiguous]

theorem device_affine (h : t.affine scale shift = .ok r) : r.device = t.device := by
  obtain ⟨scaled, hscaled, hr⟩ := affine_eq_ok_iff.1 h
  rw [device_combine hr, device_combine hscaled, device_contiguous]

/-- **Scaling and shifting succeeds exactly when both operands stretch.** -/
theorem exists_affine_iff :
    (∃ r, t.affine scale shift = .ok r)
      ↔ (∀ s, scale = some s → Broadcastable s.dims t.dims)
        ∧ ∀ s, shift = some s → Broadcastable s.dims t.dims := by
  constructor
  · intro h
    obtain ⟨r, hr⟩ := h
    obtain ⟨scaled, hscaled, hshifted⟩ := affine_eq_ok_iff.1 hr
    have hdims : scaled.dims = t.dims := (dims_combine hscaled).trans (dims_contiguous t)
    have hscale := exists_combine_iff.1 ⟨scaled, hscaled⟩
    have hshift := exists_combine_iff.1 ⟨r, hshifted⟩
    rw [dims_contiguous] at hscale
    rw [hdims] at hshift
    exact ⟨hscale, hshift⟩
  · intro h
    obtain ⟨hscale, hshift⟩ := h
    rw [← dims_contiguous t] at hscale
    obtain ⟨scaled, hscaled⟩ := exists_combine_iff.2 hscale
    have hdims : scaled.dims = t.dims := (dims_combine hscaled).trans (dims_contiguous t)
    rw [← hdims] at hshift
    obtain ⟨r, hr⟩ := exists_combine_iff.2 hshift
    exact ⟨r, affine_eq_ok_iff.2 ⟨scaled, hscaled, hr⟩⟩

end

end Tensor

end ChannelNorm

/-
  ChannelNorm.Proofs.Tensor.Constant
  ──────────────────────────────────
  **TENSORS OF ONE VALUE, AND WHAT THEY DO TO OTHERS.**

  A constant tensor is contiguous and holds one value throughout.  Reshaped,
  tiled or stretched it holds no other, so combining a tensor with it is the
  identity as soon as that value is neutral on the right:

      f x value = x for all x   →   t.combine f (some constant) = ok t

  The result is the tensor itself, strides and buffer included: what is written
  to each position is what was there.
-/
import ChannelNorm.Proofs.Tensor.Buffer
import ChannelNorm.Proofs.Tensor.Fitting

namespace ChannelNorm

variable {α : Type}

/-! ## §1. Writing what is there. -/

/-- Writing back what was read changes nothing. -/
theorem writeAll_readAll {buffer : Array α} {positions : List Nat}
    (h : ∀ p ∈ positions, p < buffer.size) :
    writeAll buffer positions (readAll buffer positions) = buffer := by
  induction positions with
  | nil => rfl
  | cons p ps ih =>
      have hp : p < buffer.size := h p (List.mem_cons_self ..)
      have hread : readAll buffer (p :: ps) = buffer[p] :: readAll buffer ps :=
        List.filterMap_cons_some (Array.getElem?_eq_getElem hp)
      have hsame : buffer.setIfInBounds p buffer[p] = buffer := by
        simp [Array.setIfInBounds, hp]
      have hstep : writeAll buffer (p :: ps) (buffer[p] :: readAll buffer ps)
          = writeAll (buffer.setIfInBounds p buffer[p]) ps (readAll buffer ps) := rfl
      rw [hread, hstep, hsame]
      exact ih fun q hq => h q (List.mem_cons_of_mem p hq)

/-- A value that is neutral on the right, met at every place. -/
theorem zipWith_neutral {β : Type} {f : α → β → α} {xs : List α} {ys : List β}
    (hlen : xs.length ≤ ys.length) (h : ∀ x, ∀ y ∈ ys, f x y = x) :
    List.zipWith f xs ys = xs := by
  induction xs generalizing ys with
  | nil => rfl
  | cons x xs ih =>
      cases ys with
      | nil => exact absurd hlen (Nat.not_succ_le_zero _)
      | cons y ys =>
          rw [List.zipWith_cons_cons, h x y (List.mem_cons_self ..),
            ih (Nat.le_of_succ_le_succ hlen) fun x' y' hy' => h x' y' (List.mem_cons_of_mem y hy')]

namespace Tensor

/-- A tensor overwritten with its own contents is itself. -/
theorem overwrite_toList (t : Tensor α) : t.overwrite t.toList = t := by
  have hbuffer : writeAll t.buffer t.layout.offsets t.toList = t.buffer := writeAll_readAll t.bound
  obtain ⟨layout, buffer, device, bound⟩ := t
  unfold overwrite
  congr 1

/-- A contiguous tensor needs no copy. -/
theorem contiguous_eq_self {t : Tensor α} (h : t.isContiguous = true) : t.contiguous = t :=
  if_pos h

theorem isContiguous_reshape {t r : Tensor α} {target : List Nat} (h : t.reshape target = .ok r) :
    r.isContiguous = true := by
  obtain ⟨_, _, rfl⟩ := reshape_eq_build h
  exact isContiguous_build

/-- Stretching makes up no values. -/
theorem mem_toList_of_broadcast? {t : Tensor α} {target : List Nat}
    {values : Vector α (volume target)} (h : t.broadcast? target = some values) {x : α}
    (hx : x ∈ values.toList) : x ∈ t.toList := by
  unfold broadcast? at h
  split at h
  · cases h
  · next axes haxes =>
      cases h
      have hread : x ∈ readAll t.buffer (offsetsFrom axes 0) := hx
      unfold readAll at hread
      obtain ⟨p, hp, hvalue⟩ := List.mem_filterMap.1 hread
      have hoffset := mem_offsetsFrom_of_stretchAxes? haxes hp
      rw [offsetsFrom_padAxes] at hoffset
      exact List.mem_filterMap.2 ⟨p, hoffset, hvalue⟩

/-! ## §2. Constant tensors. -/

/-- A contiguous tensor of one value. -/
structure Constant (t : Tensor α) (value : α) : Prop where
  contiguous : t.isContiguous = true
  entries : ∀ x ∈ t.toList, x = value

namespace Constant

variable {t r : Tensor α} {value : α} (h : t.Constant value)
include h

/-- Another shape of it is constant. -/
theorem reshape {target : List Nat} (hr : t.reshape target = .ok r) : r.Constant value := by
  refine ⟨isContiguous_reshape hr, ?_⟩
  rw [toList_reshape hr]
  exact h.entries

/-- Copies of it laid end to end are constant. -/
theorem tile {times : Nat} (hr : t.tile times = .ok r) : r.Constant value := by
  obtain ⟨_, _, rfl⟩ := tile_eq_build hr
  refine ⟨isContiguous_build, fun x hx => ?_⟩
  rw [toList_build, tiled_eq_flatten] at hx
  obtain ⟨xs, hxs, hx⟩ := List.mem_flatten.1 hx
  rw [List.eq_of_mem_replicate hxs] at hx
  exact h.entries x hx

/-- **Combining with a neutral value is the identity**, where the operand
stretches at all. -/
theorem combine_eq_self {u : Tensor α} {f : α → α → α} (hneutral : ∀ x, f x value = x)
    (hstretch : Broadcastable t.dims u.dims) : u.combine f (some t) = .ok u := by
  obtain ⟨values, hvalues⟩ := (exists_broadcast?_iff t u.dims).2 hstretch
  have hcontents : List.zipWith f u.toList values.toList = u.toList := by
    refine zipWith_neutral ?_ fun x y hy => ?_
    · rw [length_toList, Vector.length_toList]
      exact Nat.le_refl _
    · rw [h.entries y (mem_toList_of_broadcast? hvalues hy)]
      exact hneutral x
  unfold combine
  dsimp only
  rw [hvalues]
  dsimp only
  rw [hcontents, u.overwrite_toList]

end Constant

theorem constant_full (dims : List Nat) (h : Addressable dims) (value : α) :
    (full dims h value).Constant value := by
  refine ⟨isContiguous_build, fun x hx => ?_⟩
  unfold full at hx
  rw [toList_build] at hx
  exact List.eq_of_mem_replicate hx

end Tensor

end ChannelNorm

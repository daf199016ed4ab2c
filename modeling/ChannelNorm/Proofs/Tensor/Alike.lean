/-
  ChannelNorm.Proofs.Tensor.Alike
  ───────────────────────────────
  **TENSORS THAT DIFFER IN THEIR STRIDES ONLY.**

  Two tensors are alike when they have one shape, one device and one list of
  contents; their strides and buffers may differ.  Everything that is read of a
  tensor through its contents is the same for both, in particular each element
  and each channel, and what is built in row-major order on the shape and
  device of either is the same tensor:

      t ≈ u   →   t.elem k = u.elem k,   t.plane c = u.plane c,
                  t.withContents xs = u.withContents xs
-/
import ChannelNorm.Proofs.Tensor.Plane

namespace ChannelNorm

variable {α β : Type}

/-! ## §1. What is built on the shape and device of a tensor. -/

namespace Tensor

variable {t u : Tensor α}

/-- A value for each place, on one shape and device. -/
theorem withContents_range_congr (hdims : t.dims = u.dims) (hdevice : t.device = u.device)
    {f g : Nat → β} (hfg : ∀ k < t.numel, f k = g k) :
    t.withContents ((List.range t.numel).map f) (by simp)
      = u.withContents ((List.range u.numel).map g) (by simp) := by
  have hnumel : t.numel = u.numel := congrArg volume hdims
  have hcontents : (List.range t.numel).map f = (List.range u.numel).map g := by
    rw [← hnumel]
    exact List.map_congr_left fun k hk => hfg k (List.mem_range.1 hk)
  unfold withContents
  congr 1

/-- A value for each channel is a value for each number below their number. -/
theorem perChannel_eq_ofVector {n : Nat} (hchannels : t.channels = n) (h : Addressable [n])
    {f g : Nat → β} (hfg : ∀ c < n, f c = g c) :
    t.perChannel (.ofFn fun c => f c) = .ofVector (.ofFn fun c : Fin n => g c) h t.device := by
  subst hchannels
  unfold perChannel
  congr 2
  exact funext fun c => hfg c c.isLt

/-- A value for each channel, on one number of channels and one device. -/
theorem perChannel_congr (hchannels : t.channels = u.channels) (hdevice : t.device = u.device)
    {f g : Nat → β} (hfg : ∀ c < t.channels, f c = g c) :
    t.perChannel (.ofFn fun c => f c) = u.perChannel (.ofFn fun c => g c) := by
  show _ = ofVector (.ofFn fun c : Fin u.channels => g c) _ u.device
  rw [← hdevice]
  exact perChannel_eq_ofVector hchannels _ (hchannels ▸ hfg)

end Tensor

/-! ## §2. Alike tensors. -/

/-- One shape, one device and one list of contents. -/
structure Tensor.Alike (t u : Tensor α) : Prop where
  dims : t.dims = u.dims
  device : t.device = u.device
  contents : t.toList = u.toList

namespace Tensor.Alike

variable {t u : Tensor α}

theorem refl (t : Tensor α) : t.Alike t :=
  ⟨rfl, rfl, rfl⟩

theorem symm (h : t.Alike u) : u.Alike t :=
  ⟨h.dims.symm, h.device.symm, h.contents.symm⟩

theorem trans {w : Tensor α} (h : t.Alike u) (h' : u.Alike w) : t.Alike w :=
  ⟨h.dims.trans h'.dims, h.device.trans h'.device, h.contents.trans h'.contents⟩

section
variable (h : t.Alike u)
include h

theorem rank : t.rank = u.rank :=
  rank_congr h.dims

theorem numel : t.numel = u.numel :=
  congrArg volume h.dims

theorem channels : t.channels = u.channels :=
  channels_congr h.dims

theorem elementsPerChannel : t.elementsPerChannel = u.elementsPerChannel := by
  unfold Tensor.elementsPerChannel
  rw [h.numel, h.channels]

theorem elem [Zero α] (k : Nat) : t.elem k = u.elem k := by
  unfold Tensor.elem
  rw [h.contents]

/-- A channel holds the same elements, in the same order of visit. -/
theorem planeIn [Zero α] (hrank : 2 ≤ t.rank) (order : VisitOrder) {c : Nat}
    (hc : c < t.channels) : t.planeIn order c = u.planeIn order c := by
  rw [t.planeIn_eq_map hrank order hc,
    u.planeIn_eq_map (h.rank ▸ hrank) order (h.channels ▸ hc), h.dims]
  exact List.map_congr_left fun k _ => h.elem k

/-! ### What is built on the shape and device of either. -/

/-- A value for each place, laid out in order. -/
theorem withContents_range_eq {f g : Nat → β} (hfg : ∀ k < t.numel, f k = g k) :
    t.withContents ((List.range t.numel).map f) (by simp)
      = u.withContents ((List.range u.numel).map g) (by simp) :=
  withContents_range_congr h.dims h.device hfg

/-- A value for each channel. -/
theorem perChannel_eq {f g : Nat → β} (hfg : ∀ c < t.channels, f c = g c) :
    t.perChannel (.ofFn fun c => f c) = u.perChannel (.ofFn fun c => g c) :=
  perChannel_congr h.channels h.device hfg

/-- The same values written in place. -/
theorem overwrite {xs ys : List α} (hx : xs.length = t.numel) (hxy : xs = ys) :
    (t.overwrite xs).Alike (u.overwrite ys) := by
  subst hxy
  refine ⟨h.dims, h.device, ?_⟩
  rw [toList_overwrite hx, toList_overwrite (hx.trans h.numel)]

end

end Tensor.Alike

/-! ## §3. Tensors that may be missing. -/

/-- Both missing, or both there and alike. -/
def OptionAlike (p q : Option (Tensor α)) : Prop :=
  Option.Rel Tensor.Alike p q

namespace OptionAlike

variable {p q : Option (Tensor α)}

theorem refl (p : Option (Tensor α)) : OptionAlike p p := by
  cases p with
  | none => exact .none
  | some t => exact .some (.refl t)

theorem trans {r : Option (Tensor α)} (h : OptionAlike p q) (h' : OptionAlike q r) :
    OptionAlike p r := by
  cases h with
  | none => exact h'
  | some h =>
      cases h' with
      | some h' => exact .some (h.trans h')

section
variable (h : OptionAlike p q)
include h

theorem paramAt [Zero α] (default : α) (c : Nat) :
    paramAt p default c = paramAt q default c := by
  cases h with
  | none => rfl
  | some h => exact h.elem c

end

end OptionAlike

end ChannelNorm

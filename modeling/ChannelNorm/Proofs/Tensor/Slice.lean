/-
  ChannelNorm.Proofs.Tensor.Slice
  ───────────────────────────────
  **TENSORS THAT AGREE ON ONE CHANNEL.**

  Two tensors of one layout agree on channel `c` when they hold the same element
  at every index with second coordinate `c`; the rest of their contents, and
  their devices, may differ.  Two parameters agree in entry `c`.  What is read of
  a channel is then the same for both, and what is computed place by place, or
  channel by channel, from it agrees again:

      t, u agree on c   →   t.planeIn order c = u.planeIn order c
      f, g agree on the places of c   →   their tensors agree on c
-/
import ChannelNorm.Proofs.BatchNorm.Training

namespace ChannelNorm

variable {α β : Type}

/-! ## §1. Elements by their index. -/

/-- An index in range has its position. -/
theorem offsetOf?_of_mem {axes : List Axis} {index : List Nat}
    (h : index ∈ indicesOf (dimsOf axes)) :
    Layout.offsetOf? axes index = some (positionOf axes index) := by
  induction axes generalizing index with
  | nil =>
      rw [mem_indicesOf_nil.1 h]
      rfl
  | cons a as ih =>
      obtain ⟨i, is, rfl, hi, his⟩ := exists_cons_of_mem_indicesOf h
      show (if i < a.len then (Layout.offsetOf? as is).map (i * a.stride + ·) else none) = _
      rw [if_pos hi, ih his]
      rfl

/-- Any other one has none. -/
theorem offsetOf?_of_notMem {axes : List Axis} {index : List Nat}
    (h : index ∉ indicesOf (dimsOf axes)) : Layout.offsetOf? axes index = none := by
  fun_induction Layout.offsetOf? axes index with
  | case1 => exact absurd (mem_indicesOf_nil.2 rfl) h
  | case2 a as i is hi ih =>
      have his : is ∉ indicesOf (dimsOf as) := fun his => h (cons_mem_indicesOf.2 ⟨hi, his⟩)
      rw [ih his]
      rfl
  | case3 => rfl
  | case4 => rfl

namespace Tensor

/-- The element at an index is the one at its place in the contents. -/
theorem get?_of_mem (t : Tensor α) {index : List Nat} (h : index ∈ indicesOf t.dims) :
    t.get? index = t.toList[flatIndex t.dims index]? := by
  unfold get?
  rw [offsetOf?_of_mem h, t.getElem?_toList h]
  rfl

theorem get?_of_notMem (t : Tensor α) {index : List Nat} (h : index ∉ indicesOf t.dims) :
    t.get? index = none := by
  unfold get?
  rw [offsetOf?_of_notMem h]
  rfl

/-! ## §2. Agreement on a channel. -/

/-- A layout is its axes. -/
theorem layout_eq {l l' : Layout} (h : l.axes = l'.axes) : l = l' := by
  cases l
  cases l'
  cases h
  rfl

/-- One layout, and the same element at every index of channel `c`. -/
structure AgreeOn (c : Nat) (t u : Tensor α) : Prop where
  layout : t.layout = u.layout
  slice : ∀ index : List Nat, index[1]? = some c → t.get? index = u.get? index

section
variable [Zero α] {c : Nat} {t u : Tensor α}

/-- Agreement on a channel, place by place. -/
theorem agreeOn_iff (hrank : 2 ≤ t.rank) (hlayout : t.layout = u.layout) :
    t.AgreeOn c u ↔ ∀ k < t.numel, channelOf t.dims k = c → t.elem k = u.elem k := by
  have hdims : u.dims = t.dims := congrArg Layout.dims hlayout.symm
  have hnumel : u.numel = t.numel := congrArg volume hdims
  obtain ⟨n, C, rest, hrest⟩ := exists_eq_cons_cons hrank
  constructor
  · intro h k hk hc
    obtain ⟨index, hindex, rfl⟩ := exists_flatIndex_eq hk
    have hmem := hindex
    rw [hrest] at hindex hc
    obtain ⟨j, index', rfl, _, hindex'⟩ := exists_cons_of_mem_indicesOf hindex
    obtain ⟨d, js, rfl, _, _⟩ := exists_cons_of_mem_indicesOf hindex'
    rw [channelOf_flatIndex hindex] at hc
    subst hc
    have hread := h.slice (j :: d :: js) rfl
    rw [t.get?_of_mem hmem, u.get?_of_mem (hdims ▸ hmem), hdims, t.getElem?_toList_eq_elem hk,
      u.getElem?_toList_eq_elem (hnumel ▸ hk)] at hread
    exact Option.some.inj hread
  · intro h
    refine ⟨hlayout, fun index hc => ?_⟩
    by_cases hmem : index ∈ indicesOf t.dims
    · have hk : flatIndex t.dims index < t.numel := flatIndex_lt hmem
      rw [t.get?_of_mem hmem, u.get?_of_mem (hdims ▸ hmem), hdims, t.getElem?_toList_eq_elem hk,
        u.getElem?_toList_eq_elem (hnumel ▸ hk)]
      refine congrArg some (h _ hk ?_)
      rw [hrest] at hmem ⊢
      obtain ⟨j, index', rfl, _, hindex'⟩ := exists_cons_of_mem_indicesOf hmem
      obtain ⟨d, js, rfl, _, _⟩ := exists_cons_of_mem_indicesOf hindex'
      rw [channelOf_flatIndex hmem]
      exact Option.some.inj hc
    · rw [t.get?_of_notMem hmem, u.get?_of_notMem (hdims ▸ hmem)]

end

namespace AgreeOn

variable {c : Nat} {t u : Tensor α}

section
variable (h : t.AgreeOn c u)
include h

theorem dims : t.dims = u.dims :=
  congrArg Layout.dims h.layout

theorem numel : t.numel = u.numel :=
  congrArg volume h.dims

theorem channels : t.channels = u.channels :=
  channels_congr h.dims

theorem elementsPerChannel : t.elementsPerChannel = u.elementsPerChannel := by
  unfold Tensor.elementsPerChannel
  rw [h.numel, h.channels]

theorem isContiguous : t.isContiguous = u.isContiguous :=
  congrArg Layout.isContiguous h.layout

theorem planeAxes : t.planeAxes = u.planeAxes := by
  unfold Tensor.planeAxes
  rw [h.layout]

theorem elem [Zero α] (hrank : 2 ≤ t.rank) {k : Nat} (hk : k < t.numel)
    (hc : channelOf t.dims k = c) : t.elem k = u.elem k :=
  (agreeOn_iff hrank h.layout).1 h k hk hc

/-- A visit of the channel reads the same elements. -/
theorem planeIn [Zero α] (hrank : 2 ≤ t.rank) (order : VisitOrder) (hc : c < t.channels) :
    t.planeIn order c = u.planeIn order c := by
  rw [t.planeIn_eq_map hrank order hc, u.planeIn_eq_map (rank_congr h.dims ▸ hrank) order
    (h.channels ▸ hc), h.dims]
  refine List.map_congr_left fun k hk => ?_
  rw [← h.dims] at hk
  obtain ⟨hlt, hchan⟩ := (mem_channelPlaces hrank hc).1 hk
  exact h.elem hrank hlt hchan

end

/-- Tensors filled place by place agree on a channel whose places get the same. -/
theorem withContents [Zero β] (hrank : 2 ≤ t.rank) (hdims : t.dims = u.dims) {f g : Nat → β}
    (hfg : ∀ k < t.numel, channelOf t.dims k = c → f k = g k) :
    (t.withContents ((List.range t.numel).map f) (by simp)).AgreeOn c
      (u.withContents ((List.range u.numel).map g) (by simp)) := by
  have hnumel : t.numel = u.numel := congrArg volume hdims
  refine (agreeOn_iff ?_ (layout_eq (congrArg rowMajorAxes hdims))).2 fun k hk hc => ?_
  · exact (rank_congr dims_withContents).symm ▸ hrank
  · have hk' : k < t.numel := lt_of_lt_of_eq hk (congrArg volume dims_withContents)
    rw [dims_withContents] at hc
    rw [elem_of_toList_eq_map toList_withContents hk',
      elem_of_toList_eq_map toList_withContents (hnumel ▸ hk')]
    exact hfg k hk' hc

end AgreeOn

/-! ## §3. Agreement in an entry. -/

/-- One layout, and the same element at place `c` of the contents. -/
structure AgreeAt (c : Nat) (t u : Tensor α) : Prop where
  layout : t.layout = u.layout
  entry : t.toList[c]? = u.toList[c]?

namespace AgreeAt

variable {c : Nat} {t u : Tensor α}

theorem elem [Zero α] (h : t.AgreeAt c u) : t.elem c = u.elem c := by
  unfold Tensor.elem
  rw [List.getD_eq_getElem?_getD, List.getD_eq_getElem?_getD, h.entry]

/-- Vectors of values that are the same for channel `c` agree in entry `c`. -/
theorem perChannel (hchannels : t.channels = u.channels) {f g : Nat → β} (hfg : f c = g c) :
    (t.perChannel (.ofFn fun c => f c)).AgreeAt c (u.perChannel (.ofFn fun c => g c)) := by
  refine ⟨layout_eq (congrArg (fun n => rowMajorAxes [n]) hchannels), ?_⟩
  rw [toList_perChannel, toList_perChannel, Vector.toList_ofFn, Vector.toList_ofFn,
    List.getElem?_ofFn, List.getElem?_ofFn, hchannels]
  exact dite_congr rfl (fun _ => congrArg some hfg) fun _ => rfl

/-- Tensors overwritten with values that are the same for entry `c` still agree
in it. -/
theorem overwrite {γ : Type} (h : t.AgreeAt c u) {values values' : List γ}
    {f : γ → α → α} (hlength : values.length = t.numel) (hlength' : values'.length = t.numel)
    (hvalue : values[c]? = values'[c]?) :
    (t.overwrite (List.zipWith f values t.toList)).AgreeAt c
      (u.overwrite (List.zipWith f values' u.toList)) := by
  have hnumel : u.numel = t.numel :=
    congrArg (fun l : Layout => volume l.dims) h.layout.symm
  have hwritten : ∀ {w : Tensor α} {vs : List γ}, vs.length = w.numel →
      (w.overwrite (List.zipWith f vs w.toList)).toList = List.zipWith f vs w.toList := fun hvs =>
    toList_overwrite (by rw [List.length_zipWith, hvs, length_toList, Nat.min_self])
  refine ⟨h.layout, ?_⟩
  rw [hwritten hlength, hwritten (hlength'.trans hnumel.symm), List.getElem?_zipWith,
    List.getElem?_zipWith, hvalue, h.entry]

end AgreeAt

end Tensor

/-- Both missing, or both there and in agreement in entry `c`. -/
def EntryAgrees (c : Nat) (p q : Option (Tensor α)) : Prop :=
  Option.Rel (Tensor.AgreeAt c) p q

namespace EntryAgrees

variable {c : Nat} {p q : Option (Tensor α)} (h : EntryAgrees c p q)
include h

theorem paramAt [Zero α] (default : α) : paramAt p default c = paramAt q default c := by
  cases h with
  | none => rfl
  | some h => exact h.elem

theorem map_dims : p.map Tensor.dims = q.map Tensor.dims := by
  cases h with
  | none => rfl
  | some h => exact congrArg (fun l : Layout => some l.dims) h.layout

theorem all_isContiguous :
    p.all (·.isContiguous) = q.all (·.isContiguous)
      ∧ p.any (·.isContiguous) = q.any (·.isContiguous) := by
  cases h with
  | none => exact ⟨rfl, rfl⟩
  | some h =>
      have heq := congrArg Layout.isContiguous h.layout
      exact ⟨heq, heq⟩

end EntryAgrees

end ChannelNorm

/-
  ChannelNorm.Proofs.Tensor.Permute
  ─────────────────────────────────
  **AXES IN ANOTHER ORDER.**

  A list of numbers picks entries of a list: `picked order xs` holds the entries
  `order[0], order[1], …` of `xs`.  An order of axes picks every entry once, so
  what it picks is the list rearranged, and it can be undone:

      picked b (picked a xs)            =  picked (picked b a) xs
      picked order (picked inverse xs)  =  xs

  Strides and coordinates are picked alike, so an index of a permuted array is
  one of the array with its coordinates picked, and it has the same element.
-/
import ChannelNorm.Proofs.Tensor.Representation

namespace ChannelNorm

variable {α β γ : Type}

/-! ## §1. Picking the entries of a list. -/

/-- The entries of `xs` at the places that `order` lists. -/
def picked (order : List Nat) (xs : List β) : List β :=
  order.filterMap (xs[·]?)

/-- The numbers below `n`, each of them once. -/
structure AxisOrder (order : List Nat) (n : Nat) : Prop where
  length : order.length = n
  lt : ∀ a ∈ order, a < n
  nodup : order.Nodup

theorem isPerm_range_iff_axisOrder {order : List Nat} {n : Nat} :
    order.isPerm (List.range n) = true ↔ AxisOrder order n := by
  rw [StoredTensor.isPerm_range_iff, StoredTensor.meetsBadAxis_eq_false_iff, List.length_replicate]
  constructor
  · rintro ⟨hlength, hnodup, hall⟩
    exact ⟨hlength, fun a ha => (hall a ha).1, hnodup⟩
  · intro h
    refine ⟨h.length, h.nodup, fun a ha => ⟨h.lt a ha, ?_⟩⟩
    -- nothing is seen before the scan
    rw [List.getD_replicate false (h.lt a ha)]

theorem AxisOrder.perm {order : List Nat} {n : Nat} (h : AxisOrder order n) :
    order.Perm (List.range n) :=
  List.isPerm_iff.1 (isPerm_range_iff_axisOrder.2 h)

theorem picked_cons {a : Nat} {x : β} {xs : List β} (h : xs[a]? = some x) (order : List Nat) :
    picked (a :: order) xs = x :: picked order xs :=
  List.filterMap_cons_some h

theorem picked_range (xs : List β) : picked (List.range xs.length) xs = xs :=
  Layout.filterMap_getElem?_range xs

theorem map_picked (f : β → γ) (order : List Nat) (xs : List β) :
    (picked order xs).map f = picked order (xs.map f) := by
  unfold picked
  rw [List.map_filterMap]
  refine List.filterMap_congr fun k _ => ?_
  rw [List.getElem?_map]

section
variable {order : List Nat} {xs : List β}

/-- Entry `k` of what is picked is entry `order[k]`. -/
theorem getElem?_picked (h : ∀ a ∈ order, a < xs.length) (k : Nat) :
    (picked order xs)[k]? = (order[k]?).bind (xs[·]?) := by
  induction order generalizing k with
  | nil => rfl
  | cons a as ih =>
      have ha : xs[a]? = some _ := List.getElem?_eq_getElem (h a List.mem_cons_self)
      rw [picked_cons ha]
      cases k with
      | zero => exact ha.symm
      | succ k => exact ih (fun b hb => h b (List.mem_cons_of_mem a hb)) k

/-- Among the numbers in order, what is picked is the order itself. -/
theorem picked_from_range {n : Nat} (h : ∀ a ∈ order, a < n) :
    picked order (List.range n) = order := by
  induction order with
  | nil => rfl
  | cons a as ih =>
      rw [picked_cons (List.getElem?_range (h a List.mem_cons_self)),
        ih fun b hb => h b (List.mem_cons_of_mem a hb)]

/-- Two lists of one length are picked in pairs. -/
theorem zip_picked {ys : List γ} (h : ∀ a ∈ order, a < xs.length)
    (hlength : ys.length = xs.length) :
    (picked order xs).zip (picked order ys) = picked order (xs.zip ys) := by
  induction order with
  | nil => rfl
  | cons a as ih =>
      have ha : a < xs.length := h a List.mem_cons_self
      have ha' : a < ys.length := hlength ▸ ha
      have hx : xs[a]? = some xs[a] := List.getElem?_eq_getElem ha
      have hy : ys[a]? = some ys[a] := List.getElem?_eq_getElem ha'
      have hpair : (xs.zip ys)[a]? = some (xs[a], ys[a]) :=
        List.getElem?_zip_eq_some.2 ⟨hx, hy⟩
      rw [picked_cons hx, picked_cons hy, picked_cons hpair, List.zip_cons_cons,
        ih fun b hb => h b (List.mem_cons_of_mem a hb)]

/-- Picking twice is picking once, at the entries of the first order that the second
one picks. -/
theorem picked_picked {a : List Nat} (h : ∀ x ∈ a, x < xs.length) (b : List Nat) :
    picked b (picked a xs) = picked (picked b a) xs := by
  unfold picked
  rw [List.filterMap_filterMap]
  exact List.filterMap_congr fun k _ => getElem?_picked h k

/-- An order of the axes rearranges. -/
theorem AxisOrder.picked_perm (h : AxisOrder order xs.length) : (picked order xs).Perm xs := by
  have hperm := h.perm.filterMap (xs[·]?)
  rwa [Layout.filterMap_getElem?_range] at hperm

theorem AxisOrder.length_picked (h : AxisOrder order xs.length) :
    (picked order xs).length = xs.length :=
  h.picked_perm.length_eq

end

/-- The order that puts every entry back: where each number stands. -/
def inverseOrder (order : List Nat) : List Nat :=
  (List.range order.length).map fun a => order.idxOf a

namespace AxisOrder

variable {n : Nat} {order : List Nat} (h : AxisOrder order n)
include h

theorem mem_iff {a : Nat} : a ∈ order ↔ a < n := by
  rw [h.perm.mem_iff, List.mem_range]

theorem inverse : AxisOrder (inverseOrder order) n where
  length := by
    unfold inverseOrder
    rw [List.length_map, List.length_range, h.length]
  lt a ha := by
    obtain ⟨x, hx, rfl⟩ := List.mem_map.1 ha
    have hmem : x ∈ order := h.mem_iff.2 (h.length ▸ List.mem_range.1 hx)
    exact h.length ▸ List.idxOf_lt_length_of_mem hmem
  nodup := by
    refine List.nodup_range.map_on fun x hx y hy hxy => ?_
    have hmem : ∀ z ∈ List.range order.length, z ∈ order := fun z hz =>
      h.mem_iff.2 (h.length ▸ List.mem_range.1 hz)
    exact (List.idxOf_inj (hmem x hx)).1 hxy

theorem getElem?_inverseOrder {x : Nat} (hx : x < n) :
    (inverseOrder order)[x]? = some (order.idxOf x) := by
  unfold inverseOrder
  rw [List.getElem?_map, h.length, List.getElem?_range hx]
  rfl

/-- The number at a place stands at that place. -/
theorem picked_inverseOrder : picked order (inverseOrder order) = List.range n := by
  have hlt : ∀ a ∈ order, a < (inverseOrder order).length := fun a ha => by
    rw [h.inverse.length]
    exact h.lt a ha
  apply List.ext_getElem?
  intro k
  rw [getElem?_picked hlt]
  rcases Nat.lt_or_ge k n with hk | hk
  · have hk' : k < order.length := h.length.symm ▸ hk
    have hlt : order[k] < n := h.lt _ (List.getElem_mem hk')
    rw [List.getElem?_eq_getElem hk', List.getElem?_range hk, Option.bind_some,
      h.getElem?_inverseOrder hlt, h.nodup.idxOf_getElem k hk']
  · rw [List.getElem?_eq_none (h.length.trans_le hk), List.getElem?_eq_none (by simpa using hk)]
    rfl

/-- At the place where a number stands, there is that number. -/
theorem inverseOrder_picked : picked (inverseOrder order) order = List.range n := by
  have hlt : ∀ a ∈ inverseOrder order, a < order.length := fun a ha =>
    h.length ▸ h.inverse.lt a ha
  apply List.ext_getElem?
  intro x
  rw [getElem?_picked hlt]
  rcases Nat.lt_or_ge x n with hx | hx
  · have hidx : order.idxOf x < order.length := List.idxOf_lt_length_of_mem (h.mem_iff.2 hx)
    rw [h.getElem?_inverseOrder hx, List.getElem?_range hx, Option.bind_some,
      List.getElem?_eq_getElem hidx, List.getElem_idxOf]
  · rw [List.getElem?_eq_none (h.inverse.length.trans_le hx),
      List.getElem?_eq_none (by simpa using hx)]
    rfl

/-- Every list is picked from one list only. -/
theorem picked_eq_iff {xs ys : List β} (hxs : xs.length = n) (hys : ys.length = n) :
    picked order xs = ys ↔ xs = picked (inverseOrder order) ys := by
  constructor
  · rintro rfl
    have hlt : ∀ a ∈ order, a < xs.length := fun a ha => hxs ▸ h.lt a ha
    rw [picked_picked hlt, h.inverseOrder_picked, ← hxs, picked_range]
  · rintro rfl
    have hlt : ∀ a ∈ inverseOrder order, a < ys.length := fun a ha => hys ▸ h.inverse.lt a ha
    rw [picked_picked hlt, h.picked_inverseOrder, ← hys, picked_range]

/-- What is picked, entry by entry. -/
theorem picked_eq_iff_forall {xs ys : List β} (hxs : xs.length = n) (hys : ys.length = n) :
    picked order xs = ys ↔ ∀ k a : Nat, order[k]? = some a → xs[a]? = ys[k]? := by
  have hlt : ∀ a ∈ order, a < xs.length := fun a ha => hxs ▸ h.lt a ha
  constructor
  · rintro rfl k a hk
    rw [getElem?_picked hlt, hk, Option.bind_some]
  · intro hall
    apply List.ext_getElem?
    intro k
    rw [getElem?_picked hlt]
    cases hk : order[k]? with
    | some a => exact hall k a hk
    | none =>
        have hle : n ≤ k := h.length ▸ List.getElem?_eq_none_iff.1 hk
        rw [List.getElem?_eq_none (hys.trans_le hle)]
        rfl

/-- Two orders, one after the other. -/
theorem comp {b : List Nat} (hb : AxisOrder b n) : AxisOrder (picked b order) n := by
  have hperm : (picked b order).Perm order := AxisOrder.picked_perm (h.length.symm ▸ hb)
  refine ⟨hperm.length_eq.trans h.length, fun a ha => h.lt a (hperm.mem_iff.1 ha), ?_⟩
  exact hperm.nodup_iff.2 h.nodup

end AxisOrder

/-! ## §2. Permuted arrays. -/

/-- A displacement adds up the steps along the axes. -/
theorem displacementOf_eq_sum (axes : List SignedAxis) (i : List Nat) :
    displacementOf axes i = ((axes.zip i).map fun p => (p.2 : Int) * p.1.stride).sum := by
  induction axes generalizing i with
  | nil => rfl
  | cons a as ih =>
      cases i with
      | nil => rfl
      | cons j js =>
          show (j : Int) * a.stride + displacementOf as js = _
          rw [ih, List.zip_cons_cons, List.map_cons, List.sum_cons]

namespace AxisOrder

variable {order j : List Nat}

/-- An axis goes with its coordinate. -/
theorem zip_picked_perm {xs : List β} {ys : List γ} (h : AxisOrder order xs.length)
    (hlength : ys.length = xs.length) :
    ((picked order xs).zip (picked order ys)).Perm (xs.zip ys) := by
  have hzip : (xs.zip ys).length = xs.length := by
    rw [List.length_zip, hlength, Nat.min_self]
  rw [zip_picked h.lt hlength]
  exact AxisOrder.picked_perm (hzip.symm ▸ h)

/-- Axes and coordinates picked alike lead to the same element. -/
theorem displacementOf_picked {axes : List SignedAxis} (h : AxisOrder order axes.length)
    (hj : j.length = axes.length) :
    displacementOf (picked order axes) (picked order j) = displacementOf axes j := by
  rw [displacementOf_eq_sum, displacementOf_eq_sum]
  exact ((h.zip_picked_perm hj).map _).sum_eq

theorem picked_mem_indicesOf_iff {dims : List Nat} (h : AxisOrder order dims.length)
    (hj : j.length = dims.length) :
    picked order j ∈ indicesOf (picked order dims) ↔ j ∈ indicesOf dims := by
  have hpairs := AxisOrder.zip_picked_perm (hj.symm ▸ h) hj.symm
  have hlength : (picked order j).length = (picked order dims).length := by
    rw [h.length_picked, AxisOrder.length_picked (hj.symm ▸ h), hj]
  rw [mem_indicesOf_iff, mem_indicesOf_iff]
  refine and_congr (iff_of_true hlength hj) (forall_congr' fun p => ?_)
  rw [hpairs.mem_iff]

end AxisOrder

namespace StridedArray

variable {order : List Nat}

/-- Axis `k` of the result is axis `order[k]`. -/
def permuted (a : StridedArray α) (h : AxisOrder order a.rank) : StridedArray α :=
  a.reorder (picked order a.axes) (AxisOrder.picked_perm h)

theorem permute?_eq {a : StridedArray α} (h : AxisOrder order a.rank) :
    a.permute? order = some (a.permuted h) :=
  dif_pos (isPerm_range_iff_axisOrder.2 h)

section
variable {a : StridedArray α} {h : AxisOrder order a.rank}

theorem dims_permuted : (a.permuted h).dims = picked order a.dims :=
  map_picked SignedAxis.len order a.axes

theorem rank_permuted : (a.permuted h).rank = a.rank :=
  AxisOrder.length_picked h

/-- **A permuted array has the elements of the array**, at the indices with their
coordinates picked. -/
theorem get?_permuted {j : List Nat} (hj : j.length = a.rank) :
    (a.permuted h).get? (picked order j) = a.get? j := by
  have hlen : AxisOrder order a.dims.length := a.length_dims.symm ▸ h
  have hmem : picked order j ∈ indicesOf (lensOf (a.permuted h).axes) ↔ j ∈ indicesOf a.dims := by
    rw [← hlen.picked_mem_indicesOf_iff (hj.trans a.length_dims.symm), ← dims_permuted]
    rfl
  unfold get?
  by_cases hin : j ∈ indicesOf a.dims
  · rw [displacementOf?_of_mem (hmem.2 hin), displacementOf?_of_mem hin]
    show some (displacementOf (picked order a.axes) (picked order j)) >>= _ = _
    rw [AxisOrder.displacementOf_picked h hj]
    rfl
  · rw [displacementOf?_of_notMem (mt hmem.1 hin), displacementOf?_of_notMem hin]
    rfl

/-- Permuting twice is permuting once. -/
theorem permuted_permuted {b : List Nat} (hb : AxisOrder b (a.permuted h).rank) :
    (a.permuted h).permuted hb = a.permuted (h.comp (rank_permuted (h := h) ▸ hb)) :=
  StridedArray.ext (picked_picked h.lt b) rfl rfl

/-- Axes kept in order leave the array alone. -/
theorem permuted_of_eq_range (horder : order = List.range a.rank) : a.permuted h = a := by
  subst horder
  exact StridedArray.ext (picked_range a.axes) rfl rfl

end

end StridedArray

/-! ## §3. Permuted tensors. -/

namespace StoredTensor

section
variable {s r : StoredTensor α} {order : List Nat} (hs : s.Coherent)
include hs

theorem Coherent.rank_eq : s.rank = s.array.rank := by
  rw [← s.array.length_dims, ← hs.dims_eq]
  rfl

theorem Coherent.permute_eq (h : AxisOrder order s.array.rank) :
    s.permute order = .ok (s.withArray (s.array.permuted h)) := by
  have hscan := isPerm_range_iff.1 (isPerm_range_iff_axisOrder.2 h)
  unfold permute
  rw [hs.rank_eq, StridedArray.permute?_eq h, if_neg]
  · rfl
  · rw [not_or, Bool.not_eq_true]
    exact ⟨not_not_intro hscan.1, hscan.2⟩

/-- A permutation of the axes goes through, and nothing else does. -/
theorem Coherent.exists_permute_iff :
    (∃ r, s.permute order = .ok r) ↔ AxisOrder order s.rank := by
  constructor
  · rintro ⟨r, hr⟩
    unfold permute at hr
    split at hr
    next => cases hr
    next hpass =>
      rw [not_or, not_not, Bool.not_eq_true] at hpass
      exact isPerm_range_iff_axisOrder.1 (isPerm_range_iff.2 hpass)
  · intro h
    exact ⟨_, hs.permute_eq (hs.rank_eq ▸ h)⟩

theorem Coherent.of_permute (hr : s.permute order = .ok r) :
    ∃ h : AxisOrder order s.array.rank, r = s.withArray (s.array.permuted h) := by
  have h : AxisOrder order s.array.rank := hs.rank_eq ▸ hs.exists_permute_iff.1 ⟨r, hr⟩
  rw [hs.permute_eq h] at hr
  exact ⟨h, (Except.ok.inj hr).symm⟩

end

/-- `r` is `s` with its axes in another order: dimension `order[k]` of `s` is
dimension `k` of `r`, and so for the coordinates of an index. -/
structure RearrangedBy (order : List Nat) (s r : StoredTensor α) : Prop where
  represents : r.Represents
  device : r.device = s.device
  rank : r.rank = s.rank
  dims : ∀ k a : Nat, order[k]? = some a → r.dims[k]? = s.dims[a]?
  /-- An index of `r` is that of one index of `s`. -/
  source : ∀ i, List.Forall₂ (· < ·) i r.dims →
    ∃! j : List Nat, j.length = s.rank ∧ ∀ k a : Nat, order[k]? = some a → j[a]? = i[k]?
  /-- It is in range there and has the same element. -/
  get : ∀ i j : List Nat, List.Forall₂ (· < ·) i r.dims → j.length = s.rank →
    (∀ k a : Nat, order[k]? = some a → j[a]? = i[k]?) →
      List.Forall₂ (· < ·) j s.dims ∧ r.get? i = s.get? j

section
variable {s : StoredTensor α} {order : List Nat} (hs : s.Coherent)
include hs

theorem Coherent.rearrangedBy {r : StoredTensor α} (hr : s.permute order = .ok r) :
    RearrangedBy order s r := by
  have hr' : r.Coherent := coherent_permute hr
  obtain ⟨h, rfl⟩ := hs.of_permute hr
  have hrank : AxisOrder order s.dims.length := by
    rw [hs.dims_eq, s.array.length_dims]
    exact h
  have hdims : (s.withArray (s.array.permuted h)).dims = picked order s.dims := by
    rw [hs.dims_eq]
    exact StridedArray.dims_permuted
  have hlength : (s.withArray (s.array.permuted h)).dims.length = s.dims.length := by
    rw [hdims, hrank.length_picked]
  have hindex : ∀ {i : List Nat},
      List.Forall₂ (· < ·) i (s.withArray (s.array.permuted h)).dims →
        i.length = s.dims.length := fun hi => hi.length_eq.trans hlength
  refine ⟨hr'.represents, rfl, hlength, fun k a hk => ?_, fun i hi => ?_, fun i j hi hj hij => ?_⟩
  · rw [hdims, getElem?_picked hrank.lt, hk, Option.bind_some]
  · -- the coordinates put back where they belong
    have hinverse : (picked (inverseOrder order) i).length = s.dims.length := by
      rw [← hindex hi]
      exact AxisOrder.length_picked (hindex hi ▸ hrank.inverse)
    refine ⟨picked (inverseOrder order) i, ⟨hinverse, ?_⟩, fun j hj => ?_⟩
    · rw [← hrank.picked_eq_iff_forall hinverse (hindex hi)]
      exact (hrank.picked_eq_iff hinverse (hindex hi)).2 rfl
    · obtain ⟨hlen, hij⟩ := hj
      rw [← hrank.picked_eq_iff_forall hlen (hindex hi)] at hij
      exact (hrank.picked_eq_iff hlen (hindex hi)).1 hij
  · rw [← hrank.picked_eq_iff_forall hj (hindex hi)] at hij
    subst hij
    rw [hdims, ← mem_indicesOf_iff_forall₂, hrank.picked_mem_indicesOf_iff hj] at hi
    refine ⟨mem_indicesOf_iff_forall₂.1 hi, ?_⟩
    rw [get?_eq, get?_eq]
    exact StridedArray.get?_permuted (h := h) (hj.trans hs.rank_eq)

/-- Two permutations in a row. -/
theorem Coherent.permute_permute {b : List Nat} (ha : AxisOrder order s.array.rank)
    (hb : AxisOrder b s.array.rank) :
    (s.permute order >>= fun p => p.permute b)
      = .ok (s.withArray (s.array.permuted (ha.comp hb))) := by
  have hp : (s.withArray (s.array.permuted ha)).Coherent := coherent_withArray _ _
  have hb' : AxisOrder b (s.array.permuted ha).rank := StridedArray.rank_permuted.symm ▸ hb
  rw [hs.permute_eq ha]
  show (s.withArray (s.array.permuted ha)).permute b = _
  rw [hp.permute_eq hb']
  show Except.ok ((s.withArray (s.array.permuted ha)).withArray
    ((s.array.permuted ha).permuted hb')) = _
  rw [StridedArray.permuted_permuted]
  rfl

theorem Coherent.withArray_self : s.withArray s.array = s := by
  show StoredTensor.mk s.array ⟨s.array.dims⟩ s.device = s
  rw [← hs.dims_eq]
  rfl

end

/-- **Permuting the axes rearranges a tensor, and permutations compose.**  It
succeeds exactly for the lists that name every axis once.  The inverse gives the
tensor back, strides and all, and `a` followed by `b` is the order whose entry `k`
is `a[b[k]]`.  The tensors of `ChannelNorm.Tensor.Basic` are permuted alike. -/
theorem permutations_rearrange :
    (∀ s : StoredTensor α, s.Coherent →
      (∀ order, (∃ r, s.permute order = .ok r) ↔ AxisOrder order s.rank)
        ∧ (∀ order r, s.permute order = .ok r → RearrangedBy order s r)
        ∧ (∀ a b : List Nat, AxisOrder a s.rank → b.length = s.rank →
            (∀ k x : Nat, a[k]? = some x → b[x]? = some k) →
              (s.permute a >>= fun p => p.permute b) = .ok s)
        ∧ ∀ a b : List Nat, AxisOrder a s.rank → AxisOrder b s.rank →
            ∃ r, s.permute (picked b a) = .ok r ∧ (s.permute a >>= fun p => p.permute b) = .ok r)
      ∧ ∀ t : Tensor α, t.stored.Coherent ∧ t.stored.ReadsAs t
          ∧ ∀ order, t.stored.permute order = Guarded.storing (t.permute order) := by
  refine ⟨fun s hs => ⟨fun _ => hs.exists_permute_iff, fun _ _ hr => hs.rearrangedBy hr, ?_, ?_⟩,
    fun t => ?_⟩
  · intro a b ha hb hinverse
    have hrange : ∀ k x : Nat, a[k]? = some x → b[x]? = (List.range s.rank)[k]? := by
      intro k x hk
      have hlt : k < a.length := (List.getElem?_eq_some_iff.1 hk).1
      rw [hinverse k x hk, List.getElem?_range (ha.length ▸ hlt)]
    -- the inverse is the order that puts every entry back
    have hpicked : picked a b = List.range s.rank :=
      (ha.picked_eq_iff_forall hb List.length_range).2 hrange
    have hb' : b = inverseOrder a := by
      have heq := (ha.picked_eq_iff hb List.length_range).1 hpicked
      rwa [picked_from_range ha.inverse.lt] at heq
    subst hb'
    rw [hs.rank_eq] at ha
    rw [hs.permute_permute ha ha.inverse,
      StridedArray.permuted_of_eq_range ha.inverseOrder_picked, hs.withArray_self]
  · intro a b ha hb
    rw [hs.rank_eq] at ha hb
    exact ⟨_, hs.permute_eq (ha.comp hb), hs.permute_permute ha hb⟩
  · exact ⟨t.dims_strided.symm, readsAs_stored t, permute_stored t⟩

/-- Two planes of one row of three, the planes running backwards through the buffer. -/
def layered : StridedArray Int where
  axes := [⟨2, -3⟩, ⟨1, 5⟩, ⟨3, 1⟩]
  start := 3
  buffer := #[0, 1, 2, 3, 4, 5]
  bound := by decide
  apart := by decide
  addressable := by decide

theorem permutations_rearrange_layered :
    ∃ r, (fromArray layered).permute [2, 0, 1] = .ok r ∧ r.dims = [3, 2, 1]
      ∧ r.get? [2, 1, 0] = some 2
      ∧ ((fromArray layered).permute [2, 0, 1] >>= fun p => p.permute [1, 2, 0])
        = .ok (fromArray layered)
      ∧ ((fromArray layered).permute [2, 0, 1] >>= fun p => p.permute [0, 2, 1])
        = (fromArray layered).permute [2, 1, 0] := by
  obtain ⟨haccepted, hrearranged, hinverse, hcomposed⟩ :=
    permutations_rearrange.1 (fromArray layered) (coherent_fromArray layered)
  have hrotate : AxisOrder [2, 0, 1] (fromArray layered).rank := ⟨rfl, by decide, by decide⟩
  have hswap : AxisOrder [0, 2, 1] (fromArray layered).rank := ⟨rfl, by decide, by decide⟩
  obtain ⟨r, hr⟩ := (haccepted _).2 hrotate
  obtain ⟨q, hq, htwice⟩ := hcomposed _ _ hrotate hswap
  have hby := hrearranged _ _ hr
  have hdims : [3, 2, 1] = r.dims :=
    (hrotate.picked_eq_iff_forall rfl hby.rank).2 fun k a hk => (hby.dims k a hk).symm
  refine ⟨r, hr, hdims.symm, ?_, hinverse _ _ hrotate rfl ?_, htwice.trans hq.symm⟩
  · have hi : [2, 1, 0].length = (fromArray layered).rank := rfl
    have hj : [1, 0, 2].length = (fromArray layered).rank := rfl
    have hsource := (hrotate.picked_eq_iff_forall hj hi).1 rfl
    have hread := hby.get [2, 1, 0] [1, 0, 2] (hdims ▸ by decide) rfl hsource
    exact hread.2
  · intro k x hk
    rcases k with _ | _ | _ | k
    · cases hk
      rfl
    · cases hk
      rfl
    · cases hk
      rfl
    · cases hk

end StoredTensor

end ChannelNorm

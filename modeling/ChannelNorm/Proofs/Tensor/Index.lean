/-
  ChannelNorm.Proofs.Tensor.Index
  ───────────────────────────────
  **INDICES, AND THE ELEMENTS THEY NAME.**

  `indicesOf dims` lists the indices of an array, last coordinate fastest.  Two
  numbers belong to an index: `positionOf axes i`, where the strides put it in
  the buffer, and `flatIndex dims i`, its place in the contents.  A walk over
  any axes is a walk over indices, so that

      t.toList[flatIndex t.dims i]?  =  t.buffer[positionOf t.layout.axes i]?

  and whatever an operation reads through strides it reads from the contents:

      readAll t.buffer (is.map (positionOf axes))  =  is.map (t.elem ∘ flatIndex dims)

  Both orders of visit are lists of indices that depend on the dimensions
  alone, and each is a permutation of the other.
-/
import ChannelNorm.Tensor.Visit
import ChannelNorm.Tensor.Basic
import Mathlib.Data.List.Nodup

namespace ChannelNorm

variable {α : Type}

/-! ## §1. The indices of an array. -/

/-- The indices of an array of these dimensions, last coordinate fastest. -/
def indicesOf : List Nat → List (List Nat)
  | [] => [[]]
  | d :: ds => (List.range d).flatMap fun i => (indicesOf ds).map (i :: ·)

/-- The buffer position of an index, counted from the first element. -/
def positionOf : List Axis → List Nat → Nat
  | a :: as, i :: is => i * a.stride + positionOf as is
  | _, _ => 0

/-- The place of an index in the contents. -/
def flatIndex (dims : List Nat) (i : List Nat) : Nat :=
  positionOf (rowMajorAxes dims) i

@[simp] theorem mem_indicesOf_nil {i : List Nat} : i ∈ indicesOf [] ↔ i = [] := by
  simp [indicesOf]

@[simp] theorem cons_mem_indicesOf {d i : Nat} {ds is : List Nat} :
    i :: is ∈ indicesOf (d :: ds) ↔ i < d ∧ is ∈ indicesOf ds := by
  simp [indicesOf]

/-- The indices of a vector. -/
theorem indicesOf_singleton (d : Nat) : indicesOf [d] = (List.range d).map fun i => [i] := by
  rw [List.map_eq_flatMap]
  rfl

/-- The indices of a matrix, row by row. -/
theorem indicesOf_pair (d e : Nat) :
    indicesOf [d, e] = (List.range d).flatMap fun i => (List.range e).map fun j => [i, j] := by
  show (List.range d).flatMap (fun i => (indicesOf [e]).map (i :: ·)) = _
  rw [indicesOf_singleton]
  simp only [List.map_map]
  rfl

/-- An index of an array with an outermost axis has a first coordinate. -/
theorem exists_cons_of_mem_indicesOf {d : Nat} {ds i : List Nat} (h : i ∈ indicesOf (d :: ds)) :
    ∃ j js, i = j :: js ∧ j < d ∧ js ∈ indicesOf ds := by
  cases i with
  | nil => simp [indicesOf] at h
  | cons j js => exact ⟨j, js, rfl, cons_mem_indicesOf.1 h⟩

/-- One in-range coordinate for each axis. -/
theorem mem_indicesOf_iff {dims i : List Nat} :
    i ∈ indicesOf dims ↔ i.length = dims.length ∧ ∀ p ∈ i.zip dims, p.1 < p.2 := by
  -- one axis at a time; the coordinates go along with the axes
  induction dims generalizing i with
  | nil => cases i <;> simp
  | cons d ds ih =>
      cases i with
      | nil => simp [indicesOf]
      | cons j js =>
          rw [cons_mem_indicesOf, ih]
          simp only [List.length_cons, Nat.succ_inj, List.zip_cons_cons, List.mem_cons,
            forall_eq_or_imp]
          constructor
          · rintro ⟨hj, hlen, hjs⟩
            exact ⟨hlen, hj, hjs⟩
          · rintro ⟨hlen, hj, hjs⟩
            exact ⟨hj, hlen, hjs⟩

theorem length_of_mem_indicesOf {dims i : List Nat} (h : i ∈ indicesOf dims) :
    i.length = dims.length :=
  (mem_indicesOf_iff.1 h).1

/-! ## §2. A walk over axes is a walk over indices. -/

theorem offsetsFrom_eq_map (axes : List Axis) (start : Nat) :
    offsetsFrom axes start
      = (indicesOf (dimsOf axes)).map fun i => start + positionOf axes i := by
  -- on the axes; the start moves with every outer coordinate
  induction axes generalizing start with
  | nil => rw [offsetsFrom_nil]; rfl
  | cons a as ih =>
      rw [offsetsFrom_cons]
      show _ = ((List.range a.len).flatMap fun i => (indicesOf (dimsOf as)).map (i :: ·)).map _
      rw [List.map_flatMap]
      refine congrArg (fun f => (List.range a.len).flatMap f) (funext fun i => ?_)
      rw [ih, List.map_map]
      apply List.map_congr_left
      intro j _
      show start + i * a.stride + positionOf as j = start + (i * a.stride + positionOf as j)
      rw [Nat.add_assoc]

/-- Listed in order, the indices take the places of the contents in order. -/
theorem map_flatIndex (dims : List Nat) :
    (indicesOf dims).map (flatIndex dims) = List.range (volume dims) := by
  have h := offsetsFrom_eq_map (rowMajorAxes dims) 0
  rw [offsetsFrom_rowMajorAxes, dimsOf_rowMajorAxes] at h
  rw [List.range_eq_range', h]
  simp [flatIndex]

@[simp] theorem length_indicesOf (dims : List Nat) : (indicesOf dims).length = volume dims := by
  rw [← List.length_map (flatIndex dims), map_flatIndex, List.length_range]

theorem nodup_indicesOf (dims : List Nat) : (indicesOf dims).Nodup := by
  refine List.Nodup.of_map (flatIndex dims) ?_
  rw [map_flatIndex]
  exact List.nodup_range

theorem flatIndex_lt {dims i : List Nat} (h : i ∈ indicesOf dims) :
    flatIndex dims i < volume dims := by
  have hmem := List.mem_map_of_mem (f := flatIndex dims) h
  rw [map_flatIndex] at hmem
  exact List.mem_range.1 hmem

/-- Every place in the contents is that of an index. -/
theorem exists_flatIndex_eq {dims : List Nat} {k : Nat} (h : k < volume dims) :
    ∃ i ∈ indicesOf dims, flatIndex dims i = k := by
  rw [← List.mem_range, ← map_flatIndex] at h
  exact List.mem_map.1 h

/-- The index at the place of an index is that index. -/
theorem getElem?_indicesOf {dims i : List Nat} (h : i ∈ indicesOf dims) :
    (indicesOf dims)[flatIndex dims i]? = some i := by
  obtain ⟨k, hk, rfl⟩ := List.mem_iff_getElem.1 h
  -- the places of all indices in order are 0, 1, …, so the `k`-th index has place `k`
  have hmap : ((indicesOf dims).map (flatIndex dims))[k]? = (List.range (volume dims))[k]? := by
    rw [map_flatIndex]
  have hk' : k < volume dims := by rwa [length_indicesOf] at hk
  rw [List.getElem?_map, List.getElem?_eq_getElem hk, List.getElem?_range hk'] at hmap
  have hflat : flatIndex dims (indicesOf dims)[k] = k := Option.some.inj hmap
  rw [hflat, List.getElem?_eq_getElem hk]

/-- No two indices have the same place. -/
theorem flatIndex_inj {dims i j : List Nat} (hi : i ∈ indicesOf dims) (hj : j ∈ indicesOf dims)
    (h : flatIndex dims i = flatIndex dims j) : i = j := by
  have hget := getElem?_indicesOf hi
  rw [h, getElem?_indicesOf hj] at hget
  exact (Option.some.inj hget).symm

theorem flatIndex_cons (d : Nat) (ds : List Nat) (i : Nat) (is : List Nat) :
    flatIndex (d :: ds) (i :: is) = i * volume ds + flatIndex ds is :=
  rfl

/-- Entry `j` of block `b`, with `len` entries to a block, has a place among them
all. -/
theorem place_lt {blocks len b j : Nat} (hb : b < blocks) (hj : j < len) :
    b * len + j < blocks * len :=
  calc b * len + j < b * len + len := Nat.add_lt_add_left hj _
    _ = (b + 1) * len := (Nat.succ_mul b len).symm
    _ ≤ blocks * len := Nat.mul_le_mul_right len hb

/-- The block of a place. -/
theorem place_div {len b j : Nat} (hj : j < len) : (b * len + j) / len = b := by
  rw [Nat.mul_comm, Nat.mul_add_div (Nat.zero_lt_of_lt hj), Nat.div_eq_of_lt hj, Nat.add_zero]

/-- The place of an index whose coordinates split in two. -/
theorem positionOf_append (as bs : List Axis) {is js : List Nat} (h : is.length = as.length) :
    positionOf (as ++ bs) (is ++ js) = positionOf as is + positionOf bs js := by
  induction as generalizing is with
  | nil =>
      rw [List.length_nil, List.length_eq_zero_iff] at h
      subst h
      show positionOf bs js = 0 + positionOf bs js
      rw [Nat.zero_add]
  | cons a as ih =>
      cases is with
      | nil => simp at h
      | cons i is =>
          show i * a.stride + positionOf (as ++ bs) (is ++ js) = _
          rw [ih (by simpa using h), ← Nat.add_assoc]
          rfl

/-- Reversing the axes and the coordinates names the same position. -/
theorem positionOf_reverse (axes : List Axis) {i : List Nat} (h : i.length = axes.length) :
    positionOf axes.reverse i = positionOf axes i.reverse := by
  induction axes generalizing i with
  | nil =>
      rw [List.length_nil, List.length_eq_zero_iff] at h
      subst h
      rfl
  | cons a as ih =>
      have hne : i ≠ [] := by
        rintro rfl
        simp at h
      have hinit : i.dropLast.length = as.length := by
        rw [List.length_dropLast, h, List.length_cons, Nat.add_sub_cancel]
      -- the outermost axis is the last one now, and its coordinate is the last
      have hsplit : i = i.dropLast ++ [i.getLast hne] := (List.dropLast_append_getLast hne).symm
      rw [hsplit, List.reverse_cons, positionOf_append _ _ (by simpa using hinit), ih hinit,
        List.reverse_append, Nat.add_comm]
      rfl

/-- The position of an index with one more coordinate. -/
theorem positionOf_insertIdx (x : Nat) {axes : List Axis} {a : Nat} {i : List Nat}
    (ha : a < axes.length) (hi : i.length + 1 = axes.length) :
    positionOf axes (i.insertIdx a x)
      = positionOf (axes.eraseIdx a) i + x * (axes.getD a ⟨1, 0⟩).stride := by
  -- on the axes in front of the new coordinate
  induction axes generalizing a i with
  | nil => simp at ha
  | cons b bs ih =>
      cases a with
      | zero =>
          show x * b.stride + positionOf bs i = positionOf bs i + x * b.stride
          rw [Nat.add_comm]
      | succ a =>
          cases i with
          | nil =>
              rw [List.length_nil, List.length_cons] at hi
              rw [List.length_cons] at ha
              omega
          | cons j js =>
              have hbs := ih (by simpa using ha) (by simpa using hi)
              show j * b.stride + positionOf bs (js.insertIdx a x)
                = j * b.stride + positionOf (bs.eraseIdx a) js + x * (bs.getD a ⟨1, 0⟩).stride
              rw [hbs, Nat.add_assoc]

/-- An index of an array without one axis and a coordinate on that axis. -/
theorem insertIdx_mem_indicesOf {dims i : List Nat} {a x : Nat} (ha : a < dims.length)
    (hx : x < dims.getD a 0) (hi : i ∈ indicesOf (dims.eraseIdx a)) :
    i.insertIdx a x ∈ indicesOf dims := by
  induction dims generalizing a i with
  | nil => simp at ha
  | cons d ds ih =>
      cases a with
      | zero => exact cons_mem_indicesOf.2 ⟨hx, hi⟩
      | succ a =>
          obtain ⟨j, js, rfl, hj, hjs⟩ := exists_cons_of_mem_indicesOf hi
          exact cons_mem_indicesOf.2 ⟨hj, ih (by simpa using ha) hx hjs⟩

/-- Values found at the place of every index are those values in order. -/
theorem eq_map_indicesOf {β : Type} {dims : List Nat} {xs : List β} {f : List Nat → β}
    (hlen : xs.length = volume dims)
    (h : ∀ i ∈ indicesOf dims, xs[flatIndex dims i]? = some (f i)) :
    xs = (indicesOf dims).map f := by
  apply List.ext_getElem?
  intro k
  -- every place below the volume is that of an index; beyond it neither list has one
  rcases Nat.lt_or_ge k (volume dims) with hk | hk
  · obtain ⟨i, hi, rfl⟩ := exists_flatIndex_eq hk
    rw [h i hi, List.getElem?_map, getElem?_indicesOf hi]
    rfl
  · rw [List.getElem?_eq_none (by omega), List.getElem?_eq_none (by simpa using hk)]

/-! ## §3. The elements of a tensor. -/

/-- Values at positions inside the buffer, none of them missing. -/
theorem map_some_readAll {buffer : Array α} {positions : List Nat}
    (h : ∀ p ∈ positions, p < buffer.size) :
    (readAll buffer positions).map some = positions.map (buffer[·]?) := by
  induction positions with
  | nil => rfl
  | cons p ps ih =>
      have hp : buffer[p]? = some _ := Array.getElem?_eq_getElem (h p (by simp))
      rw [readAll, List.filterMap_cons_some hp, List.map_cons, List.map_cons, hp, ← readAll,
        ih fun q hq => h q (by simp [hq])]

/-- Read at positions that belong to indices, an element is found at the place of
its index. -/
theorem getElem?_readAll_indicesOf {buffer : Array α} {dims : List Nat} {f : List Nat → Nat}
    (hbound : ∀ i ∈ indicesOf dims, f i < buffer.size) {i : List Nat} (hi : i ∈ indicesOf dims) :
    (readAll buffer ((indicesOf dims).map f))[flatIndex dims i]? = buffer[f i]? := by
  have hpositions : ∀ p ∈ (indicesOf dims).map f, p < buffer.size := by
    intro p hp
    obtain ⟨j, hj, rfl⟩ := List.mem_map.1 hp
    exact hbound j hj
  have hread := congrArg (·[flatIndex dims i]?) (map_some_readAll hpositions)
  simp only [List.getElem?_map, List.map_map, getElem?_indicesOf hi, Option.map_some,
    Function.comp_apply] at hread
  obtain ⟨x, hx, hsome⟩ := Option.map_eq_some_iff.1 hread
  rw [hx, hsome]

namespace Tensor

/-- What the strides put at an index is what the contents hold at its place. -/
theorem getElem?_toList (t : Tensor α) {i : List Nat} (h : i ∈ indicesOf t.dims) :
    t.toList[flatIndex t.dims i]? = t.buffer[positionOf t.layout.axes i]? := by
  have hoff : t.layout.offsets = (indicesOf t.dims).map fun i => 0 + positionOf t.layout.axes i :=
    offsetsFrom_eq_map t.layout.axes 0
  have hbound : ∀ j ∈ indicesOf t.dims, 0 + positionOf t.layout.axes j < t.buffer.size := by
    intro j hj
    refine t.bound _ ?_
    rw [hoff]
    exact List.mem_map_of_mem hj
  rw [toList, hoff, getElem?_readAll_indicesOf hbound h, Nat.zero_add]

variable [Zero α]

/-- The element at a place in the contents. -/
def elem (t : Tensor α) (k : Nat) : α :=
  t.toList.getD k 0

theorem getElem?_toList_eq_elem (t : Tensor α) {k : Nat} (h : k < t.numel) :
    t.toList[k]? = some (t.elem k) := by
  have hk : k < t.toList.length := by rwa [length_toList]
  rw [elem, List.getD_eq_getElem?_getD, List.getElem?_eq_getElem hk]
  rfl

/-- The contents are the elements in order. -/
theorem toList_eq_map_elem (t : Tensor α) : t.toList = (List.range t.numel).map t.elem := by
  apply List.ext_getElem?
  intro k
  rcases Nat.lt_or_ge k t.numel with hk | hk
  · rw [getElem?_toList_eq_elem t hk, List.getElem?_map, List.getElem?_range hk]
    rfl
  · rw [List.getElem?_eq_none (by simpa using hk), List.getElem?_eq_none (by simpa using hk)]

/-- Contents of one shape, combined place by place. -/
theorem zipWith_toList (t : Tensor α) {β γ : Type} [Zero β] {u : Tensor β} (h : u.dims = t.dims)
    (f : α → β → γ) :
    List.zipWith f t.toList u.toList
      = (List.range t.numel).map fun k => f (t.elem k) (u.elem k) := by
  have hnumel : u.numel = t.numel := congrArg volume h
  rw [t.toList_eq_map_elem, u.toList_eq_map_elem, hnumel, List.zipWith_map, List.zipWith_self]

theorem zip_toList (t : Tensor α) {β : Type} [Zero β] {u : Tensor β} (h : u.dims = t.dims) :
    t.toList.zip u.toList = (List.range t.numel).map fun k => (t.elem k, u.elem k) :=
  t.zipWith_toList h Prod.mk

/-- Contents given element by element. -/
theorem elem_of_toList_eq_map {t : Tensor α} {n : Nat} {f : Nat → α}
    (h : t.toList = (List.range n).map f) {k : Nat} (hk : k < n) : t.elem k = f k := by
  rw [elem, h, List.getD_eq_getElem?_getD, List.getElem?_map, List.getElem?_range hk]
  rfl

/-- What is read through the strides at any indices is read from the contents. -/
theorem readAll_map_positionOf (t : Tensor α) {is : List (List Nat)}
    (h : ∀ i ∈ is, i ∈ indicesOf t.dims) :
    readAll t.buffer (is.map (positionOf t.layout.axes))
      = is.map fun i => t.elem (flatIndex t.dims i) := by
  induction is with
  | nil => rfl
  | cons i is ih =>
      have hi := h i (by simp)
      have hread : t.buffer[positionOf t.layout.axes i]?
          = some (t.elem (flatIndex t.dims i)) := by
        rw [← getElem?_toList t hi]
        exact getElem?_toList_eq_elem t (flatIndex_lt hi)
      rw [List.map_cons, readAll, List.filterMap_cons_some hread, List.map_cons, ← readAll,
        ih fun j hj => h j (by simp [hj])]

end Tensor

/-- The entry of a parameter, or a default if there is none. -/
def paramAt [Zero α] (p : Option (Tensor α)) (default : α) (c : Nat) : α :=
  match p with
  | none => default
  | some t => t.elem c

/-! ## §4. Orders of visit. -/

/-- The indices of an array in an order of visit. -/
def VisitOrder.indices : VisitOrder → List Nat → List (List Nat)
  | .rows, dims => indicesOf dims
  | .columns, dims => (indicesOf dims.reverse).map List.reverse

theorem reverse_mem_indicesOf {dims i : List Nat} (h : i ∈ indicesOf dims.reverse) :
    i.reverse ∈ indicesOf dims := by
  rw [mem_indicesOf_iff] at h ⊢
  obtain ⟨hlen, hlt⟩ := h
  rw [List.length_reverse] at hlen
  refine ⟨by rw [List.length_reverse, hlen], fun p hp => hlt p ?_⟩
  -- the same pairs of coordinate and length, in the other order
  have hzip : i.zip dims.reverse = (i.reverse.zip dims).reverse := by
    have hrev : (i.reverse.zip dims).reverse = i.reverse.reverse.zip dims.reverse :=
      List.reverse_zipWith (by rw [List.length_reverse, hlen])
    rw [hrev, List.reverse_reverse]
  rw [hzip, List.mem_reverse]
  exact hp

theorem VisitOrder.mem_indices {order : VisitOrder} {dims i : List Nat}
    (h : i ∈ order.indices dims) : i ∈ indicesOf dims := by
  cases order with
  | rows => exact h
  | columns =>
      obtain ⟨j, hj, rfl⟩ := List.mem_map.1 h
      exact reverse_mem_indicesOf hj

/-- Both orders visit every index once. -/
theorem VisitOrder.indices_perm (order : VisitOrder) (dims : List Nat) :
    (order.indices dims).Perm (indicesOf dims) := by
  cases order with
  | rows => exact .refl _
  | columns =>
      have hnd : ((indicesOf dims.reverse).map List.reverse).Nodup :=
        (nodup_indicesOf _).map List.reverse_injective
      -- neither list repeats, so the same members are enough
      refine (List.perm_ext_iff_of_nodup hnd (nodup_indicesOf dims)).2 fun i =>
        ⟨?_, ?_⟩
      · intro hi
        have hi : i ∈ VisitOrder.columns.indices dims := hi
        exact VisitOrder.mem_indices hi
      · intro hi
        refine List.mem_map.2 ⟨i.reverse, reverse_mem_indicesOf ?_, List.reverse_reverse i⟩
        rwa [List.reverse_reverse]

theorem VisitOrder.offsets_eq_map (order : VisitOrder) (axes : List Axis) (start : Nat) :
    order.offsets axes start
      = (order.indices (dimsOf axes)).map fun i => start + positionOf axes i := by
  cases order with
  | rows => exact offsetsFrom_eq_map axes start
  | columns =>
      show offsetsFrom axes.reverse start = ((indicesOf (dimsOf axes).reverse).map _).map _
      have hdims : dimsOf axes.reverse = (dimsOf axes).reverse := by
        unfold dimsOf
        rw [List.map_reverse]
      rw [offsetsFrom_eq_map, hdims, List.map_map]
      apply List.map_congr_left
      intro i hi
      have hlen : i.length = axes.length := by
        rw [length_of_mem_indicesOf hi, List.length_reverse]
        exact List.length_map _
      show start + positionOf axes.reverse i = start + positionOf axes i.reverse
      rw [positionOf_reverse axes hlen]

end ChannelNorm

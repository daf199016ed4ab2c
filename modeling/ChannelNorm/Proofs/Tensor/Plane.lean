/-
  ChannelNorm.Proofs.Tensor.Plane
  ───────────────────────────────
  **CHANNELS AS SETS OF PLACES IN THE CONTENTS.**

  The element at place `k` of the contents belongs to channel
  `channelOf dims k`.  `channelPlaces order dims c` lists the places of channel
  `c` in an order of visit; it depends on the dimensions alone, and so

      t.planeIn order c  =  (channelPlaces order t.dims c).map t.elem

  whatever the strides of `t`.  The channels split the contents: a loop that
  runs one task per channel leaves in every channel what its task computed, and
  nothing else is left to say about its result (`forEachChannel_zerosLike`).
-/
import ChannelNorm.Proofs.Tensor.Index
import ChannelNorm.Schedule
import Mathlib.Data.List.Nodup
import Mathlib.Data.List.InsertIdx
import Mathlib.Data.List.FinRange
import Mathlib.Data.List.Pairwise

namespace ChannelNorm

variable {α β : Type}

/-! ## §1. The places of a channel. -/

/-- The channel of the element at a place in the contents. -/
def channelOf (dims : List Nat) (k : Nat) : Nat :=
  k / volume (dims.drop 2) % dims.getD 1 0

/-- The indices of a channel, in an order of visit. -/
def channelIndices (order : VisitOrder) (dims : List Nat) (c : Nat) : List (List Nat) :=
  (order.indices (dims.eraseIdx 1)).map (·.insertIdx 1 c)

/-- The places of a channel in the contents, in an order of visit. -/
def channelPlaces (order : VisitOrder) (dims : List Nat) (c : Nat) : List Nat :=
  (channelIndices order dims c).map (flatIndex dims)

/-- A shape with a channel axis. -/
theorem exists_eq_cons_cons {β : Type} {xs : List β} (h : 2 ≤ xs.length) :
    ∃ x y rest, xs = x :: y :: rest := by
  match xs, h with
  | x :: y :: rest, _ => exact ⟨x, y, rest, rfl⟩

variable {order : VisitOrder} {dims : List Nat} {c : Nat}

/-- An index belongs to a channel when that is its second coordinate. -/
theorem mem_channelIndices {n C : Nat} {rest i : List Nat} (hc : c < C) :
    i ∈ channelIndices order (n :: C :: rest) c
      ↔ ∃ j js, i = j :: c :: js ∧ i ∈ indicesOf (n :: C :: rest) := by
  -- which order it is does not matter for membership
  have horder : ∀ j, j ∈ order.indices (n :: rest) ↔ j ∈ indicesOf (n :: rest) := fun j =>
    (order.indices_perm (n :: rest)).mem_iff
  constructor
  · intro hi
    obtain ⟨j, hj, rfl⟩ := List.mem_map.1 hi
    obtain ⟨j₀, js, rfl, hj₀, hjs⟩ := exists_cons_of_mem_indicesOf ((horder j).1 hj)
    exact ⟨j₀, js, rfl, cons_mem_indicesOf.2 ⟨hj₀, cons_mem_indicesOf.2 ⟨hc, hjs⟩⟩⟩
  · rintro ⟨j, js, rfl, hi⟩
    obtain ⟨hj, hi⟩ := cons_mem_indicesOf.1 hi
    obtain ⟨_, hjs⟩ := cons_mem_indicesOf.1 hi
    exact List.mem_map.2 ⟨j :: js, (horder _).2 (cons_mem_indicesOf.2 ⟨hj, hjs⟩), rfl⟩

/-- What is an index of a channel is one of the array. -/
theorem mem_indicesOf_of_mem_channelIndices {i : List Nat} (hrank : 2 ≤ dims.length)
    (hc : c < dims.getD 1 0) (hi : i ∈ channelIndices order dims c) : i ∈ indicesOf dims := by
  obtain ⟨n, C, rest, rfl⟩ := exists_eq_cons_cons hrank
  obtain ⟨_, _, _, hi⟩ := (mem_channelIndices hc).1 hi
  exact hi

/-- The channel of a place is the second coordinate of its index. -/
theorem channelOf_flatIndex {n C j : Nat} {rest js : List Nat}
    (h : j :: c :: js ∈ indicesOf (n :: C :: rest)) :
    channelOf (n :: C :: rest) (flatIndex (n :: C :: rest) (j :: c :: js)) = c := by
  obtain ⟨_, h⟩ := cons_mem_indicesOf.1 h
  obtain ⟨hc, hjs⟩ := cons_mem_indicesOf.1 h
  have hlt : flatIndex rest js < volume rest := flatIndex_lt hjs
  have hpos : 0 < volume rest := Nat.lt_of_le_of_lt (Nat.zero_le _) hlt
  show (j * (C * volume rest) + (c * volume rest + flatIndex rest js)) / volume rest % C = c
  -- whole planes in front, then the place within one
  have hsum : j * (C * volume rest) + (c * volume rest + flatIndex rest js)
      = flatIndex rest js + volume rest * (j * C + c) := by
    rw [Nat.mul_add, Nat.mul_comm (volume rest) (j * C), Nat.mul_comm (volume rest) c,
      Nat.mul_assoc]
    omega
  rw [hsum, Nat.add_mul_div_left _ _ hpos, Nat.div_eq_of_lt hlt, Nat.zero_add, Nat.add_comm,
    Nat.add_mul_mod_self_right, Nat.mod_eq_of_lt hc]

theorem mem_channelPlaces {k : Nat} (hrank : 2 ≤ dims.length) (hc : c < dims.getD 1 0) :
    k ∈ channelPlaces order dims c ↔ k < volume dims ∧ channelOf dims k = c := by
  obtain ⟨n, C, rest, rfl⟩ := exists_eq_cons_cons hrank
  have hc : c < C := hc
  constructor
  · intro hk
    obtain ⟨i, hi, rfl⟩ := List.mem_map.1 hk
    obtain ⟨j, js, rfl, hmem⟩ := (mem_channelIndices hc).1 hi
    exact ⟨flatIndex_lt hmem, channelOf_flatIndex hmem⟩
  · rintro ⟨hk, hchan⟩
    obtain ⟨i, hi, rfl⟩ := exists_flatIndex_eq hk
    obtain ⟨j, i', rfl, _, hi'⟩ := exists_cons_of_mem_indicesOf hi
    obtain ⟨d, js, rfl, _, _⟩ := exists_cons_of_mem_indicesOf hi'
    rw [channelOf_flatIndex hi] at hchan
    subst hchan
    exact List.mem_map_of_mem ((mem_channelIndices hc).2 ⟨j, js, rfl, hi⟩)

/-- The channel of a place is a channel. -/
theorem channelOf_lt {k : Nat} (hrank : 2 ≤ dims.length) (hk : k < volume dims) :
    channelOf dims k < dims.getD 1 0 := by
  obtain ⟨n, C, rest, rfl⟩ := exists_eq_cons_cons hrank
  have hC : 0 < C := by
    rcases Nat.eq_zero_or_pos C with rfl | hC
    · simp at hk
    · exact hC
  exact Nat.mod_lt _ hC

@[simp] theorem length_channelPlaces (order : VisitOrder) (dims : List Nat) (c : Nat) :
    (channelPlaces order dims c).length = volume (dims.eraseIdx 1) := by
  rw [channelPlaces, channelIndices, List.length_map, List.length_map,
    (order.indices_perm _).length_eq, length_indicesOf]

/-- A channel of two axes has one place for each index of the first. -/
theorem channelPlaces_pair (R L j : Nat) :
    channelPlaces .rows [R, L] j = (List.range R).map fun r => flatIndex [R, L] [r, j] := by
  show ((indicesOf [R]).map _).map _ = _
  rw [indicesOf_singleton, List.map_map, List.map_map]
  rfl

/-- With one sample a channel is one stretch of the contents. -/
theorem channelPlaces_one_cons (blocks : Nat) (ds : List Nat) (b : Nat) :
    channelPlaces .rows (1 :: blocks :: ds) b
      = (List.range (volume ds)).map fun s => b * volume ds + s := by
  have hone : indicesOf (1 :: ds) = (indicesOf ds).map (0 :: ·) := by
    show (List.range 1).flatMap _ = _
    rw [List.range_one, List.flatMap_singleton]
  show ((indicesOf (1 :: ds)).map (·.insertIdx 1 b)).map (flatIndex (1 :: blocks :: ds)) = _
  rw [hone, ← map_flatIndex ds, List.map_map, List.map_map, List.map_map]
  apply List.map_congr_left
  intro i _
  show 0 * (blocks * volume ds) + (b * volume ds + flatIndex ds i)
    = b * volume ds + flatIndex ds i
  rw [Nat.zero_mul, Nat.zero_add]

/-- A visit meets every place of a channel once. -/
theorem nodup_channelPlaces (order : VisitOrder) (hrank : 2 ≤ dims.length)
    (hc : c < dims.getD 1 0) : (channelPlaces order dims c).Nodup := by
  obtain ⟨n, C, rest, rfl⟩ := exists_eq_cons_cons hrank
  have hc : c < C := hc
  have hnd : (order.indices (n :: rest)).Nodup :=
    (order.indices_perm (n :: rest)).nodup_iff.2 (nodup_indicesOf _)
  have hindices : (channelIndices order (n :: C :: rest) c).Nodup :=
    hnd.map (List.insertIdx_injective 1 c)
  apply hindices.map_on
  intro i hi j hj hij
  obtain ⟨_, _, _, hi⟩ := (mem_channelIndices hc).1 hi
  obtain ⟨_, _, _, hj⟩ := (mem_channelIndices hc).1 hj
  exact flatIndex_inj hi hj hij

/-! ## §2. Reading a channel. -/

namespace Tensor

/-- The axes of a tensor with a channel axis. -/
theorem exists_axes_eq (t : Tensor α) (hrank : 2 ≤ t.rank) :
    ∃ a b as, t.layout.axes = a :: b :: as := by
  refine exists_eq_cons_cons ?_
  have hlen : t.layout.dims.length = t.layout.axes.length := t.layout.length_dims
  rw [← hlen]
  exact hrank

/-- The walk through a channel goes over the indices of that channel. -/
theorem planeOffsets_eq_map (t : Tensor α) (hrank : 2 ≤ t.rank) (order : VisitOrder) (c : Nat) :
    order.offsets t.planeAxes (t.planeStart c)
      = (channelIndices order t.dims c).map (positionOf t.layout.axes) := by
  obtain ⟨a, b, as, haxes⟩ := t.exists_axes_eq hrank
  have hdims : t.dims = a.len :: b.len :: dimsOf as := by
    show dimsOf t.layout.axes = _
    rw [haxes]
    rfl
  have hplane : t.planeAxes = a :: as := by
    unfold planeAxes
    rw [haxes]
    rfl
  have hstart : t.planeStart c = c * b.stride := by
    unfold planeStart
    rw [haxes]
    rfl
  rw [hplane, hstart, hdims, haxes, VisitOrder.offsets_eq_map, channelIndices, List.map_map]
  apply List.map_congr_left
  intro i hi
  obtain ⟨j, js, rfl, _, _⟩ := exists_cons_of_mem_indicesOf (VisitOrder.mem_indices hi)
  -- the walk starts at the channel; the index has it as its second coordinate
  show c * b.stride + (j * a.stride + positionOf as js)
    = j * a.stride + (c * b.stride + positionOf as js)
  omega

/-- The elements of a channel are those at its places in the contents. -/
theorem planeIn_eq_map [Zero α] (t : Tensor α) (hrank : 2 ≤ t.rank) (order : VisitOrder)
    (hc : c < t.channels) :
    t.planeIn order c = (channelPlaces order t.dims c).map t.elem := by
  unfold planeIn
  rw [planeOffsets_eq_map t hrank, readAll_map_positionOf, channelPlaces, List.map_map]
  · rfl
  · exact fun i hi => mem_indicesOf_of_mem_channelIndices hrank hc hi

theorem plane_eq_map [Zero α] (t : Tensor α) (hrank : 2 ≤ t.rank) (hc : c < t.channels) :
    t.plane c = (channelPlaces .rows t.dims c).map t.elem :=
  t.planeIn_eq_map hrank .rows hc

/-- Tensors of one shape, visited together, are read at one place after another. -/
theorem zip_planeIn [Zero α] {t u : Tensor α} (hrank : 2 ≤ t.rank) (hdims : u.dims = t.dims)
    (order : VisitOrder) {c : Nat} (hc : c < t.channels) :
    (t.planeIn order c).zip (u.planeIn order c)
      = (channelPlaces order t.dims c).map fun k => (t.elem k, u.elem k) := by
  rw [t.planeIn_eq_map hrank order hc, u.planeIn_eq_map (rank_congr hdims ▸ hrank) order
    (channels_congr hdims ▸ hc), hdims, List.zip_map']

/-- Contents are determined channel by channel. -/
theorem elem_of_plane_eq_map [Zero α] {t : Tensor α} {f : Nat → α} (hrank : 2 ≤ t.rank)
    (h : ∀ c < t.channels, t.plane c = (channelPlaces .rows t.dims c).map f) {k : Nat}
    (hk : k < t.numel) : t.elem k = f k := by
  have hc : channelOf t.dims k < t.channels := channelOf_lt hrank hk
  have hmem : k ∈ channelPlaces .rows t.dims (channelOf t.dims k) :=
    (mem_channelPlaces hrank hc).2 ⟨hk, rfl⟩
  have hmap := h _ hc
  rw [plane_eq_map t hrank hc] at hmap
  exact List.map_inj_left.1 hmap k hmem

/-- An input with channels has as many elements in each as places. -/
theorem elementsPerChannel_eq (t : Tensor α) (hrank : 2 ≤ t.rank) (hc : 0 < t.channels) :
    t.elementsPerChannel = volume (t.dims.eraseIdx 1) := by
  obtain ⟨n, C, rest, hdims⟩ := exists_eq_cons_cons hrank
  unfold elementsPerChannel numel
  unfold channels at hc ⊢
  rw [hdims] at hc ⊢
  have hc : 0 < C := hc
  show n * (C * volume rest) / C = n * volume rest
  rw [Nat.mul_left_comm, Nat.mul_div_cancel_left _ hc]

/-! ## §3. Writing a channel. -/

/-- The channels together visit every position of the tensor, once. -/
theorem flatMap_planeOffsets_perm (t : Tensor α) (hrank : 2 ≤ t.rank) :
    ((List.range t.channels).flatMap t.planeOffsets).Perm t.layout.offsets := by
  obtain ⟨a, b, as, haxes⟩ := t.exists_axes_eq hrank
  have hC : t.channels = b.len := by
    show (dimsOf t.layout.axes).getD 1 0 = _
    rw [haxes]
    rfl
  have hplane : t.planeOffsets = fun c => offsetsFrom (a :: as) (0 + c * b.stride) := by
    funext c
    unfold planeOffsets planeAxes planeStart
    rw [haxes, Nat.zero_add]
    rfl
  -- with the channel axis outermost the visit is one channel after another
  have hvisit : (List.range t.channels).flatMap t.planeOffsets
      = offsetsFrom (b :: a :: as) 0 := by
    rw [offsetsFrom_cons, hC, hplane]
  rw [hvisit]
  show List.Perm _ (offsetsFrom t.layout.axes 0)
  rw [haxes]
  exact offsetsFrom_perm (List.Perm.swap a b as) 0

/-- Channels are visited without repetition, and no two of them meet. -/
theorem nodup_planeOffsets (t : Tensor α) (hrank : 2 ≤ t.rank) :
    (∀ c < t.channels, (t.planeOffsets c).Nodup)
      ∧ ∀ c < t.channels, ∀ d < t.channels, c ≠ d →
          ∀ p ∈ t.planeOffsets c, p ∉ t.planeOffsets d := by
  have hnd : ((List.range t.channels).flatMap t.planeOffsets).Nodup :=
    (t.flatMap_planeOffsets_perm hrank).nodup_iff.2 t.layout.nodup
  obtain ⟨heach, hpair⟩ := List.nodup_flatMap.1 hnd
  have : Std.Symm (Function.onFun List.Disjoint t.planeOffsets) :=
    ⟨fun _ _ h _ hx hy => h hy hx⟩
  constructor
  · intro c hc
    exact heach c (List.mem_range.2 hc)
  · intro c hc d hd hne p hp hp'
    exact hpair.forall (List.mem_range.2 hc) (List.mem_range.2 hd) hne hp hp'

theorem lt_size_of_mem_planeOffsets (t : Tensor α) (hrank : 2 ≤ t.rank) (hc : c < t.channels)
    {p : Nat} (hp : p ∈ t.planeOffsets c) : p < t.buffer.size := by
  have hp : p ∈ VisitOrder.rows.offsets t.planeAxes (t.planeStart c) := hp
  rw [planeOffsets_eq_map t hrank] at hp
  obtain ⟨i, hi, rfl⟩ := List.mem_map.1 hp
  -- a position of a channel is a position of the tensor
  refine t.bound _ ?_
  show _ ∈ offsetsFrom t.layout.axes 0
  rw [offsetsFrom_eq_map]
  exact List.mem_map.2 ⟨i, mem_indicesOf_of_mem_channelIndices hrank hc hi, Nat.zero_add _⟩

/-- A task leaves its result in its channel. -/
theorem plane_modifyPlane_self (t : Tensor α) (hrank : 2 ≤ t.rank) (hc : c < t.channels)
    {f : List α → List α} (hf : (f (t.plane c)).length = (t.plane c).length) :
    (t.modifyPlane c f).plane c = f (t.plane c) := by
  have hb : ∀ p ∈ t.planeOffsets c, p < t.buffer.size := fun p hp =>
    t.lt_size_of_mem_planeOffsets hrank hc hp
  refine readAll_writeAll ((t.nodup_planeOffsets hrank).1 c hc) hb ?_
  rw [hf]
  exact length_readAll hb

/-- A task leaves the other channels alone. -/
theorem plane_modifyPlane_of_ne (t : Tensor α) (hrank : 2 ≤ t.rank) (hc : c < t.channels)
    {d : Nat} (hd : d < t.channels) (hne : d ≠ c) (f : List α → List α) :
    (t.modifyPlane c f).plane d = t.plane d := by
  show readAll (writeAll t.buffer (t.planeOffsets c) (f (t.plane c))) (t.planeOffsets d)
    = readAll t.buffer (t.planeOffsets d)
  unfold readAll
  apply List.filterMap_congr
  intro p hp
  exact getElem?_writeAll_of_notMem ((t.nodup_planeOffsets hrank).2 d hd c hc hne p hp)

/-! ## §4. One task per channel. -/

/-- Tasks on distinct channels, run one after another. -/
theorem plane_foldl_modifyPlane {n : Nat} (f : Fin n → List α → List α) (cs : List (Fin n))
    (hnd : cs.Nodup) (t : Tensor α) (hrank : 2 ≤ t.rank) (hn : n = t.channels)
    (hf : ∀ c ∈ cs, (f c (t.plane c)).length = (t.plane c).length) (d : Fin n) :
    (cs.foldl (fun (u : Tensor α) (c : Fin n) => u.modifyPlane c (f c)) t).plane d
      = if d ∈ cs then f d (t.plane d) else t.plane d := by
  -- on the tasks still to run; the tensor they start from changes
  induction cs generalizing t with
  | nil => simp
  | cons c cs ih =>
      rw [List.nodup_cons] at hnd
      have hne : ∀ e : Fin n, e ≠ c → (t.modifyPlane c (f c)).plane e = t.plane e := by
        intro e he
        refine plane_modifyPlane_of_ne t hrank (hn ▸ c.isLt) (hn ▸ e.isLt) ?_ _
        exact fun h => he (Fin.ext h)
      have hf' : ∀ e ∈ cs, (f e ((t.modifyPlane c (f c)).plane e)).length
          = ((t.modifyPlane c (f c)).plane e).length := by
        intro e he
        rw [hne e (fun h => hnd.1 (h ▸ he))]
        exact hf e (by simp [he])
      rw [List.foldl_cons, ih hnd.2 (t.modifyPlane c (f c)) hrank hn hf']
      by_cases hdc : d = c
      · subst hdc
        rw [if_neg hnd.1, if_pos (by simp)]
        exact plane_modifyPlane_self t hrank (hn ▸ d.isLt) (hf d (by simp))
      · rw [hne d hdc]
        simp [hdc]

/-- A loop over channels keeps layout, device and buffer size. -/
theorem foldl_modifyPlane_frame {n : Nat} (f : Fin n → List α → List α) (cs : List (Fin n))
    (t : Tensor α) :
    let r := cs.foldl (fun (u : Tensor α) (c : Fin n) => u.modifyPlane c (f c)) t
    r.layout = t.layout ∧ r.device = t.device ∧ r.buffer.size = t.buffer.size := by
  induction cs generalizing t with
  | nil => exact ⟨rfl, rfl, rfl⟩
  | cons c cs ih =>
      obtain ⟨hl, hd, hs⟩ := ih (t.modifyPlane c (f c))
      exact ⟨hl, hd, hs.trans (size_writeAll _ _ _)⟩

/-- A tensor whose elements fill the whole buffer in order is built from them. -/
theorem eq_build {t : Tensor α} {dims : List Nat} {h : Addressable dims}
    (hlayout : t.layout = .rowMajor dims h) (hsize : t.buffer.size = volume dims)
    {xs : List α} (hlen : xs.length = volume dims) (hxs : t.toList = xs) :
    t = build dims h xs hlen t.device := by
  obtain ⟨layout, buffer, device, bound⟩ := t
  subst hlayout
  have hbuf : buffer = xs.toArray := by
    rw [← hxs, toList, Layout.offsets_rowMajor]
    have hread := readAll_range' buffer.toList
    have hlen' : buffer.toList.length = volume dims := hsize
    rw [hlen'] at hread
    rw [hread]
  subst hbuf
  rfl

/-- **A loop over channels, starting from zeros, leaves at every place what the
task of its channel put there.** -/
theorem forEachChannel_zerosLike [Zero α] (t : Tensor β) (s : Schedule t.channels)
    (hrank : 2 ≤ t.rank) (f : Fin t.channels → List α → List α) (val : Nat → α)
    (hf : ∀ (c : Fin t.channels) (xs : List α),
      f c xs = (channelPlaces .rows t.dims c).map val) :
    s.forEachChannel t.zerosLike f
      = t.withContents ((List.range t.numel).map val) (by simp) := by
  have hdims : (t.zerosLike : Tensor α).dims = t.dims := dims_zerosLike t
  have hrank' : 2 ≤ (t.zerosLike : Tensor α).rank := rank_congr hdims ▸ hrank
  have hchan : t.channels = (t.zerosLike : Tensor α).channels := channels_congr hdims.symm
  have hnd : s.order.Nodup := s.complete.nodup_iff.2 (List.nodup_finRange _)
  have hall : ∀ c, c ∈ s.order := fun c => s.complete.mem_iff.2 (List.mem_finRange c)
  obtain ⟨hlayout, hdevice, hsize⟩ :=
    foldl_modifyPlane_frame f s.order (t.zerosLike : Tensor α)
  have hplane := plane_foldl_modifyPlane f _ hnd (t.zerosLike : Tensor α) hrank' hchan (by
    intro c _
    rw [hf, plane_eq_map _ hrank' (hchan ▸ c.isLt), hdims, List.length_map, List.length_map])
  unfold Schedule.forEachChannel runTasks
  -- from here on only the frame and the planes of the result matter
  generalize hr : s.order.foldl _ _ = r at hlayout hdevice hsize hplane ⊢
  have hrdims : r.dims = t.dims := by
    show r.layout.dims = t.dims
    rw [hlayout]
    exact hdims
  have hrnumel : r.numel = t.numel := congrArg volume hrdims
  have helem : ∀ k < r.numel, r.elem k = val k := by
    intro k hk
    refine elem_of_plane_eq_map (rank_congr hrdims ▸ hrank) (fun c hc => ?_) hk
    have hc : c < t.channels := channels_congr hrdims ▸ hc
    have hp := hplane ⟨c, hc⟩
    rw [if_pos (hall _), hf] at hp
    rw [hp, hrdims]
  have hlist : r.toList = (List.range t.numel).map val := by
    rw [toList_eq_map_elem, hrnumel]
    refine List.map_congr_left fun k hk => helem k ?_
    rw [hrnumel]
    exact List.mem_range.1 hk
  have hbuild := eq_build (h := t.addressable) hlayout (by
    rw [hsize]
    show (List.replicate t.numel (0 : α)).toArray.size = volume t.dims
    simp [numel]) (by simp [numel]) hlist
  rw [hbuild, hdevice]
  rfl

end Tensor

end ChannelNorm

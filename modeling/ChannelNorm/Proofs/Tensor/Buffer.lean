/-
  ChannelNorm.Proofs.Tensor.Buffer
  ────────────────────────────────
  **CONTIGUOUS TENSORS ARE A STRETCH OF THEIR BUFFER.**

  A contiguous tensor visits its buffer from the front, so its contents are the
  stretch of memory it occupies, and a loop over chunks of that stretch is a
  loop over the contents that counts chunks:

      t.asSlice?  =  some t.toList.toArray
      chunk p, entry j   ↔   place p * k + j,   and   (p * k + j) / k  =  p
-/
import ChannelNorm.Proofs.Tensor.Plane

namespace ChannelNorm

variable {α β γ : Type}

/-! ## §1. The stretch of a contiguous tensor. -/

theorem offsetsFrom_of_hasRowMajorStrides {axes : List Axis}
    (h : Layout.hasRowMajorStrides axes = true) (start : Nat) :
    offsetsFrom axes start = List.range' start (volume (dimsOf axes)) := by
  induction axes generalizing start with
  | nil => exact offsetsFrom_nil start
  | cons a as ih =>
      unfold Layout.hasRowMajorStrides at h
      obtain ⟨ha, has⟩ := Bool.and_eq_true_iff.1 h
      rw [offsetsFrom_cons]
      simp only [ih has]
      show _ = List.range' start (a.len * volume (dimsOf as))
      rw [Bool.or_eq_true, beq_iff_eq, beq_iff_eq] at ha
      rcases ha with hone | hstride
      · -- an axis of length one takes no step
        rw [hone]
        simp
      · rw [hstride]
        exact flatMap_range'_blocks _ _ _

/-- An axis without indices empties the array. -/
theorem volume_eq_zero_of_mem {dims : List Nat} (h : 0 ∈ dims) : volume dims = 0 := by
  induction dims with
  | nil => simp at h
  | cons d ds ih =>
      rw [volume_cons]
      rcases List.mem_cons.1 h with rfl | hds
      · exact Nat.zero_mul _
      · rw [ih hds, Nat.mul_zero]

/-- Contiguous axes walk the buffer from the front. -/
theorem offsetsFrom_of_contiguousAxes {axes : List Axis} (h : Layout.contiguousAxes axes = true)
    (start : Nat) : offsetsFrom axes start = List.range' start (volume (dimsOf axes)) := by
  unfold Layout.contiguousAxes at h
  rw [Bool.or_eq_true] at h
  rcases h with hempty | hrows
  · obtain ⟨a, ha, hzero⟩ := List.any_eq_true.1 hempty
    have hmem : 0 ∈ dimsOf axes := beq_iff_eq.1 hzero ▸ List.mem_map_of_mem ha
    unfold offsetsFrom
    rw [volume_eq_zero_of_mem hmem]
    rfl
  · exact offsetsFrom_of_hasRowMajorStrides hrows start

/-- A stretch of the buffer, read one position after the other. -/
theorem extract_eq_readAll {buffer : Array α} {start n : Nat}
    (h : ∀ p ∈ List.range' start n, p < buffer.size) :
    buffer.extract start (start + n) = (readAll buffer (List.range' start n)).toArray := by
  apply Array.ext_getElem?
  intro k
  have hextract : (buffer.extract start (start + n))[k]?
      = if k < n then buffer[start + k]? else none := by
    rw [Array.getElem?_extract]
    refine if_congr ⟨fun hk => by omega, fun hk => ?_⟩ rfl rfl
    have hlt := h (start + k) (List.mem_range'_1.2 ⟨by omega, by omega⟩)
    omega
  have hlist : (readAll buffer (List.range' start n)).toArray[k]?
      = (readAll buffer (List.range' start n))[k]? := List.getElem?_toArray
  rw [hextract, hlist]
  by_cases hk : k < n
  · have hread := congrArg (·[k]?) (map_some_readAll h)
    simp only [List.getElem?_map, List.getElem?_range' hk, Nat.one_mul, Option.map_some] at hread
    obtain ⟨x, hx, hsome⟩ := Option.map_eq_some_iff.1 hread
    rw [if_pos hk, hx, hsome]
  · have hlength : (readAll buffer (List.range' start n)).length ≤ k := by
      rw [length_readAll h, List.length_range']
      omega
    rw [if_neg hk, List.getElem?_eq_none hlength]

namespace Tensor

/-- The stretch of memory of a contiguous tensor holds its contents. -/
theorem asSlice?_eq {t : Tensor α} (h : t.isContiguous = true) :
    t.asSlice? = some t.toList.toArray := by
  have hoff : t.layout.offsets = List.range' 0 t.numel := offsetsFrom_of_contiguousAxes h 0
  have hstretch := extract_eq_readAll fun p hp => t.bound p (hoff ▸ hp)
  rw [Nat.zero_add] at hstretch
  unfold asSlice?
  rw [if_pos h, toList, hoff, hstretch]

theorem hasRowMajorStrides_rowMajorAxes (dims : List Nat) :
    Layout.hasRowMajorStrides (rowMajorAxes dims) = true := by
  induction dims with
  | nil => rfl
  | cons d ds ih => simp [rowMajorAxes, Layout.hasRowMajorStrides, ih]

/-- What is built is contiguous. -/
theorem isContiguous_build {dims : List Nat} {h : Addressable dims} {data : List α}
    {len : data.length = volume dims} {device : Device} :
    (build dims h data len device).isContiguous = true := by
  show (_ || Layout.hasRowMajorStrides (rowMajorAxes dims)) = true
  rw [hasRowMajorStrides_rowMajorAxes, Bool.or_true]

theorem isContiguous_zerosLike [Zero β] (t : Tensor α) :
    (t.zerosLike : Tensor β).isContiguous = true := by
  unfold zerosLike fullLike withContents
  exact isContiguous_build

/-- A fresh tensor overwritten is one built from what was written. -/
theorem overwrite_zerosLike [Zero β] (t : Tensor α) {xs : List β} (h : xs.length = t.numel) :
    (t.zerosLike : Tensor β).overwrite xs = t.withContents xs h := by
  have hnumel : (t.zerosLike : Tensor β).numel = t.numel := congrArg volume (dims_zerosLike t)
  have hsize : ((t.zerosLike : Tensor β).overwrite xs).buffer.size = volume t.dims := by
    show (writeAll _ _ _).size = _
    rw [size_writeAll]
    show (List.replicate t.numel (0 : β)).toArray.size = _
    simp [numel]
  exact eq_build (h := t.addressable) rfl hsize h (toList_overwrite (h.trans hnumel.symm))

end Tensor

/-! ## §2. Chunks. -/

/-- Both stretches of a pair of equal length are cut at the same places. -/
theorem zip_chunksOf (k : Nat) {xs : List β} {ys : List γ} (h : xs.length = ys.length) :
    (chunksOf k xs).zip (chunksOf k ys) = (chunksOf k (xs.zip ys)).map List.unzip := by
  -- on the chunks; the rests have equal length again
  fun_induction chunksOf k xs generalizing ys with
  | case1 =>
      rw [List.length_nil, eq_comm, List.length_eq_zero_iff] at h
      subst h
      simp [chunksOf]
  | case2 x xs ih =>
      cases ys with
      | nil => simp at h
      | cons y ys =>
          have hlen : xs.length = ys.length := by simpa using h
          have hrest := @ih (ys.drop (k - 1)) (by rw [List.length_drop, List.length_drop, hlen])
          have htake : ((xs.zip ys).take (k - 1)).unzip
              = (xs.take (k - 1), ys.take (k - 1)) := by
            rw [List.zip_eq_zipWith, List.take_zipWith, ← List.zip_eq_zipWith]
            exact List.unzip_zip (by rw [List.length_take, List.length_take, hlen])
          have hdrop : (xs.zip ys).drop (k - 1) = (xs.drop (k - 1)).zip (ys.drop (k - 1)) := by
            rw [List.zip_eq_zipWith, List.drop_zipWith, ← List.zip_eq_zipWith]
          rw [List.zip_cons_cons]
          simp only [chunksOf]
          rw [List.zip_cons_cons, hrest, List.map_cons, List.unzip_cons, htake, hdrop]

/-- Entries numbered below `k` are those of the first chunk. -/
theorem mapIdx_div_of_length_le {k : Nat} (f : Nat → β → γ) (xs : List β) (h : xs.length ≤ k) :
    (xs.mapIdx fun i x => f (i / k) x) = xs.map (f 0) := by
  rw [List.mapIdx_eq_iff]
  intro i
  rw [List.getElem?_map]
  rcases Nat.lt_or_ge i xs.length with hi | hi
  · rw [Nat.div_eq_of_lt (by omega)]
  · rw [List.getElem?_eq_none hi]
    rfl

/-- A loop over numbered chunks is a loop over numbered entries. -/
theorem flatten_mapIdx_chunksOf {k : Nat} (hk : 0 < k) (f : Nat → β → γ) (xs : List β) :
    ((chunksOf k xs).mapIdx fun p chunk => chunk.map (f p)).flatten
      = xs.mapIdx fun i x => f (i / k) x := by
  -- the chunks left over are numbered from one on
  fun_induction chunksOf k xs generalizing f with
  | case1 => rfl
  | case2 x xs ih =>
      have hlength : (x :: xs.take (k - 1)).length ≤ k := by
        rw [List.length_cons, List.length_take]
        omega
      have hfirst := mapIdx_div_of_length_le f (x :: xs.take (k - 1)) hlength
      have hrest : ((xs.drop (k - 1)).mapIdx fun i y =>
            f ((i + (x :: xs.take (k - 1)).length) / k) y)
          = (xs.drop (k - 1)).mapIdx fun i y => f (i / k + 1) y := by
        rcases Nat.lt_or_ge xs.length (k - 1) with hshort | hlong
        · rw [List.drop_of_length_le (by omega)]
          rfl
        · have hlen : (x :: xs.take (k - 1)).length = k := by
            rw [List.length_cons, List.length_take]
            omega
          simp only [hlen, Nat.add_div_right _ hk]
      have hsplit : x :: xs = (x :: xs.take (k - 1)) ++ xs.drop (k - 1) := by
        rw [List.cons_append, List.take_append_drop]
      rw [List.mapIdx_cons, List.flatten_cons, ih fun p => f (p + 1)]
      conv_rhs => rw [hsplit]
      rw [List.mapIdx_append, hfirst, hrest]

end ChannelNorm

/-
  ChannelNorm.Proofs.Tensor.Tasks
  ───────────────────────────────
  **CHANNEL TASKS IN ANY ORDER.**

  The channels of a tensor split its positions: every element is in the slice
  of exactly one channel.  A task reads and writes its own slice only, so tasks
  of different channels commute, whatever they compute, and a loop over the
  channels may take them in any order:

      order ~ finRange C   →   t.runTasks f order  =  t.runTasks f (finRange C)

  Values computed chunk by chunk come in channel order, however the chunks are
  cut.
-/
import ChannelNorm.Proofs.Tensor.Plane
import Mathlib.Logic.ExistsUnique

namespace ChannelNorm

variable {α β : Type}

/-! ## §1. Writes at different positions. -/

/-- Writes at other positions may come before or after. -/
theorem writeAll_setIfInBounds {positions : List Nat} {p : Nat} (h : p ∉ positions)
    (buffer : Array α) (values : List α) (v : α) :
    writeAll (buffer.setIfInBounds p v) positions values
      = (writeAll buffer positions values).setIfInBounds p v := by
  -- on the positions; the buffer they are written to changes
  induction positions generalizing buffer values with
  | nil => rfl
  | cons q qs ih =>
      cases values with
      | nil => rfl
      | cons w ws =>
          rw [List.mem_cons, not_or] at h
          show writeAll ((buffer.setIfInBounds p v).setIfInBounds q w) qs ws
            = (writeAll (buffer.setIfInBounds q w) qs ws).setIfInBounds p v
          rw [Array.setIfInBounds_comm _ _ h.1, ih h.2]

/-- Writes at disjoint positions commute. -/
theorem writeAll_comm {ps qs : List Nat} (h : ∀ p ∈ ps, p ∉ qs) (buffer : Array α)
    (xs ys : List α) :
    writeAll (writeAll buffer ps xs) qs ys = writeAll (writeAll buffer qs ys) ps xs := by
  induction ps generalizing buffer xs with
  | nil => rfl
  | cons p ps ih =>
      cases xs with
      | nil => rfl
      | cons x xs =>
          have hp : p ∉ qs := h p (by simp)
          show writeAll (writeAll (buffer.setIfInBounds p x) ps xs) qs ys
            = writeAll ((writeAll buffer qs ys).setIfInBounds p x) ps xs
          rw [ih fun q hq => h q (by simp [hq]), writeAll_setIfInBounds hp]

namespace Tensor

/-! ## §2. Every element is in one slice. -/

section
variable (t : Tensor α) (hrank : 2 ≤ t.rank)
include hrank

/-- **Every element belongs to exactly one channel**, and what belongs to a
channel is an element. -/
theorem mem_offsets_iff_existsUnique {p : Nat} :
    p ∈ t.layout.offsets ↔ ∃! c : Fin t.channels, p ∈ t.planeOffsets c := by
  have hperm := t.flatMap_planeOffsets_perm hrank
  rw [← hperm.mem_iff, List.mem_flatMap]
  constructor
  · rintro ⟨c, hc, hp⟩
    have hc : c < t.channels := List.mem_range.1 hc
    refine ⟨⟨c, hc⟩, hp, fun d hd => ?_⟩
    by_contra hne
    exact (t.nodup_planeOffsets hrank).2 d d.isLt c hc (fun h => hne (Fin.ext h)) p hd hp
  · rintro ⟨c, hp, _⟩
    exact ⟨c, List.mem_range.2 c.isLt, hp⟩

/-! ## §3. Tasks commute. -/

/-- **Tasks of different channels commute**, whatever they compute. -/
theorem modifyPlane_comm {c d : Nat} (hc : c < t.channels) (hd : d < t.channels) (hne : c ≠ d)
    (f g : List α → List α) :
    (t.modifyPlane c f).modifyPlane d g = (t.modifyPlane d g).modifyPlane c f := by
  -- neither task sees what the other wrote
  have hreadD : (t.modifyPlane c f).plane d = t.plane d :=
    plane_modifyPlane_of_ne t hrank hc hd (Ne.symm hne) f
  have hreadC : (t.modifyPlane d g).plane c = t.plane c :=
    plane_modifyPlane_of_ne t hrank hd hc hne g
  have hwrite := writeAll_comm ((t.nodup_planeOffsets hrank).2 c hc d hd hne) t.buffer
    (f (t.plane c)) (g (t.plane d))
  show Tensor.mk t.layout (writeAll (t.modifyPlane c f).buffer (t.planeOffsets d)
      (g ((t.modifyPlane c f).plane d))) t.device _
    = Tensor.mk t.layout (writeAll (t.modifyPlane d g).buffer (t.planeOffsets c)
      (f ((t.modifyPlane d g).plane c))) t.device _
  congr 1
  rw [hreadC, hreadD]
  exact hwrite

end

/-- **Channel tasks may run in any order.** -/
theorem runTasks_perm {n : Nat} (f : Fin n → List α → List α) {order order' : List (Fin n)}
    (h : order.Perm order') (t : Tensor α) (hrank : 2 ≤ t.rank) (hn : n = t.channels) :
    t.runTasks f order = t.runTasks f order' := by
  -- on the permutation; tasks that have run leave a tensor of the same layout
  induction h generalizing t with
  | nil => rfl
  | cons c _ ih => exact ih (t.modifyPlane c (f c)) hrank hn
  | swap c d rest =>
      show ((t.modifyPlane d (f d)).modifyPlane c (f c)).runTasks f rest
        = ((t.modifyPlane c (f c)).modifyPlane d (f d)).runTasks f rest
      rcases eq_or_ne c d with rfl | hne
      · rfl
      · rw [t.modifyPlane_comm hrank (hn ▸ c.isLt) (hn ▸ d.isLt) (Fin.val_ne_of_ne hne)]
  | trans _ _ ih ih' => exact (ih t hrank hn).trans (ih' t hrank hn)

end Tensor

namespace Executor

/-- The loop over the channels, whatever order its tasks are taken in. -/
theorem forEachChannel_eq_runTasks (ex : Executor) {n : Nat} (t : Tensor α) (hrank : 2 ≤ t.rank)
    (hn : n = t.channels) (f : Fin n → List α → List α) {order : List (Fin n)}
    (h : order.Perm (List.finRange n)) : ex.forEachChannel n t f = t.runTasks f order := by
  show t.runTasks f (ex.tasks n t.numel).flatten = _
  rw [ex.flatten_tasks]
  exact Tensor.runTasks_perm f h.symm t hrank hn

/-- Values come in channel order, whatever chunks they are computed in. -/
theorem mapChannels_eq_chunks (ex : Executor) {n : Nat} (numel : Nat) (f : Fin n → β)
    {chunks : List (List (Fin n))} (h : chunks.flatten = List.finRange n) :
    (ex.mapChannels n numel f).toList = (chunks.map (·.map f)).flatten := by
  unfold mapChannels
  rw [Schedule.toList_mapChannels, ← List.map_flatten, h]

end Executor

end ChannelNorm

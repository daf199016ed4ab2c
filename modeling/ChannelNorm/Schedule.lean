/-
  ChannelNorm.Schedule
  ────────────────────
  **CHANNEL TASKS.**

  Channels are the unit of work: a task reads and writes only the slice of its
  own channel along axis 1.  A schedule says how the tasks of one call are run:
  the order they come in where each writes its slice, and the consecutive chunks
  they are cut into where each computes a value.  An executor is a way to choose
  schedules: it splits the channels into chunks, one per worker task, when there
  is enough to do and there are workers to do it.  How they are split is not
  visible in results:

      (s.mapChannels f).toList  =  [f 0, …, f (n - 1)]
-/
import ChannelNorm.Config
import ChannelNorm.Tensor.Channel

namespace ChannelNorm

variable {α β : Type}

/-! ## §1. Consecutive chunks. -/

/-- Consecutive chunks of `k` items, at least one each; the last may be
shorter. -/
def chunksOf (k : Nat) : List β → List (List β)
  | [] => []
  | x :: xs => (x :: xs.take (k - 1)) :: chunksOf k (xs.drop (k - 1))
termination_by xs => xs.length
decreasing_by
  rw [List.length_drop, List.length_cons]
  exact Nat.lt_succ_of_le (Nat.sub_le _ _)

/-- Chunks laid end to end are the list they were cut from. -/
@[simp] theorem flatten_chunksOf (k : Nat) (xs : List β) : (chunksOf k xs).flatten = xs := by
  fun_induction chunksOf k xs with
  | case1 => rfl
  | case2 x xs ih => rw [List.flatten_cons, ih, List.cons_append, List.take_append_drop]

/-! ## §2. Schedules. -/

/-- Run the tasks of the listed channels, one after another.  A task turns the
contents of its slice, in row-major order, into new contents. -/
def Tensor.runTasks {n : Nat} (t : Tensor α) (f : Fin n → List α → List α)
    (order : List (Fin n)) : Tensor α :=
  order.foldl (fun (u : Tensor α) (c : Fin n) => u.modifyPlane c (f c)) t

/-- How the tasks of one call over `n` channels are run. -/
structure Schedule (n : Nat) where
  /-- The order in which the tasks of a loop run. -/
  order : List (Fin n)
  /-- Consecutive chunks in which values are computed. -/
  chunks : List (List (Fin n))
  complete : order.Perm (List.finRange n)
  consecutive : chunks.flatten = List.finRange n

namespace Schedule

variable {n : Nat} (s : Schedule n)

/-- One value per channel, computed chunk by chunk. -/
def mapChannels (f : Fin n → β) : Vector β n :=
  ⟨(s.chunks.map (·.map f)).flatten.toArray, by
    rw [← List.map_flatten, s.consecutive]
    simp⟩

/-- The values come in channel order, however the channels were split. -/
theorem toList_mapChannels (f : Fin n → β) :
    (s.mapChannels f).toList = (List.finRange n).map f := by
  show (s.chunks.map (·.map f)).flatten = _
  rw [← List.map_flatten, s.consecutive]

/-- Run one task per channel on that channel's slice of `t`. -/
def forEachChannel (t : Tensor α) (f : Fin n → List α → List α) : Tensor α :=
  t.runTasks f s.order

end Schedule

/-! ## §3. Executors. -/

/-- The settings of a run: the configuration and the number of workers. -/
structure Executor where
  config : NormConfig
  threads : Nat
  deriving DecidableEq, Repr

namespace Executor

variable (ex : Executor)

/-- Whether work on `channels` channels of `numel` elements in all is split
into tasks. -/
def shouldParallelize (channels numel : Nat) : Bool :=
  decide (1 < channels) && decide (ex.config.serialThreshold ≤ numel) && decide (1 < ex.threads)

/-- The channels of each task. -/
def tasks (channels numel : Nat) : List (List (Fin channels)) :=
  if ex.shouldParallelize channels numel then
    chunksOf (max ex.config.parallelGrain 1) (List.finRange channels)
  else [List.finRange channels]

@[simp] theorem flatten_tasks (channels numel : Nat) :
    (ex.tasks channels numel).flatten = List.finRange channels := by
  unfold tasks
  split <;> simp

/-- The schedule chosen for work on `numel` elements: task by task. -/
def schedule (n numel : Nat) : Schedule n where
  order := (ex.tasks n numel).flatten
  chunks := ex.tasks n numel
  complete := .of_eq (ex.flatten_tasks n numel)
  consecutive := ex.flatten_tasks n numel

/-- One value per channel, computed task by task. -/
def mapChannels (channels numel : Nat) (f : Fin channels → β) : Vector β channels :=
  (ex.schedule channels numel).mapChannels f

/-- Run one task per channel on that channel's slice of `t`, task by task. -/
def forEachChannel (channels : Nat) (t : Tensor α) (f : Fin channels → List α → List α) :
    Tensor α :=
  (ex.schedule channels t.numel).forEachChannel t f

/-- Run one task per channel of `t`.  A tensor of fewer than two axes has no
channels to run on. -/
def forEachChannel? (t : Tensor α) (f : Nat → List α → List α) : Option (Tensor α) :=
  if t.rank < 2 then none
  else some (ex.forEachChannel t.channels t fun c => f c)

end Executor

end ChannelNorm

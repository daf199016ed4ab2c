/-
  ChannelNorm.Proofs.Backend.Conservation
  ───────────────────────────────────────
  **REGISTRIES LOSE NOTHING AND DOUBLE NOTHING.**

  Two element types with two slots each make four cells.  Over any run of
  requests from empty registries, every accelerator handed to an install is
  either handed back, by the install or uninstall that took it out, or still in
  a cell, as often as it was handed over:

      handed over = handed back + still installed

  What a cell holds is what the last request for that cell put there.  Calls
  forward and backward may be left out of a run: the registries stay the same.
-/
import Mathlib.Algebra.BigOperators.Group.Finset.Piecewise
import Mathlib.Algebra.Order.Group.Multiset
import Mathlib.Data.Fintype.Prod
import ChannelNorm.Proofs.Backend.Session

namespace ChannelNorm

/-! ## §1. Cells and the accelerators in them. -/

instance : Fintype DType :=
  ⟨{.float32, .float64}, fun d => by cases d <;> decide⟩

instance : Fintype AcceleratorSlot :=
  ⟨{.cudnn, .miopen}, fun slot => by cases slot <;> decide⟩

/-- An accelerator with the element type it is for. -/
abbrev TypedAccelerator : Type :=
  (d : DType) × Accelerator d.Host Float

/-- The accelerators in a cell of an element type, at most one. -/
def cellContents (d : DType) (held : Option (Accelerator d.Host Float)) :
    Multiset TypedAccelerator :=
  Multiset.ofList (held.toList.map (Sigma.mk d))

/-- Refilling one of finitely many cells exchanges its contents for the new. -/
theorem sum_update_add_old {ι M : Type} [Fintype ι] [DecidableEq ι] [AddCommMonoid M]
    (f : ι → M) (i : ι) (x : M) : ∑ j, Function.update f i x j + f i = ∑ j, f j + x := by
  rw [Finset.sum_update_of_mem (Finset.mem_univ i), Finset.sdiff_singleton_eq_erase, add_assoc,
    Finset.sum_erase_add _ f (Finset.mem_univ i), add_comm]

/-! ## §2. What a request hands over and gets back. -/

namespace Request

/-- The accelerators a request hands to the registries. -/
def handedOver : Request → Multiset TypedAccelerator
  | .install d _ a => {⟨d, a⟩}
  | .uninstall .. => 0
  | .forward .. => 0
  | .backward .. => 0

/-- Whether a request is about what is installed. -/
def isChange : Request → Bool
  | .install .. => true
  | .uninstall .. => true
  | .forward .. => false
  | .backward .. => false

/-- New contents of one cell, as another (or the same) sees them. -/
def putInto (d : DType) (slot : AcceleratorSlot) (d' : DType) (slot' : AcceleratorSlot)
    (now : Option (Accelerator d'.Host Float)) : Option (Option (Accelerator d.Host Float)) :=
  if h : d' = d then if slot' = slot then some (h ▸ now) else none else none

/-- New contents of a cell, for a request that is about this cell. -/
def puts (d : DType) (slot : AcceleratorSlot) :
    Request → Option (Option (Accelerator d.Host Float))
  | .install d' slot' a => putInto d slot d' slot' (some a)
  | .uninstall d' slot' => putInto d slot d' slot' none
  | .forward .. => none
  | .backward .. => none

/-- What the last request about a cell put there, nothing if there was none. -/
def lastPut (d : DType) (slot : AcceleratorSlot) (requests : List Request) :
    Option (Accelerator d.Host Float) :=
  (requests.reverse.findSome? (puts d slot)).join

end Request

namespace Session

variable {d : DType} {slot : AcceleratorSlot}

/-- The contents of a cell. -/
def contents (s : Session) (cell : DType × AcceleratorSlot) : Multiset TypedAccelerator :=
  cellContents cell.1 (s.held cell.1 cell.2)

/-- The accelerators in all cells. -/
def installed (s : Session) : Multiset TypedAccelerator :=
  ∑ cell, s.contents cell

/-- The accelerators a request is answered with. -/
def givenBack (s : Session) : Request → Multiset TypedAccelerator
  | .install d slot a => cellContents d ((s.registry d).install d slot a).previous
  | .uninstall d slot => cellContents d ((s.registry d).uninstall d slot).previous
  | .forward .. => 0
  | .backward .. => 0

/-- The accelerators a run of requests is answered with, one answer after another. -/
def givenBackBy (s : Session) : List Request → Multiset TypedAccelerator
  | [] => 0
  | request :: rest => s.givenBack request + (s.step request).givenBackBy rest

/-! ## §3. Conservation. -/

/-- Changing a slot changes the contents of its cell only. -/
theorem contents_withRegistry_set (s : Session) (now : Option (Accelerator d.Host Float)) :
    (s.withRegistry d ((s.registry d).set now slot)).contents
      = Function.update s.contents (d, slot) (cellContents d now) := by
  funext ⟨d', slot'⟩
  show cellContents d' (held _ d' slot') = _
  rw [held_withRegistry_set]
  unfold Request.refilled
  by_cases hcell : d = d' ∧ slot = slot'
  · obtain ⟨rfl, rfl⟩ := hcell
    rw [dif_pos ⟨rfl, rfl⟩, Function.update_self]
  · have hother : (d', slot') ≠ (d, slot) := by
      rintro ⟨⟩
      exact hcell ⟨rfl, rfl⟩
    rw [dif_neg hcell, Function.update_of_ne hother]
    rfl

/-- Changing a slot gives its old contents for the new. -/
theorem installed_withRegistry_set (s : Session) (now : Option (Accelerator d.Host Float)) :
    s.installed + cellContents d now
      = cellContents d (s.held d slot)
        + (s.withRegistry d ((s.registry d).set now slot)).installed := by
  show _ = s.contents (d, slot) + ∑ cell, contents _ cell
  rw [contents_withRegistry_set, add_comm (s.contents _), sum_update_add_old]
  rfl

/-- Calls leave every registry alone. -/
theorem registry_step_of_not_isChange (s : Session) {request : Request}
    (h : request.isChange = false) : (s.step request).registry = s.registry := by
  cases request with
  | install => cases h
  | uninstall => cases h
  | forward d ex enabled args running =>
      show (s.record d _).registry = _
      unfold record
      split <;> rfl
  | backward => rfl

/-- One request takes in what is handed over and gives back what it takes out. -/
theorem installed_step (s : Session) (request : Request) :
    s.installed + request.handedOver = s.givenBack request + (s.step request).installed := by
  cases request with
  | install d slot a => exact installed_withRegistry_set s (some a)
  | uninstall d slot => exact installed_withRegistry_set s none
  | forward d ex enabled args running =>
      have hsame : (s.step (.forward d ex enabled args running)).installed = s.installed := by
        unfold installed contents held
        rw [registry_step_of_not_isChange s rfl]
      rw [hsame]
      exact add_comm s.installed 0
  | backward => exact add_comm s.installed 0

/-- **A run takes in what is handed over and gives back what it takes out.** -/
theorem installed_run (s : Session) (requests : List Request) :
    s.installed + (requests.map Request.handedOver).sum
      = s.givenBackBy requests + (s.run requests).installed := by
  -- on the requests still to come; what one step leaves installed goes into the next
  induction requests generalizing s with
  | nil => exact add_comm s.installed 0
  | cons request rest ih =>
      calc s.installed + (request.handedOver + (rest.map Request.handedOver).sum)
          = s.givenBack request
              + ((s.step request).installed + (rest.map Request.handedOver).sum) := by
            rw [← add_assoc, installed_step, add_assoc]
        _ = s.givenBack request
              + ((s.step request).givenBackBy rest + ((s.step request).run rest).installed) := by
            rw [ih]
        _ = s.givenBackBy (request :: rest) + (s.run (request :: rest)).installed :=
            (add_assoc _ _ _).symm

/-- Every slot is empty at first. -/
theorem held_initial : initial.held d slot = none := by
  cases slot <;> rfl

/-- Nothing is installed at first. -/
theorem installed_initial : initial.installed = 0 := by
  refine Finset.sum_eq_zero fun (d, slot) _ => ?_
  show cellContents d (initial.held d slot) = 0
  rw [held_initial]
  rfl

/-! ## §4. The last change decides. -/

/-- A cell holds what was put into it, or else what was there. -/
theorem refilled_eq_getD_putInto (was : Option (Accelerator d.Host Float)) (d' : DType)
    (slot' : AcceleratorSlot) (now : Option (Accelerator d'.Host Float)) :
    Request.refilled d slot was d' slot' now
      = (Request.putInto d slot d' slot' now).getD was := by
  unfold Request.refilled Request.putInto
  by_cases hd : d' = d
  · subst hd
    by_cases hslot : slot' = slot
    · rw [dif_pos ⟨rfl, hslot⟩, dif_pos rfl, if_pos hslot]
      rfl
    · rw [dif_neg fun h => hslot h.2, dif_pos rfl, if_neg hslot]
      rfl
  · rw [dif_neg fun h => hd h.1, dif_neg hd]
    rfl

/-- So it is after a request. -/
theorem leaves_eq_getD_puts (was : Option (Accelerator d.Host Float)) (request : Request) :
    request.leaves d slot was = (request.puts d slot).getD was := by
  cases request with
  | install d' slot' a => exact refilled_eq_getD_putInto was d' slot' (some a)
  | uninstall d' slot' => exact refilled_eq_getD_putInto was d' slot' none
  | forward => rfl
  | backward => rfl

/-- A run that starts with an empty slot leaves there what was put last. -/
theorem runLeaves_none (requests : List Request) :
    Request.runLeaves d slot none requests = Request.lastPut d slot requests := by
  -- on the last request: it decides, or the run before it does
  induction requests using List.reverseRecOn with
  | nil => rfl
  | append_singleton before request ih =>
      have hrun : Request.runLeaves d slot none (before ++ [request])
          = request.leaves d slot (Request.runLeaves d slot none before) := by
        unfold Request.runLeaves
        rw [List.foldl_append]
        rfl
      rw [hrun, leaves_eq_getD_puts, ih]
      unfold Request.lastPut
      rw [List.reverse_append, List.reverse_singleton, List.singleton_append,
        List.findSome?_cons]
      cases request.puts d slot <;> rfl

/-- The registries after a run, from those before it, do not depend on its calls. -/
theorem registry_run_filter {s s' : Session} (hsame : s'.registry = s.registry)
    (requests : List Request) :
    (s'.run (requests.filter Request.isChange)).registry = (s.run requests).registry := by
  -- the two sessions share their registries but not their contexts
  induction requests generalizing s s' with
  | nil => exact hsame
  | cons request rest ih =>
      show _ = ((s.step request).run rest).registry
      cases hchange : request.isChange with
      | false =>
          rw [List.filter_cons_of_neg (by rw [hchange]; decide)]
          exact ih (hsame.trans (registry_step_of_not_isChange s hchange).symm)
      | true =>
          rw [List.filter_cons_of_pos hchange]
          refine ih ?_
          cases request with
          | install d slot a =>
              show Function.update s'.registry d _ = Function.update s.registry d _
              rw [hsame]
          | uninstall d slot =>
              show Function.update s'.registry d _ = Function.update s.registry d _
              rw [hsame]
          | forward => cases hchange
          | backward => cases hchange

/-! ## §5. The registries over any run. -/

/-- **Registries lose nothing, double nothing, and mix nothing up.**  For every
run from empty registries: what was handed to installs is what was given back
together with what is still installed, counted with multiplicity; a slot of an
element type shows what the last request about it put there, whatever was asked
of the other cells; and the calls forward and backward in the run change
nothing.  Looking a slot up, with `Registry.get`, only reads a registry. -/
theorem registries_conserve (requests : List Request) :
    (requests.map Request.handedOver).sum
        = initial.givenBackBy requests + (initial.run requests).installed
    ∧ (∀ d slot,
        ((initial.run requests).registry d).get slot = Request.lastPut d slot requests
          ∧ ((initial.run requests).registry d).isInstalled slot
            = (Request.lastPut d slot requests).isSome)
    ∧ (initial.run requests).registry
        = (initial.run (requests.filter Request.isChange)).registry := by
  refine ⟨?_, ?_, (registry_run_filter rfl requests).symm⟩
  · rw [← installed_run, installed_initial, zero_add]
  · intro d slot
    have hget : (initial.run requests).held d slot = Request.lastPut d slot requests := by
      rw [held_run, held_initial, runLeaves_none]
    exact ⟨hget, congrArg Option.isSome hget⟩

end Session

end ChannelNorm

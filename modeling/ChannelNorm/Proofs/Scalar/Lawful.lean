/-
  ChannelNorm.Proofs.Scalar.Lawful
  ────────────────────────────────
  **EXACT ARITHMETIC.**

  The operations a kernel is written over carry no law.  Where one is needed it
  is a hypothesis: `LawfulArith` says that sums, differences and products are
  those of a commutative ring.  Nothing is said about division, square roots
  and counts, which stay arbitrary functions.  Under these laws a sum does not
  depend on its order:

      xs ~ ys  →  sumInOrder xs = sumInOrder ys
      sumInterleaved xs = sumInOrder xs
-/
import Mathlib
import ChannelNorm.Tensor.Reduce

namespace ChannelNorm

/-- Arithmetic whose sums, differences and products are those of a commutative
ring. -/
class LawfulArith (α : Type) [Arith α] : Prop where
  add_assoc (a b c : α) : a + b + c = a + (b + c)
  add_comm (a b : α) : a + b = b + a
  zero_add (a : α) : 0 + a = a
  sub_add_cancel (a b : α) : a - b + b = a
  mul_assoc (a b c : α) : a * b * c = a * (b * c)
  mul_comm (a b : α) : a * b = b * a
  one_mul (a : α) : 1 * a = a
  mul_add (a b c : α) : a * (b + c) = a * b + a * c

namespace LawfulArith

variable {α : Type} [Arith α] [LawfulArith α]

theorem add_right_cancel {a b c : α} (h : a + c = b + c) : a = b := by
  have hneg : c + (0 - c) = 0 := by rw [add_comm, sub_add_cancel]
  have hshift : ∀ x : α, x + c + (0 - c) = x := fun x => by
    rw [add_assoc, hneg, add_comm, zero_add]
  rw [← hshift a, h, hshift]

theorem sub_eq_add (a b : α) : a - b = a + (0 - b) := by
  apply add_right_cancel (c := b)
  rw [sub_add_cancel, add_assoc, sub_add_cancel, add_comm, zero_add]

theorem zero_mul (a : α) : 0 * a = 0 := by
  apply add_right_cancel (c := 0 * a)
  rw [zero_add, mul_comm, ← mul_add, zero_add]

/-- The commutative ring of exact arithmetic, on the operations of the
kernels. -/
abbrev commRing (α : Type) [Arith α] [LawfulArith α] : CommRing α :=
  letI : Neg α := ⟨fun a => 0 - a⟩
  { add := (· + ·)
    add_assoc := add_assoc
    zero := 0
    zero_add := zero_add
    add_zero := fun a => (add_comm a 0).trans (zero_add a)
    add_comm := add_comm
    mul := (· * ·)
    mul_assoc := mul_assoc
    one := 1
    one_mul := one_mul
    mul_one := fun a => (mul_comm a 1).trans (one_mul a)
    left_distrib := mul_add
    right_distrib := fun a b c => by rw [mul_comm, mul_add, mul_comm c a, mul_comm c b]
    zero_mul := zero_mul
    mul_zero := fun a => (mul_comm a 0).trans (zero_mul a)
    mul_comm := mul_comm
    neg := fun a => 0 - a
    sub := (· - ·)
    sub_eq_add_neg := sub_eq_add
    neg_add_cancel := fun a => sub_add_cancel 0 a
    nsmul := nsmulRec
    zsmul := zsmulRec }

instance : Std.Associative fun a b : α => a + b :=
  ⟨add_assoc⟩

instance : Std.Commutative fun a b : α => a + b :=
  ⟨add_comm⟩

end LawfulArith

/-! ## Sums in any order. -/

/-- Only associativity and commutativity are needed to add in another order. -/
theorem sumInOrder_perm {α : Type} [Add α] [Zero α] [Std.Associative fun a b : α => a + b]
    [Std.Commutative fun a b : α => a + b] {xs ys : List α} (h : xs.Perm ys) :
    sumInOrder xs = sumInOrder ys :=
  h.foldl_op_eq

section
variable {α : Type} [Arith α] [LawfulArith α]

/-- Adding up a list onto a start adds its sum to the start. -/
theorem foldl_add_eq (a : α) (xs : List α) : xs.foldl (· + ·) a = a + sumInOrder xs := by
  induction xs generalizing a with
  | nil =>
      show a = a + 0
      rw [LawfulArith.add_comm, LawfulArith.zero_add]
  | cons x xs ih =>
      unfold sumInOrder
      rw [List.foldl_cons, List.foldl_cons, ih, ih (0 + x), LawfulArith.zero_add,
        LawfulArith.add_assoc]

theorem sumInOrder_cons (x : α) (xs : List α) : sumInOrder (x :: xs) = x + sumInOrder xs := by
  rw [sumInOrder, List.foldl_cons, foldl_add_eq, LawfulArith.zero_add]

/-- A sum in a stated order is the sum. -/
theorem sumInOrder_eq_sum (xs : List α) : sumInOrder xs = xs.sum := by
  induction xs with
  | nil => rfl
  | cons x xs ih => rw [sumInOrder_cons, ih, List.sum_cons]

theorem sumInOrder_append (xs ys : List α) :
    sumInOrder (xs ++ ys) = sumInOrder xs + sumInOrder ys := by
  rw [sumInOrder, List.foldl_append, foldl_add_eq]
  rfl

/-- Lists laid end to end may be added up one by one. -/
theorem sumInOrder_flatMap {ι : Type} (xs : List ι) (f : ι → List α) :
    sumInOrder (xs.flatMap f) = sumInOrder (xs.map fun x => sumInOrder (f x)) := by
  induction xs with
  | nil => rfl
  | cons x xs ih =>
      rw [List.flatMap_cons, sumInOrder_append, ih, List.map_cons, sumInOrder_cons]

/-- Partial sums hold what they have taken: their total grows by the list. -/
theorem PartialSums.consume_eq (p : PartialSums α) (xs : List α) :
    p.consume xs = p.total + sumInOrder xs := by
  let _ := LawfulArith.commRing α
  fun_induction PartialSums.consume p xs with
  | case1 p a b c d e f g h rest ih =>
      rw [ih]
      simp only [sumInOrder_cons, PartialSums.total]
      ring
  | case2 p rest => exact foldl_add_eq p.total rest

/-- A sum taken in eight interleaved parts is the sum. -/
theorem sumInterleaved_eq (xs : List α) : sumInterleaved xs = sumInOrder xs := by
  let _ := LawfulArith.commRing α
  have hstart : (PartialSums.start : PartialSums α).total = 0 := by
    simp only [PartialSums.total, PartialSums.start]
    ring
  rw [sumInterleaved, PartialSums.consume_eq, hstart, LawfulArith.zero_add]

end

end ChannelNorm

/-
  ChannelNorm.Scalar.Binary
  ─────────────────────────
  **BINARY FLOATING POINT AS STORAGE AND ACCUMULATOR.**

  Single precision accumulates in double precision, and double precision in
  itself.  Every operation is the IEEE one, rounded to nearest even; nothing is
  contracted or reassociated.
-/
import ChannelNorm.Scalar.Arith

namespace ChannelNorm

instance : Arith Float32 where
  add := Float32.add
  sub := Float32.sub
  mul := Float32.mul
  div := Float32.div
  zero := 0
  one := 1
  sqrt := Float32.sqrt
  ofCount := Float32.ofNat
  isZero x := x == 0

instance : OrderedArith Float where
  add := Float.add
  sub := Float.sub
  mul := Float.mul
  div := Float.div
  zero := 0
  one := 1
  neg := Float.neg
  sqrt := Float.sqrt
  ofCount := Float.ofNat
  isZero x := x == 0
  abs := Float.abs
  lt x y := x < y
  le x y := x ≤ y

instance : Element Float32 Float where
  dtype := .float32
  widen := Float32.toFloat
  narrow := Float.toFloat32

instance : Element Float Float where
  dtype := .float64
  widen x := x
  narrow x := x

end ChannelNorm

/-
  ChannelNorm.Scalar.Scientific
  ─────────────────────────────
  **SCIENTIFIC NOTATION WITH TWO FRACTION DIGITS.**

  A number is written as one digit, a point, two digits and a decimal exponent:
  `1.25e-3`, `4.00e0`.  The digits are those of the exact value rounded to
  nearest, a tie going to the even neighbour; rounding up past `9.99` raises the
  exponent.  Work is done on exact fractions of natural numbers, so the only
  rounding is the final one:

      significand num den e  =  num / den / 10 ^ (e - 2), rounded
-/
namespace ChannelNorm.Scientific

/-! ## §1. Rounding a quotient. -/

/-- `num / den` rounded to nearest, ties to even. -/
def roundDiv (num den : Nat) : Nat :=
  let q := num / den
  let r := num % den
  if 2 * r < den then q
  else if den < 2 * r then q + 1
  else q + q % 2

/-! ## §2. The decimal form of a positive fraction. -/

/-- The decimal exponent of `num / den`: the `e` with
`10 ^ e ≤ num / den < 10 ^ (e + 1)`.  Below one it is found among the first
`bound` negative exponents. -/
def exponent (num den bound : Nat) : Int :=
  if den ≤ num then
    ((Nat.toDigits 10 (num / den)).length : Int) - 1
  else
    match (List.range bound).find? (fun k => den ≤ num * Nat.pow 10 k) with
    | some k => -(k : Int)
    | none => -(bound : Int)

/-- `num / den` in units of `10 ^ (e - 2)`, rounded. -/
def significand (num den : Nat) (e : Int) : Nat :=
  if 2 ≤ e then roundDiv num (den * Nat.pow 10 (e - 2).toNat)
  else roundDiv (num * Nat.pow 10 (2 - e).toNat) den

/-- A significand of three digits and its exponent. -/
def layoutDigits (digits : Nat) (e : Int) : String :=
  let frac := digits % 100
  toString (digits / 100) ++ "." ++ toString (frac / 10) ++ toString (frac % 10)
    ++ "e" ++ toString e

/-- The text of the positive fraction `num / den`. -/
def ofFraction (num den bound : Nat) : String :=
  let e := exponent num den bound
  let s := significand num den e
  if s < 1000 then layoutDigits s e else layoutDigits (s / 10) (e + 1)

/-! ## §3. Doubles. -/

/-- A double holds `± mantissa · 2 ^ (power - 1074)`; the exponent field `2047`
marks infinities and undefined values. -/
def ofDouble (x : Float) : String :=
  let bits := x.toBits
  let field := (bits >>> 52 &&& 0x7ff).toNat
  let fraction := (bits &&& 0xfffffffffffff).toNat
  let sign := if bits >>> 63 = 1 then "-" else ""
  if field = 2047 then
    if fraction = 0 then sign ++ "inf" else "NaN"
  else
    let mantissa := if field = 0 then fraction else 0x10000000000000 + fraction
    let power := field - 1
    if mantissa = 0 then sign ++ "0.00e0"
    else sign ++ ofFraction (mantissa <<< power) (1 <<< 1074) 324

end ChannelNorm.Scientific

/-
  ChannelNorm.Proofs.Scalar.Rounding
  ──────────────────────────────────
  **WHAT BINARY FLOATING POINT LEAVES ALONE.**

  A value that a format stores is in the form that rounding would give it:

      exponent  =  the one rounding aims at          (`Canonical`)

  An operation whose exact result is again that value therefore returns it, bit
  for bit.  Two of them are neutral: adding a value to zero, which only loses
  the sign of minus zero, and dividing it by one.

  `BinaryArith` says what the facts need of an arithmetic, so that they hold of
  single and double precision alike.
-/
import Mathlib
import ChannelNorm.Scalar.Binary

namespace ChannelNorm

open Float.Model Float.Model.UnpackedFloat

/-! ## §1. Values as a format stores them. -/

section
variable {spec : Format}

/-- A finite value as a format stores it: its exponent is the one that rounding
would give it. -/
def Canonical (spec : Format) : UnpackedFloat → Prop
  | .finite _ m e _ => spec.targetExponent (totalExponent m e) = e
  | _ => True

/-- The least exponent, from the bias. -/
theorem minExponent_eq (spec : Format) :
    spec.minExponent = 1 - spec.exponentBias - spec.mantissaBitsWithoutImplicit := by
  have hpos : 1 ≤ 2 ^ (spec.exponentBits - 1) := Nat.one_le_two_pow
  have hbias : (spec.exponentBias : Int) = 2 ^ (spec.exponentBits - 1) - 1 := by
    unfold Format.exponentBias
    rw [Nat.cast_sub hpos]
    push_cast
    rfl
  unfold Format.minExponent Format.mantissaBits
  omega

/-- A full mantissa is canonical from the least exponent on. -/
theorem canonical_of_log2_eq {s : Sign} {m : Nat} {e : Int} {hm : 0 < m}
    (hlog : m.log2 = spec.mantissaBitsWithoutImplicit) (he : spec.minExponent ≤ e) :
    Canonical spec (.finite s m e hm) := by
  show max ((m.log2 : Int) + 1 + e - (1 + spec.mantissaBitsWithoutImplicit : Nat)) _ = e
  omega

/-- A mantissa that is not full is canonical at the least exponent. -/
theorem canonical_of_log2_lt {s : Sign} {m : Nat} {e : Int} {hm : 0 < m}
    (hlog : m.log2 < spec.mantissaBitsWithoutImplicit) (he : e = spec.minExponent) :
    Canonical spec (.finite s m e hm) := by
  show max ((m.log2 : Int) + 1 + e - (1 + spec.mantissaBitsWithoutImplicit : Nat)) _ = e
  omega

/-- **What a format stores is canonical.** -/
theorem canonical_unpack (b : BitVec spec.numBits) :
    Canonical spec (UnpackedFloat.unpack spec b) := by
  have hmin := minExponent_eq spec
  have hmantissa := (unpackMantissa b).isLt
  unfold UnpackedFloat.unpack
  dsimp only
  split
  · split <;> trivial
  · split
    next hexponent =>
      split
      · trivial
      next hnonzero =>
        -- subnormal: no implicit bit, and the exponent of the smallest normal
        have hpos : (unpackMantissa b).toNat ≠ 0 := fun hzero =>
          hnonzero (BitVec.eq_of_toNat_eq hzero)
        apply canonical_of_log2_lt ((Nat.log2_lt hpos).2 hmantissa)
        rw [hexponent, hmin]
        simp only [BitVec.toNat_zero]
        omega
    next hexponent =>
      have hstored : 0 < (unpackExponent b).toNat := Nat.pos_of_ne_zero fun hzero =>
        hexponent (BitVec.eq_of_toNat_eq hzero)
      apply canonical_of_log2_eq
      · have hfull : (1#1 ++ unpackMantissa b).toNat
            = 2 ^ spec.mantissaBitsWithoutImplicit + (unpackMantissa b).toNat := by
          rw [BitVec.toNat_append, ← Nat.shiftLeft_add_eq_or_of_lt hmantissa]
          simp [Nat.shiftLeft_eq]
        rw [hfull, Nat.log2_eq_iff (by omega)]
        omega
      · omega

/-! ## §2. Exact results. -/

/-- Shifting out zeros is exact. -/
theorem shiftRight_exact (m k : Nat) :
    ExtendedMantissa.ofMantissaAndAccuracy (m <<< k) .exact >>> k = ⟨m, false, false⟩ := by
  show k.repeat ExtendedMantissa.shiftRightOne ⟨m <<< k, false, false⟩ = _
  induction k generalizing m with
  | zero => rfl
  | succ k ih =>
      have hshift : m <<< (k + 1) = (m * 2) <<< k := by
        rw [Nat.shiftLeft_eq, Nat.shiftLeft_eq, Nat.pow_succ', Nat.mul_assoc]
      rw [hshift]
      show ExtendedMantissa.shiftRightOne (k.repeat ExtendedMantissa.shiftRightOne _) = _
      rw [ih]
      simp [ExtendedMantissa.shiftRightOne]

/-- Zeros below a mantissa do not change its magnitude. -/
theorem totalExponent_shiftLeft {m : Nat} (hm : 0 < m) (e : Int) (k : Nat) :
    totalExponent (m <<< k) (e - k) = totalExponent m e := by
  have hlog : (m <<< k).log2 = m.log2 + k := by
    have hpos : m <<< k ≠ 0 := (Nat.shiftLeft_pos_iff.2 hm).ne'
    rw [Nat.log2_eq_iff hpos, Nat.shiftLeft_eq, Nat.add_right_comm, Nat.pow_add, Nat.pow_add]
    exact ⟨Nat.mul_le_mul_right _ (Nat.log2_self_le hm.ne'),
      Nat.mul_lt_mul_of_pos_right Nat.lt_log2_self (Nat.two_pow_pos k)⟩
  unfold totalExponent
  omega

/-- **Rounding gives a value that can be stored its stored form.** -/
theorem roundWithAccuracy_exact {s : Sign} {m : Nat} {e : Int} {hm : 0 < m}
    (h : Canonical spec (.finite s m e hm)) (k : Nat) :
    roundWithAccuracy spec s (m <<< k) (e - k) .exact = .finite s m e hm := by
  have hshift : ∀ j : Nat, shiftToTargetExponent spec (m <<< j) (e - j) .exact
      = (⟨m, false, false⟩, e) := by
    intro j
    have hcount : (e - (e - (j : Int))).toNat = j := by omega
    unfold shiftToTargetExponent shiftToExponent
    rw [totalExponent_shiftLeft hm, show spec.targetExponent (totalExponent m e) = e from h]
    dsimp only
    rw [hcount, shiftRight_exact]
    congr 1
    omega
  have hsettled : shiftToTargetExponent spec m e .exact = (⟨m, false, false⟩, e) := by
    have h0 := hshift 0
    rwa [Nat.shiftLeft_zero, Int.natCast_zero, Int.sub_zero] at h0
  have hkept : (⟨m, false, false⟩ : ExtendedMantissa).roundedMantissa = m := rfl
  unfold roundWithAccuracy
  simp only [hshift k, hkept, hsettled, dif_neg hm.ne']

/-! ## §3. Neutral operations. -/

/-- One, as a format stores it. -/
def storedOne (spec : Format) : UnpackedFloat :=
  .finite .positive (2 ^ spec.mantissaBitsWithoutImplicit) (-spec.mantissaBitsWithoutImplicit)
    (Nat.two_pow_pos _)

/-- The quotient by one is the mantissa itself, with zeros below it. -/
theorem divCore_one {s : Sign} {m : Nat} {e : Int} {hm : 0 < m}
    (h : Canonical spec (.finite s m e hm)) :
    ∃ k : Nat, divCore spec m e (2 ^ spec.mantissaBitsWithoutImplicit)
      (-spec.mantissaBitsWithoutImplicit) = (m <<< k, e - k, .exact) := by
  have htotal : totalExponent (2 ^ spec.mantissaBitsWithoutImplicit)
      (-spec.mantissaBitsWithoutImplicit) = 1 := by
    unfold totalExponent
    rw [Nat.log2_two_pow]
    omega
  obtain ⟨k, hk⟩ : ∃ k : Nat, spec.targetExponent (totalExponent m e - 1) = e - k := by
    refine ⟨(e - spec.targetExponent (totalExponent m e - 1)).toNat, ?_⟩
    have hstored : max (totalExponent m e - spec.mantissaBits) spec.minExponent = e := h
    have hle : max (totalExponent m e - 1 - spec.mantissaBits) spec.minExponent ≤ e := by
      omega
    unfold Format.targetExponent
    omega
  have hmin : min (e - -spec.mantissaBitsWithoutImplicit) (e - k) = e - k := by omega
  have hcount : (e - -spec.mantissaBitsWithoutImplicit - (e - k)).toNat
      = k + spec.mantissaBitsWithoutImplicit := by omega
  have hfactor : m <<< (k + spec.mantissaBitsWithoutImplicit)
      = m <<< k * 2 ^ spec.mantissaBitsWithoutImplicit := by
    rw [Nat.shiftLeft_eq, Nat.shiftLeft_eq, Nat.pow_add, Nat.mul_assoc]
  refine ⟨k, ?_⟩
  unfold divCore
  dsimp only
  rw [htotal, hk, hmin, hcount, hfactor, Nat.mul_div_cancel _ (Nat.two_pow_pos _),
    Nat.mul_mod_left]
  rfl

/-- **Dividing a stored value by one changes nothing.** -/
theorem div_storedOne {x : UnpackedFloat} (h : Canonical spec x) :
    div spec x (storedOne spec) = x := by
  have hsign : ∀ s : Sign, s / Sign.positive = s := by
    intro s
    cases s <;> rfl
  cases x with
  | notANumber => rfl
  | infinity s => exact congrArg infinity (hsign s)
  | zero s => exact congrArg zero (hsign s)
  | finite s m e hm =>
      obtain ⟨k, hcore⟩ := divCore_one h
      show (match divCore spec m e _ _ with
        | (m, e, accuracy) => roundWithAccuracy spec (s / Sign.positive) m e accuracy) = _
      rw [hcore, hsign]
      exact roundWithAccuracy_exact h k

/-- Adding a value to zero changes nothing, unless it is minus zero. -/
theorem zero_add_of_ne {x : UnpackedFloat} (hx : x ≠ .zero .negative) :
    add spec (.zero .positive) x = x := by
  cases x with
  | notANumber => rfl
  | infinity s => rfl
  | finite s m e hm => rfl
  | zero s =>
      cases s with
      | positive => rfl
      | negative => exact absurd rfl hx

end

/-! ## §4. Arithmetic on stored values. -/

/-- Arithmetic on the values of a binary format: each is a bit pattern, and an
operation unpacks its operands and packs its result. -/
class BinaryArith (α : Type) (spec : outParam Format) [Arith α] where
  /-- The bit pattern of a value. -/
  bits : α → BitVec spec.numBits
  eq_of_bits_eq : ∀ {x y : α}, bits x = bits y → x = y
  pack_unpack : ∀ x : α, pack spec (UnpackedFloat.unpack spec (bits x)) = bits x
  bits_add : ∀ x y : α, bits (x + y)
    = pack spec (add spec (UnpackedFloat.unpack spec (bits x)) (UnpackedFloat.unpack spec (bits y)))
  bits_div : ∀ x y : α, bits (x / y)
    = pack spec (div spec (UnpackedFloat.unpack spec (bits x)) (UnpackedFloat.unpack spec (bits y)))
  unpack_zero : UnpackedFloat.unpack spec (bits 0) = .zero .positive
  unpack_one : UnpackedFloat.unpack spec (bits (ofCount 1)) = storedOne spec

instance : BinaryArith Float32 .binary32 where
  bits x := x.toModel.toBits.toBitVec
  eq_of_bits_eq h := Float32.toBits_inj.1 (UInt32.eq_of_toBitVec_eq h)
  pack_unpack x := pack_unpack_of_valid x.toModel.valid (by decide)
  bits_add _ _ := rfl
  bits_div _ _ := rfl
  unpack_zero := rfl
  unpack_one := rfl

instance : BinaryArith Float .binary64 where
  bits x := x.toModel.toBits.toBitVec
  eq_of_bits_eq h := Float.toBits_inj.1 (UInt64.eq_of_toBitVec_eq h)
  pack_unpack x := pack_unpack_of_valid x.toModel.valid (by decide)
  bits_add _ _ := rfl
  bits_div _ _ := rfl
  unpack_zero := rfl
  unpack_one := rfl

namespace BinaryArith

variable {α : Type} {spec : Format} [Arith α] [BinaryArith α spec]

include spec

/-- Zero with a negative sign. -/
def IsMinusZero (x : α) : Prop :=
  bits x = packedZero spec .negative

/-- Minus zero is what unpacks to it. -/
theorem isMinusZero_iff {x : α} :
    IsMinusZero x ↔ UnpackedFloat.unpack spec (bits x) = .zero .negative := by
  constructor
  · intro h
    rw [show bits x = packedZero spec .negative from h]
    exact unpack_packedZero
  · intro h
    show bits x = packedZero spec .negative
    rw [← pack_unpack x, h]
    rfl

/-- **Dividing by one changes nothing.** -/
theorem div_ofCount_one (x : α) : x / ofCount 1 = x := by
  apply eq_of_bits_eq
  rw [bits_div, unpack_one, div_storedOne (canonical_unpack _), pack_unpack]

/-- **Adding to zero changes minus zero and nothing else.** -/
theorem zero_add_eq_iff {x : α} : 0 + x = x ↔ ¬ IsMinusZero x := by
  have hbits : bits (0 + x)
      = pack spec (add spec (.zero .positive) (UnpackedFloat.unpack spec (bits x))) := by
    rw [bits_add, unpack_zero]
  constructor
  · intro h hminus
    rw [h, isMinusZero_iff.1 hminus] at hbits
    have hplus : UnpackedFloat.unpack spec (bits x) = .zero .positive := by
      rw [hbits]
      exact unpack_packedZero
    rw [isMinusZero_iff.1 hminus] at hplus
    cases hplus
  · intro hx
    apply eq_of_bits_eq
    rw [hbits, zero_add_of_ne (isMinusZero_iff.not.1 hx), pack_unpack]

end BinaryArith

end ChannelNorm

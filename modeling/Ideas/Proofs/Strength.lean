/-
How doubles are ordered.

A double that is a number has a height: how many doubles lie between it and zero, counted
downwards below zero.  Of two numbers the greater one is higher, and both zeros have the
height zero (`le_iff_height_le`).  So numbers can be compared like integers, and `≤` is a total
preorder on them, while nothing can be said of what is no number.

The place of a double in the total order is its height but for the sign of zero, so that what
comes first by places is at least as great (`le_of_strengthKey_le`).
-/
import Mathlib
import Ideas.Discovery

namespace Ideas

namespace Strength

open Float.Model Float.Model.UnpackedFloat

/-! ### The parts of a number -/

/-- A distance from zero on one of its sides. -/
def signed : Sign → Int → Int
  | .positive, n => n
  | .negative, n => -n

@[simp] theorem signed_positive (n : Int) : signed .positive n = n := rfl

@[simp] theorem signed_negative (n : Int) : signed .negative n = -n := rfl

theorem signed_zero (s : Sign) : signed s 0 = 0 := by
  cases s <;> rfl

/-- How many doubles lie between zero and a number with these parts. -/
def distance (mantissa : Nat) (exponent : Int) : Int :=
  (exponent + 1074) * 2 ^ 52 + mantissa

/-- How far from zero the infinite numbers lie. -/
def farthest : Int := 2047 * 2 ^ 52

/-- The height of a number that is given by its parts. -/
def heightOf : UnpackedFloat → Int
  | .infinity s => signed s farthest
  | .finite s mantissa exponent _ => signed s (distance mantissa exponent)
  | .zero _ | .notANumber => 0

/-- The mantissa of a number has all its digits, unless the exponent is the least there is. -/
structure Fits (mantissa : Nat) (exponent : Int) : Prop where
  least : -1074 ≤ exponent
  greatest : exponent ≤ 971
  digits : mantissa < 2 ^ 53
  full : -1074 < exponent → 2 ^ 52 ≤ mantissa

/-- The parts of a number fit. -/
def Normal : UnpackedFloat → Prop
  | .finite _ mantissa exponent _ => Fits mantissa exponent
  | .infinity _ | .zero _ | .notANumber => True

section

variable {m m' : Nat} {e e' : Int}

theorem Fits.distance_pos (h : Fits m e) (hm : 0 < m) : 0 < distance m e := by
  have := h.least
  rw [distance]
  omega

theorem Fits.distance_lt (h : Fits m e) : distance m e < farthest := by
  have := h.greatest
  have := h.digits
  rw [distance, farthest]
  omega

/-- The exponents decide, and where they are the same the mantissas do. -/
theorem Fits.isLE_compare (h : Fits m e) (h' : Fits m' e') :
    ((compare e e').then (compare m m')).isLE = true ↔ distance m e ≤ distance m' e' := by
  obtain ⟨_, _, _, _⟩ := h
  obtain ⟨_, _, _, _⟩ := h'
  rw [Ordering.isLE_then_iff_or, Int.compare_eq_lt, Int.compare_eq_eq, Nat.isLE_compare,
    distance, distance]
  omega

theorem Fits.isLE_swap_compare (h : Fits m e) (h' : Fits m' e') :
    ((compare e e').then (compare m m')).swap.isLE = true ↔ distance m' e' ≤ distance m e := by
  rw [Ordering.swap_then, Int.compare_swap, Nat.compare_swap]
  exact h'.isLE_compare h

end

/-- Numbers are compared like their heights. -/
theorem le_iff_heightOf_le {u v : UnpackedFloat} (hu : Normal u) (hv : Normal v)
    (hnu : u ≠ .notANumber) (hnv : v ≠ .notANumber) :
    u.le v = true ↔ heightOf u ≤ heightOf v := by
  have hfar : 0 < farthest := by decide
  rw [UnpackedFloat.le]
  cases u with
  | notANumber => exact absurd rfl hnu
  | infinity s =>
      cases v with
      | notANumber => exact absurd rfl hnv
      | infinity t => cases s <;> cases t <;> decide
      | zero t => cases s <;> simp [UnpackedFloat.compare, heightOf] <;> omega
      | finite t m e hm =>
          have hlt := Fits.distance_lt hv
          have hpos := Fits.distance_pos hv hm
          cases s <;> cases t <;> simp [UnpackedFloat.compare, heightOf] <;> omega
  | zero s =>
      cases v with
      | notANumber => exact absurd rfl hnv
      | infinity t => cases t <;> simp [UnpackedFloat.compare, heightOf] <;> omega
      | zero t => simp [UnpackedFloat.compare, heightOf]
      | finite t m e hm =>
          have hpos := Fits.distance_pos hv hm
          cases t <;> simp [UnpackedFloat.compare, heightOf] <;> omega
  | finite s m e hm =>
      have hlt := Fits.distance_lt hu
      have hpos := Fits.distance_pos hu hm
      cases v with
      | notANumber => exact absurd rfl hnv
      | infinity t => cases s <;> cases t <;> simp [UnpackedFloat.compare, heightOf] <;> omega
      | zero t => cases s <;> simp [UnpackedFloat.compare, heightOf] <;> omega
      | finite t m' e' hm' =>
          have hpos' := Fits.distance_pos hv hm'
          cases s with
          | positive =>
              cases t with
              | positive => exact Fits.isLE_compare hu hv
              | negative => simp [UnpackedFloat.compare, heightOf]; omega
          | negative =>
              cases t with
              | positive => simp [UnpackedFloat.compare, heightOf]; omega
              | negative => exact (Fits.isLE_swap_compare hu hv).trans Int.neg_le_neg_iff.symm

/-! ### The bits of a number -/

theorem toNat_unpackMantissa (b : BitVec Format.binary64.numBits) :
    (unpackMantissa b).toNat = b.toNat % 2 ^ 52 := by
  rw [unpackMantissa, BitVec.toNat_cast, BitVec.extractLsb_toNat]
  rfl

theorem toNat_unpackExponent (b : BitVec Format.binary64.numBits) :
    (unpackExponent b).toNat = b.toNat / 2 ^ 52 % 2 ^ 11 := by
  rw [unpackExponent, BitVec.toNat_cast, BitVec.extractLsb_toNat, Nat.shiftRight_eq_div_pow]
  rfl

/-- A mantissa with all its digits has one more than are written. -/
theorem toNat_one_append (v : BitVec 52) : (1#1 ++ v).toNat = 2 ^ 52 + v.toNat := by
  have h := Nat.two_pow_add_eq_or_of_lt v.isLt 1
  rw [BitVec.toNat_append, Nat.shiftLeft_eq, Nat.mul_comm]
  exact h.symm

/-- The parts fit that are read from the bits of a number, and the bits tell its height. -/
theorem heightOf_unpack (b : BitVec Format.binary64.numBits)
    (h : unpack .binary64 b ≠ .notANumber) :
    Normal (unpack .binary64 b) ∧ heightOf (unpack .binary64 b)
      = signed (Sign.ofBitVec (unpackSign b)) ((b.toNat % 2 ^ 63 : Nat) : Int) := by
  have hmantissa := toNat_unpackMantissa b
  have hexponent := toNat_unpackExponent b
  have hbias : ((Format.binary64.exponentBias : Nat) : Int)
      + (Format.binary64.mantissaBitsWithoutImplicit : Nat) = 1075 := by decide
  rw [UnpackedFloat.unpack] at h ⊢
  by_cases hinfinite : unpackExponent b = -1#11
  · rw [if_pos hinfinite] at h ⊢
    have hexp : (unpackExponent b).toNat = 2047 := hinfinite ▸ rfl
    by_cases hzero : unpackMantissa b = 0#52
    · rw [if_pos hzero]
      have hman : (unpackMantissa b).toNat = 0 := hzero ▸ rfl
      refine ⟨trivial, congrArg (signed _) ?_⟩
      rw [farthest]
      omega
    · rw [if_neg hzero] at h
      exact absurd rfl h
  rw [if_neg hinfinite]
  have hexp : (unpackExponent b).toNat ≠ 2047 := fun h => hinfinite (BitVec.eq_of_toNat_eq h)
  by_cases hleast : unpackExponent b = 0#11
  · rw [if_pos hleast]
    have hexp : (unpackExponent b).toNat = 0 := hleast ▸ rfl
    by_cases hzero : unpackMantissa b = 0#52
    · rw [dif_pos hzero]
      have hman : (unpackMantissa b).toNat = 0 := hzero ▸ rfl
      have hnone : b.toNat % 2 ^ 63 = 0 := by omega
      rw [hnone]
      exact ⟨trivial, (signed_zero _).symm⟩
    · rw [dif_neg hzero]
      refine ⟨⟨?_, ?_, ?_, ?_⟩, congrArg (signed _) ?_⟩
      · omega
      · omega
      · omega
      · omega
      · rw [distance]
        omega
  · rw [if_neg hleast]
    have hexp' : (unpackExponent b).toNat ≠ 0 := fun h => hleast (BitVec.eq_of_toNat_eq h)
    have happend : (1#1 ++ unpackMantissa b).toNat = 2 ^ 52 + (unpackMantissa b).toNat :=
      toNat_one_append (unpackMantissa b)
    refine ⟨⟨?_, ?_, ?_, ?_⟩, congrArg (signed _) ?_⟩
    · omega
    · omega
    · omega
    · omega
    · rw [distance]
      omega

/-! ### Doubles -/

/-- How many doubles lie between zero and a number, counted downwards below zero. -/
def height (x : Float) : Int :=
  heightOf x.toModel.unpack

variable {x y z : Float}

theorem unpack_ne_notANumber (hx : x.isNaN = false) : x.toModel.unpack ≠ .notANumber := by
  have hx : x.toModel.unpack.isNaN = false := hx
  intro h
  rw [h] at hx
  cases hx

theorem toNat_unpackSign (b : BitVec Format.binary64.numBits) :
    (unpackSign b).toNat = b.toNat / 2 ^ 63 % 2 := by
  rw [unpackSign, BitVec.toNat_cast, BitVec.extractLsb_toNat, Nat.shiftRight_eq_div_pow]
  rfl

/-- The places of negative numbers lie one lower, so that each zero has a place of its own. -/
theorem height_eq (hx : x.isNaN = false) :
    height x = if strengthKey x < 0 then strengthKey x + 1 else strengthKey x := by
  let bits : BitVec Format.binary64.numBits := x.toBits.toBitVec
  have hbits : bits.toNat < 2 ^ 64 := bits.isLt
  have hnat : x.toBits.toNat = bits.toNat := rfl
  have hsign := toNat_unpackSign bits
  have hheight : height x = signed (Sign.ofBitVec (unpackSign bits))
      ((bits.toNat % 2 ^ 63 : Nat) : Int) := (heightOf_unpack bits (unpack_ne_notANumber hx)).2
  rw [hheight, strengthKey, hnat, Sign.ofBitVec, Decimal.greatestInt64]
  by_cases hpositive : unpackSign bits = 0#1
  · have hzero : (unpackSign bits).toNat = 0 := hpositive ▸ rfl
    rw [if_pos hpositive, signed_positive]
    split <;> omega
  · have hone : (unpackSign bits).toNat ≠ 0 := fun h => hpositive (BitVec.eq_of_toNat_eq h)
    rw [if_neg hpositive, signed_negative]
    split <;> omega

/-- Of two numbers the greater one is higher. -/
theorem le_iff_height_le (hx : x.isNaN = false) (hy : y.isNaN = false) :
    x ≤ y ↔ height x ≤ height y := by
  have hnx := unpack_ne_notANumber hx
  have hny := unpack_ne_notANumber hy
  have hle : x ≤ y ↔ x.toModel.unpack.le y.toModel.unpack = true := decide_eq_true_iff
  exact hle.trans (le_iff_heightOf_le (heightOf_unpack x.toBits.toBitVec hnx).1
    (heightOf_unpack y.toBits.toBitVec hny).1 hnx hny)

/-- What comes first in the total order is at least as great. -/
theorem le_of_strengthKey_le (hx : x.isNaN = false) (hy : y.isNaN = false)
    (h : strengthKey x ≤ strengthKey y) : x ≤ y := by
  rw [le_iff_height_le hx hy, height_eq hx, height_eq hy]
  split <;> split <;> omega

/-- What is greater than anything is a number. -/
theorem isNaN_of_lt (h : x < y) : y.isNaN = false := by
  have h : x.toModel.unpack.lt y.toModel.unpack = true := decide_eq_true_iff.mp h
  show y.toModel.unpack.isNaN = false
  cases hy : y.toModel.unpack with
  | notANumber =>
      rw [hy, UnpackedFloat.lt] at h
      cases hx : x.toModel.unpack <;> rw [hx] at h <;> cases h
  | infinity s | zero s | finite s m e hm => rfl

/-- A number whose sign is dropped at zero. -/
def unsigned (x : Float) : Float :=
  if x == 0 then 0 else x

theorem beq_self {u : UnpackedFloat} (hu : u ≠ .notANumber) : u.beq u = true := by
  cases u with
  | notANumber => exact absurd rfl hu
  | infinity s => cases s <;> rfl
  | zero s => rfl
  | finite s m e hm => cases s <;> simp [UnpackedFloat.beq, UnpackedFloat.compare]

/-- What is equal to a zero is one. -/
theorem zero_beq {u : UnpackedFloat} {s : Sign} (h : u.beq (.zero s) = true) :
    (UnpackedFloat.zero s).beq u = true := by
  cases u with
  | notANumber => cases h
  | infinity t | finite t m e hm => cases t <;> cases h
  | zero t => rfl

/-- The sign of zero makes no difference. -/
theorem unsigned_beq (hx : x.isNaN = false) : (unsigned x == x) = true := by
  have hzero : (Float.toModel 0).unpack = .zero .positive := by rfl
  rw [unsigned]
  split
  · next h =>
      have h : x.toModel.unpack.beq (Float.toModel 0).unpack = true := h
      show (Float.toModel 0).unpack.beq x.toModel.unpack = true
      rw [hzero] at h ⊢
      exact zero_beq h
  · exact beq_self (unpack_ne_notANumber hx)

theorem isNaN_unsigned (hx : x.isNaN = false) : (unsigned x).isNaN = false := by
  rw [unsigned]
  split
  · decide
  · exact hx

end Strength

end Ideas

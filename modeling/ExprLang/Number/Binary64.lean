/-!
# `Number.Binary64` — double precision numbers

A number is kept as its 64 bits: a sign, an exponent field of 11 bits and a fraction of 52 bits. All
arithmetic on it is done exactly, in whole numbers.

## Contents
- `twoTo`, `tenTo`: powers of two and of ten.
- `Binary64`, its fields, and its kinds of value: `isNaN`, `isInfinite`, `isZero`.
- `Binary64.significand`, `Binary64.exponent`: a finite number is `± significand · 2 ^ exponent`.
- `Binary64.agrees`: comparison as numbers, where zero has no sign and NaN differs from itself.
- `Binary64.ofRatio`: the number nearest to a quotient.
-/
namespace ExprLang

/-! ## Powers -/

/-- Two to the power `n`. -/
def twoTo (n : Nat) : Nat := Nat.pow 2 n

/-- Ten to the power `n`. -/
def tenTo (n : Nat) : Nat := Nat.pow 10 n

/-! ## Numbers -/

/-- A double precision number, given by its bits. -/
structure Binary64 where
  bits : UInt64
  deriving DecidableEq, Repr

namespace Binary64

/-! ### Fields -/

/-- The number is negative, or a negative zero. -/
def isNegative (x : Binary64) : Bool := x.bits.toNat / twoTo 63 = 1

/-- The exponent field. -/
def exponentField (x : Binary64) : Nat := x.bits.toNat / twoTo 52 % twoTo 11

/-- The fraction field. -/
def fraction (x : Binary64) : Nat := x.bits.toNat % twoTo 52

/-- The number with the given sign whose other 63 bits are `magnitude`. -/
def ofMagnitude (negative : Bool) (magnitude : Nat) : Binary64 :=
  ⟨UInt64.ofNat ((if negative then twoTo 63 else 0) + magnitude)⟩

/-- Not a number. -/
def nan : Binary64 := ofMagnitude false (2047 * twoTo 52 + twoTo 51)

/-- Infinity of the given sign. -/
def infinity (negative : Bool) : Binary64 := ofMagnitude negative (2047 * twoTo 52)

/-- Zero of the given sign. -/
def zero (negative : Bool) : Binary64 := ofMagnitude negative 0

/-- The number is not a number. -/
def isNaN (x : Binary64) : Bool := x.exponentField = 2047 && x.fraction ≠ 0

/-- The number is infinite. -/
def isInfinite (x : Binary64) : Bool := x.exponentField = 2047 && x.fraction = 0

/-- The number is one of the two zeros. -/
def isZero (x : Binary64) : Bool := x.exponentField = 0 && x.fraction = 0

/-- A finite number, without its sign, is a multiple of a power of two by this. -/
def significand (x : Binary64) : Nat :=
  if x.exponentField = 0 then x.fraction else twoTo 52 + x.fraction

/-- A finite number, without its sign, is a multiple of two to this power. -/
def exponent (x : Binary64) : Int :=
  if x.exponentField = 0 then -1074 else x.exponentField - 1075

/-- Equality of the numbers: the two zeros are equal, and NaN equals nothing. -/
def agrees (x y : Binary64) : Bool :=
  !x.isNaN && !y.isNaN && (x.bits = y.bits || (x.isZero && y.isZero))

/-! ### Rounding -/

/-- The whole number nearest to `num / den`; of two, the even one. -/
def divNearest (num den : Nat) : Nat :=
  let quotient := num / den
  let twice := 2 * (num % den)
  if twice < den ∨ (twice = den ∧ quotient % 2 = 0) then quotient else quotient + 1

/-- The number nearest to `num / den`, of two the one with an even significand. A quotient too large
    for any number gives infinity.

    The exponent `e` is chosen so that the quotient is a multiple of `2 ^ e` by a number of 53
    binary digits, or is the least possible one. A significand that rounds up to 54 binary digits
    carries into the exponent field, as it should. -/
def ofRatio (negative : Bool) (num den : Nat) : Binary64 :=
  if num = 0 then zero negative
  else
    let guess : Int := num.log2 - den.log2 - 52
    let scaledNum (e : Int) : Nat := num * twoTo (-e).toNat
    let scaledDen (e : Int) : Nat := den * twoTo e.toNat
    let exact := if scaledNum guess / scaledDen guess < twoTo 52 then guess - 1 else guess
    let e := max exact (-1074)
    let magnitude := (e + 1074).toNat * twoTo 52 + divNearest (scaledNum e) (scaledDen e)
    ofMagnitude negative (min magnitude (2047 * twoTo 52))

end Binary64
end ExprLang

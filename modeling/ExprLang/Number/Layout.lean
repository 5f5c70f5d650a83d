import ExprLang.Number.Shortest
/-!
# `Number.Layout` — how numbers are written down

## Contents
- `NumberStyle`: which numbers are written without an exponent.
- `Decimal.text`: a decimal; `Binary64.text`: a double precision number.
-/
namespace ExprLang

/-- A number `d.ddd · 10 ^ e` is written without an exponent if `least ≤ e ≤ most`. -/
structure NumberStyle where
  least : Int
  most : Int

/-- The decimal `d`, whose last digit is not zero. Without an exponent it has a point and at least
    one digit on each side of it; with one it has a point only if it has several digits. -/
def Decimal.text (style : NumberStyle) (d : Decimal) : String :=
  let digits := Nat.toDigits 10 d.digits
  let leading := d.exponent + digits.length - 1
  if style.least ≤ leading ∧ leading ≤ style.most then
    if 0 ≤ d.exponent then
      String.ofList (digits ++ List.replicate d.exponent.toNat '0') ++ ".0"
    else if 0 ≤ leading then
      let whole := leading.toNat + 1
      String.ofList (digits.take whole) ++ "." ++ String.ofList (digits.drop whole)
    else
      "0." ++ String.ofList (List.replicate (-leading - 1).toNat '0' ++ digits)
  else
    let places := digits.drop 1
    String.ofList (digits.take 1) ++ (if places.isEmpty then "" else "." ++ String.ofList places) ++
      "e" ++ toString leading

/-- The number `x`, by the shortest decimal that reads back. Zero is written with its sign. -/
def Binary64.text (style : NumberStyle) (x : Binary64) : String :=
  if x.isNaN then "NaN"
  else
    let sign := if x.isNegative then "-" else ""
    if x.isInfinite then sign ++ "inf"
    else if x.isZero then sign ++ "0.0"
    else sign ++ x.shortest.text style

/-! ## Instances: a tenth, the largest and the least number, and a number without places -/

example : Binary64.text ⟨-4, 15⟩ ⟨0x3fb999999999999a⟩ = "0.1" := by decide +kernel

example : Binary64.text ⟨-4, 15⟩ ⟨0x7fefffffffffffff⟩ = "1.7976931348623157e308" := by
  decide +kernel

example : Binary64.text ⟨-4, 15⟩ ⟨0x8000000000000001⟩ = "-5e-324" := by decide +kernel

example : Binary64.text ⟨-4, 15⟩ ⟨0x4059000000000000⟩ = "100.0" := by decide +kernel

end ExprLang

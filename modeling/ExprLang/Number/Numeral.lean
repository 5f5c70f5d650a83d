import ExprLang.Number.Binary64
/-!
# `Number.Numeral` — numbers read from text

## Contents
- `Numeral.splitSign`, `Numeral.natural`: a sign, and a run of digits.
- `Numeral.integer?`: whole numbers of 64 bits.
- `Numeral.ofDecimal`: the double precision number nearest to a decimal.
- `Numeral.binary64?`: double precision numbers.
-/
namespace ExprLang.Numeral

/-- Takes a sign off the front of a text; without one the text is positive. -/
def splitSign : List Char → Bool × List Char
  | '-' :: rest => (true, rest)
  | '+' :: rest => (false, rest)
  | rest => (false, rest)

/-- The number that a run of decimal digits stands for. -/
def natural (digits : List Char) : Nat :=
  digits.foldl (fun n c => 10 * n + (c.toNat - '0'.toNat)) 0

/-- The text is a run of decimal digits, of at least one. -/
def isNatural (text : List Char) : Bool := !text.isEmpty && text.all Char.isDigit

/-- An optional sign and a run of digits. -/
def signed? (text : List Char) : Option Int :=
  let (negative, digits) := splitSign text
  if isNatural digits then some (if negative then -natural digits else natural digits) else none

/-- The whole number that `text` stands for, if 64 bits can hold it. -/
def integer? (text : String) : Option Int :=
  (signed? text.toList).filter fun n => -9223372036854775808 ≤ n && n ≤ 9223372036854775807

/-- The number nearest to `digits · 10 ^ exponent`. The bounds keep the powers of ten small: beyond
    them every number rounds to infinity or to zero. -/
def ofDecimal (negative : Bool) (digits : Nat) (exponent : Int) : Binary64 :=
  if digits = 0 then .zero negative
  else
    let top := exponent + (Nat.toDigits 10 digits).length
    if top > 310 then .infinity negative
    else if top < -330 then .zero negative
    else .ofRatio negative (digits * tenTo exponent.toNat) (tenTo (-exponent).toNat)

/-- What follows the digits of a decimal: nothing, or a power of ten. -/
def exponent? : List Char → Option Int
  | [] => some 0
  | c :: rest => if c = 'e' ∨ c = 'E' then signed? rest else none

/-- A decimal without its sign: digits with at most one point among them, and a power of ten. -/
def decimal? (negative : Bool) (text : List Char) : Option Binary64 :=
  let whole := text.takeWhile Char.isDigit
  let (places, rest) :=
    match text.dropWhile Char.isDigit with
    | '.' :: more => (more.takeWhile Char.isDigit, more.dropWhile Char.isDigit)
    | rest => ([], rest)
  if isNatural (whole ++ places) then
    (exponent? rest).map fun e => ofDecimal negative (natural (whole ++ places)) (e - places.length)
  else none

/-- The number that `text` stands for: a decimal, or a word for infinity or for NaN in any mixture
    of small and capital letters; with an optional sign. -/
def binary64? (text : String) : Option Binary64 :=
  let (negative, rest) := splitSign text.toList
  match String.ofList (rest.map Char.toLower) with
  | "inf" | "infinity" => some (.infinity negative)
  | "nan" => some .nan
  | _ => decimal? negative rest

end ExprLang.Numeral

import ExprLang.Number.Binary64
/-!
# `Number.Shortest` — the shortest decimal that reads back

The decimals that round to a number are those between the points half way to its two neighbours, the
points themselves included when its significand is even. Of these decimals the shortest is wanted,
and of several the nearest. It lies on the coarsest grid of multiples of a power of ten that has a
point among them, and there it is one of the two points next to the number.

## Contents
- `Decimal`.
- `Binary64.nextTo?`: the nearest multiple of a power of ten that reads back, if there is one.
- `Binary64.shortest`: the search through the grids, from coarse to fine.
-/
namespace ExprLang

/-- The number `digits · 10 ^ exponent`. -/
structure Decimal where
  digits : Nat
  exponent : Int
  deriving DecidableEq, Repr

namespace Binary64

/-- The multiple of `10 ^ k` that reads back as the finite number `x`, its sign aside; of two the
    nearer, and the larger when both are equally near.

    Everything is measured in one unit, in which the number, its bounds and the grid are whole: a
    quarter of the last binary place, divided so finely that the step of the grid is a multiple. The
    neighbour below a power of two is only half as far away as the one above. -/
def nextTo? (x : Binary64) (k : Int) : Option Decimal :=
  let m := x.significand
  let q := x.exponent - 2
  let scale := twoTo q.toNat * tenTo (-k).toNat
  let step := tenTo k.toNat * twoTo (-q).toNat
  let value := 4 * m * scale
  let low := (4 * m - if x.fraction = 0 ∧ 1 < x.exponentField then 1 else 2) * scale
  let high := (4 * m + 2) * scale
  let even := m % 2 = 0
  let below := value / step
  let above := below + 1
  let fitsBelow := low < below * step ∨ (even ∧ low = below * step)
  let fitsAbove := above * step < high ∨ (even ∧ above * step = high)
  if fitsBelow ∧ (¬ fitsAbove ∨ value - below * step < above * step - value) then some ⟨below, k⟩
  else if fitsAbove then some ⟨above, k⟩
  else none

/-- Tries `count` grids, from that of `10 ^ k` on to finer ones. -/
def search (x : Binary64) : Nat → Int → Decimal
  | 0, k => ⟨0, k⟩
  | count + 1, k => (x.nextTo? k).getD (search x count (k - 1))

/-- The shortest decimal that reads back as the finite number `x`, its sign aside. The largest
    number is below `10 ^ 309`, and the grid of `10 ^ -324` is finer than the numbers are
    anywhere. -/
def shortest (x : Binary64) : Decimal := search x 633 308

end Binary64
end ExprLang

import Melody.Decimal.Parts

/-!
# The fewest digits that identify a number

A decimal identifies a floating-point number if it lies nearer to it than to any other, which
makes an interval of reals around the number; its ends belong to it if the mantissa is even. On
each grid of decimals only the two neighbours of the number have to be tried, and the coarsest
grid with a neighbour in the interval gives the digits.

* `Interval`, `interval`: the reals that are read as a number;
* `Digits`: a whole multiple of a power of ten;
* `Interval.onGrid`: the neighbour on a grid that lies in the interval, the nearer of two;
* `shortest`: the digits of a positive number.
-/

namespace Melody.Decimal

/-- The reals around `value / unit` that are read as this number, as multiples of `1 / unit`. -/
structure Interval where
  unit : Nat
  value : Nat
  low : Nat
  high : Nat
  /-- Whether the ends belong to the interval. -/
  closed : Bool

/-- The interval of `mantissa * 2 ^ exponent`, in quarters of the step between its neighbours. -/
def interval (mantissa : Nat) (exponent : Int) : Interval :=
  let scale := twoPow (exponent - 2).toNat
  let below := if Parts.hasNarrowGap mantissa exponent then 1 else 2
  { unit := twoPow (2 - exponent).toNat
    value := 4 * mantissa * scale
    low := (4 * mantissa - below) * scale
    high := (4 * mantissa + 2) * scale
    closed := mantissa % 2 = 0 }

/-- Whether the interval has `n / d` in it. -/
def Interval.has (i : Interval) (n d : Nat) : Bool :=
  let lower := i.low * d
  let upper := i.high * d
  let point := n * i.unit
  if i.closed then lower ≤ point && point ≤ upper else lower < point && point < upper

/-! ## Grids of decimals -/

/-- The number `coefficient * 10 ^ exponent`. -/
structure Digits where
  coefficient : Nat
  exponent : Int
deriving DecidableEq, Inhabited

/-- How many decimal digits a number has. -/
def digitCount (n : Nat) : Nat := (Nat.toDigits 10 n).length

/-- The exponent of the greatest power of ten that is at most the positive number `n / d`. -/
def magnitude (n d : Nat) : Int :=
  if d ≤ n then digitCount (n / d) - 1 else -digitCount ((d - 1) / n)

/-- The neighbour of the value on the grid of the multiples of `10 ^ exponent` that lies in the
interval: the nearer of two, and the upper one of two that are equally near. -/
def Interval.onGrid (i : Interval) (exponent : Int) : Option Digits :=
  let p := tenPow exponent.toNat
  let d := tenPow (-exponent).toNat
  let c := i.value * d / (i.unit * p)
  let below := i.has (c * p) d
  let above := i.has ((c + 1) * p) d
  if below && (!above || 2 * i.value * d < (2 * c + 1) * p * i.unit) then some ⟨c, exponent⟩
  else if above then some ⟨c + 1, exponent⟩
  else none

/-- The fewest digits that are read as `mantissa * 2 ^ exponent`, and of those the nearest; no
number needs more than seventeen. -/
def shortest (mantissa : Nat) (exponent : Int) : Digits :=
  let i := interval mantissa exponent
  let top := magnitude i.value i.unit
  (List.range 17).findSome? (fun (k : Nat) => i.onGrid (top - k)) |>.getD ⟨0, 0⟩

end Melody.Decimal

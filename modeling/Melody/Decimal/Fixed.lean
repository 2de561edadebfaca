import Melody.Decimal.Parts
import Melody.Text.Padding

/-!
# Numbers with a fixed count of decimal places

The value of a floating-point number is rounded once, from its exact value, and a half goes to
the even neighbour. A sign stays, even if nothing but zeros is left.

* `roundHalfEven`: a quotient rounded to a whole number;
* `withPlaces`: a multiple of a power of ten with its decimal point;
* `fixed`: a number with a count of places; `fixedIn`: the same with a least width.
-/

namespace Melody.Decimal

/-- The whole number next to `n / d`; a half goes to the even one. -/
def roundHalfEven (n d : Nat) : Nat :=
  let q := n / d
  let r := n % d
  if 2 * r < d then q
  else if d < 2 * r then q + 1
  else q + q % 2

/-- The number `n / 10 ^ places` with all its places. -/
def withPlaces (places n : Nat) : String :=
  let whole := toString (n / tenPow places)
  if places = 0 then whole
  else
    let fraction := toString (n % tenPow places)
    whole ++ "." ++ String.ofList (List.replicate (places - fraction.length) '0') ++ fraction

/-- The multiple of `1 / 10 ^ places` next to `mantissa * 2 ^ exponent`. -/
def nearest (places mantissa : Nat) (exponent : Int) : Nat :=
  roundHalfEven (mantissa * tenPow places * twoPow exponent.toNat) (twoPow (-exponent).toNat)

/-- The minus of a negative number. -/
def sign (negative : Bool) : String := if negative then "-" else ""

/-- A number with a count of decimal places. -/
def fixed (places : Nat) (x : Float) : String :=
  match Parts.of x with
  | .finite negative mantissa exponent =>
    sign negative ++ withPlaces places (nearest places mantissa exponent)
  | .infinite negative => sign negative ++ "inf"
  | .undefined => "NaN"

/-- A number with a count of decimal places, right-aligned in `width` characters. -/
def fixedIn (width places : Nat) (x : Float) : String := Text.padLeft width (fixed places x)

end Melody.Decimal

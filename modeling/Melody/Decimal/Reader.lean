import Melody.Decimal.Shortest
import Melody.Numeral

/-!
# Reading decimals

A decimal is a sign that may be missing, and then the name of infinity or of an undefined number
in capital or small letters, or digits with at most one point and an exponent that may be missing.

* `readSign`, `readDigits`, `readFraction`, `readExponent?`: the parts;
* `nearestFloat`: the floating-point number next to a decimal;
* `read?`: the number a text stands for, if it is a decimal.
-/

namespace Melody.Decimal

/-- Whether a sign at the front is a minus, and what follows it. -/
def readSign : List Char → Bool × List Char
  | '-' :: cs => (true, cs)
  | '+' :: cs => (false, cs)
  | cs => (false, cs)

/-- The digits at the front, and what follows them. -/
def readDigits (cs : List Char) : List Char × List Char :=
  (cs.takeWhile Char.isDigit, cs.dropWhile Char.isDigit)

/-- The digits behind a point at the front, if there is one, and what follows them. -/
def readFraction : List Char → List Char × List Char
  | '.' :: cs => readDigits cs
  | cs => ([], cs)

/-- The exponent that a text is as a whole; an empty text is the exponent zero. -/
def readExponent? : List Char → Option Int
  | [] => some 0
  | e :: cs =>
    if e = 'e' ∨ e = 'E' then
      let (negative, digits) := readSign cs
      if !digits.isEmpty && digits.all Char.isDigit then
        some (if negative then -Numeral.value digits else Numeral.value digits)
      else none
    else none

/-! ## Values -/

/-- The floating-point number next to `coefficient * 10 ^ exponent`. What has more than 310 digits
before the point is infinite, and what has more than 330 zeros behind it is zero. -/
def nearestFloat (coefficient : Nat) (exponent : Int) : Float :=
  let size := digitCount coefficient + exponent
  if coefficient = 0 ∨ size < -330 then 0
  else if 310 < size then 1 / 0
  else Float.ofScientific coefficient (exponent < 0) exponent.natAbs

/-- The number that a text without a sign stands for. -/
def readUnsigned? (cs : List Char) : Option Float :=
  match String.ofList (cs.map Char.toLower) with
  | "inf" | "infinity" => some (1 / 0)
  | "nan" => some (0 / 0)
  | _ =>
    let (whole, afterWhole) := readDigits cs
    let (fraction, afterFraction) := readFraction afterWhole
    if whole.isEmpty && fraction.isEmpty then none
    else (readExponent? afterFraction).map fun exponent =>
      nearestFloat (Numeral.value (whole ++ fraction)) (exponent - fraction.length)

/-- The number that a text stands for. -/
def read? (text : String) : Option Float :=
  let (negative, cs) := readSign text.toList
  (readUnsigned? cs).map fun x => if negative then -x else x

end Melody.Decimal

import Melody.Decimal.Fixed
import Melody.Decimal.Shortest

/-!
# How the shortest digits are laid out

* `Style`: which numbers are written with a power of ten, and whether whole numbers have a point;
* `Style.bare`, `Style.explicit`: the two styles in use;
* `Digits.positional`, `Digits.scientific`: digits with a point, and with a power of ten;
* `Style.write`: a number in a style.
-/

namespace Melody.Decimal

/-- The digits of a coefficient, without the zeros at its end. -/
def Digits.significant (x : Digits) : List Char :=
  (Nat.toDigits 10 x.coefficient).reverse.dropWhile (· == '0') |>.reverse

/-- How many digits stand before the point; without any, it is minus the count of zeros behind
the point. -/
def Digits.point (x : Digits) : Int := digitCount x.coefficient + x.exponent

/-- As many zeros. -/
def zeros (n : Nat) : List Char := List.replicate n '0'

/-- All digits before and after the point; `whole` follows a number that has none after it. -/
def Digits.positional (whole : String) (x : Digits) : String :=
  let digits := x.significant
  if x.point ≤ 0 then
    "0." ++ String.ofList (zeros (-x.point).toNat ++ digits)
  else if x.point < digits.length then
    String.ofList (digits.take x.point.toNat ++ '.' :: digits.drop x.point.toNat)
  else
    String.ofList (digits ++ zeros (x.point.toNat - digits.length)) ++ whole

/-- One digit before the point, and the power of ten that belongs to it. -/
def Digits.scientific (x : Digits) : String :=
  let digits := x.significant
  let fraction := if digits.length ≤ 1 then [] else '.' :: digits.drop 1
  String.ofList (digits.take 1 ++ fraction) ++ "e" ++ toString (x.point - 1)

/-! ## Styles -/

/-- A way to write numbers. -/
structure Style where
  /-- What follows a whole number. -/
  whole : String
  /-- The least and the first too great exponent of a number without a power of ten; without
  them, no number has one. -/
  window : Option (Int × Int)

namespace Style

/-- No point in whole numbers, and no powers of ten. -/
def bare : Style := ⟨"", none⟩

/-- A place after the point at least, and powers of ten below `0.0001` and from `10 ^ 16` on. -/
def explicit : Style := ⟨".0", some (-4, 16)⟩

/-- Whether digits are written without a power of ten. -/
def isPositional (style : Style) (x : Digits) : Bool :=
  match style.window with
  | none => true
  | some (least, greatest) => least ≤ x.point - 1 && x.point - 1 < greatest

/-- Digits in a style. -/
def layout (style : Style) (x : Digits) : String :=
  if style.isPositional x then x.positional style.whole else x.scientific

/-- A number in a style, with the fewest digits that identify it. -/
def write (style : Style) (x : Float) : String :=
  match Parts.of x with
  | .finite negative 0 _ => sign negative ++ "0" ++ style.whole
  | .finite negative mantissa exponent =>
    sign negative ++ style.layout (shortest mantissa exponent)
  | .infinite negative => sign negative ++ "inf"
  | .undefined => "NaN"

end Style

end Melody.Decimal

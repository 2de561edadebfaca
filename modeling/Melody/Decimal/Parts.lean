import Melody.Decimal.Power

/-!
# What the bits of a floating-point number stand for

* `Parts`: a finite number as a whole multiple of a power of two, with its sign;
* `Parts.ofBits`, `Parts.of`: the parts of a number of 64 bits;
* `Parts.hasNarrowGap`: where the next smaller number is only half a step away.
-/

namespace Melody.Decimal

/-- A floating-point number, taken apart. -/
inductive Parts
  /-- The number `mantissa * 2 ^ exponent` with its sign; zero has a sign as well. -/
  | finite (negative : Bool) (mantissa : Nat) (exponent : Int)
  | infinite (negative : Bool)
  | undefined
deriving DecidableEq, Inhabited

namespace Parts

/-- One bit for the sign, eleven for the exponent, fifty-two for the mantissa; an exponent other
than the least one adds a bit in front of the mantissa. -/
def ofBits (bits : Nat) : Parts :=
  let negative := bits / twoPow 63 % 2 = 1
  let exponent : Nat := bits / twoPow 52 % twoPow 11
  let fraction : Nat := bits % twoPow 52
  if exponent = twoPow 11 - 1 then
    if fraction = 0 then infinite negative else undefined
  else if exponent = 0 then finite negative fraction (-1074)
  else finite negative (twoPow 52 + fraction) (exponent - 1075)

/-- The parts of a number. -/
def of (x : Float) : Parts := ofBits x.toBits.toNat

/-- Whether the numbers below `mantissa * 2 ^ exponent` lie closer than those above: so it is at
the powers of two, except the smallest one that has all bits. -/
def hasNarrowGap (mantissa : Nat) (exponent : Int) : Bool :=
  mantissa == twoPow 52 && -1074 < exponent

end Parts

end Melody.Decimal

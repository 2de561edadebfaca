/-!
# Powers of two and of ten

* `twoPow`, `tenPow`: the powers that floating-point numbers and decimals are multiples of.
-/

namespace Melody.Decimal

/-- Two to the power of `n`. -/
def twoPow (n : Nat) : Nat := Nat.pow 2 n

/-- Ten to the power of `n`. -/
def tenPow (n : Nat) : Nat := Nat.pow 10 n

end Melody.Decimal

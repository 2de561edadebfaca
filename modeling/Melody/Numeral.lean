/-!
# Whole numbers in a melody

A whole number is written in decimal digits and must fit into 32 bits, except for the octave of a
note, where a number that is too large stands for the largest one.

* `Numeral.value`: the value of a word of digits;
* `Numeral.limit`: the least number that does not fit;
* `Numeral.read`: the value of a word, or the first reason why it has none;
* `Numeral.capped`: the value of a word of digits, at most the largest that fits.
-/

namespace Melody

/-- Why a word is not a whole number of 32 bits. -/
inductive NumeralCause
  | invalidDigit
  | tooLarge
deriving DecidableEq, Inhabited

namespace NumeralCause

/-- The cause in words. -/
def message : NumeralCause → String
  | invalidDigit => "invalid digit found in string"
  | tooLarge => "number too large to fit in target type"

end NumeralCause

namespace Numeral

/-- The value of a decimal digit. -/
def digit (c : Char) : Nat := c.toNat - '0'.toNat

/-- The value of a word of digits. -/
def value (cs : List Char) : Nat := cs.foldl (fun v c => 10 * v + digit c) 0

/-- The least number that does not fit into 32 bits. -/
def limit : Nat := 4294967296

/-- One more character behind a number `v`: it has to be a digit, and the number has to fit. -/
def push (v : Nat) (c : Char) : Except NumeralCause Nat :=
  if !c.isDigit then .error .invalidDigit
  else if limit ≤ 10 * v + digit c then .error .tooLarge
  else .ok (10 * v + digit c)

/-- The number a word stands for; of two faults the one further left counts. -/
def read (text : String) : Except NumeralCause UInt32 :=
  (text.toList.foldlM push 0).map UInt32.ofNat

/-- The number a word of digits stands for, at most the largest that fits. -/
def capped (digits : List Char) : UInt32 := UInt32.ofNat (min (value digits) (limit - 1))

end Numeral

end Melody

import Melody.Decimal.Power
import Melody.Pitch

/-!
# Tuning

* `baseFrequency?`: the frequency of a key in octave zero, if the spelling has a key;
* `octaveFactor`: two to the power of an octave;
* `frequency?`: the frequency of a key in an octave, if it is a finite number.
-/

namespace Melody.Sound

/-- The frequency of a key in octave zero, in hertz; `C#` and `Db` are one key, and spellings such
as `Cb` have none. -/
def baseFrequency? : Spelling → Option Float
  | ⟨.c, .natural⟩ => some 16.35
  | ⟨.c, .sharp⟩ | ⟨.d, .flat⟩ => some 17.32
  | ⟨.d, .natural⟩ => some 18.35
  | ⟨.d, .sharp⟩ | ⟨.e, .flat⟩ => some 19.45
  | ⟨.e, .natural⟩ => some 20.6
  | ⟨.f, .natural⟩ => some 21.83
  | ⟨.f, .sharp⟩ | ⟨.g, .flat⟩ => some 23.12
  | ⟨.g, .natural⟩ => some 24.5
  | ⟨.g, .sharp⟩ | ⟨.a, .flat⟩ => some 25.96
  | ⟨.a, .natural⟩ => some 27.5
  | ⟨.a, .sharp⟩ | ⟨.b, .flat⟩ => some 29.14
  | ⟨.b, .natural⟩ => some 30.87
  | _ => none

/-- Two to the power of `octave`: the exponent bits alone, or infinity beyond the largest. -/
def octaveFactor (octave : Nat) : Float :=
  if octave ≤ 1023 then Float.ofBits (UInt64.ofNat ((1023 + octave) * Decimal.twoPow 52)) else 1 / 0

/-- The frequency of a key in an octave; each octave doubles it. -/
def frequency? (spelling : Spelling) (octave : UInt32) : Option Float :=
  (baseFrequency? spelling).bind fun base =>
    let frequency := base * octaveFactor octave.toNat
    if frequency.isFinite then some frequency else none

end Melody.Sound

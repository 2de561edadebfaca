/-!
# The low-pass filter

* `LowPass`: a filter that takes away high tones;
* `Sweep`, `LowPass.sweep`: how its limit falls while a note sounds.
-/

namespace Melody.Sound

/-- A filter that takes away the tones above its cutoff. -/
structure LowPass where
  /-- The limit when a note begins, in hertz. -/
  cutoff : Float
  /-- How much the filter stresses the tones next to its limit. -/
  resonance : Float
deriving Inhabited

/-- A filter whose limit moves evenly from the first moment of a note to its last. -/
structure Sweep where
  first : Float
  last : Float
  resonance : Float
deriving Inhabited

/-- The part of its cutoff that a filter falls to during a note. -/
def sweepFactor : Float := 0.8

/-- The filter while a note sounds. -/
def LowPass.sweep (f : LowPass) : Sweep := ⟨f.cutoff, f.cutoff * sweepFactor, f.resonance⟩

end Melody.Sound

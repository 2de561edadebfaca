import Melody.Decimal.Fixed
import Melody.Sound.Envelope
import Melody.Sound.Filter
import Melody.Sound.Wave

/-!
# Voices

What is played is an event, a tone on the timeline; how it sounds is a matter of the settings.

* `Event`: pitch, time and loudness of one tone;
* `Settings`: the sound that all tones are given;
* `Voice`, `Settings.voice`: an event with its sound.
-/

namespace Melody.Sound

/-- One tone on the timeline. -/
structure Event where
  /-- In hertz. -/
  frequency : Float
  /-- In seconds. -/
  start : Float
  /-- In seconds. -/
  duration : Float
  /-- The peak of the gain, from zero to one. -/
  amplitude : Float
deriving Inhabited

namespace Event

/-- When the tone is over. -/
def stop (e : Event) : Float := e.start + e.duration

/-- The name of a tone for people. -/
def label (e : Event) : String := Decimal.fixed 2 e.frequency ++ " Hz"

end Event

/-- The sound of all tones, which is no part of a score. -/
structure Settings where
  wave : Wave
  envelope : Envelope Float
  filter : Option LowPass
deriving Inhabited

/-- The sound of tones for which nothing else is wanted. -/
def Settings.standard : Settings :=
  { wave := .triangle
    envelope := ⟨0.02, 0.1, 0.7, 0.15⟩
    filter := some ⟨2000, 1⟩ }

/-- All that is needed for playing one tone. -/
structure Voice where
  event : Event
  wave : Wave
  contour : Contour Float
  sweep : Option Sweep
deriving Inhabited

/-- An event with the sound of the settings. -/
def Settings.voice (s : Settings) (e : Event) : Voice :=
  { event := e
    wave := s.wave
    contour := s.envelope.contour e.start e.duration e.amplitude
    sweep := s.filter.map LowPass.sweep }

end Melody.Sound

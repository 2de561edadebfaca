import Melody.Decimal.Layout
import Melody.Sound.Voice

/-!
# Timelines

A timeline has a line for each voice, below a line with the headings.

* `Voice.line`: one voice in columns;
* `timeline`: all voices.
-/

namespace Melody

open Decimal (fixed fixedIn)
open Sound (Sweep Voice)

/-- The filter of a voice, behind its columns. -/
def Sound.Sweep.text (s : Sweep) : String :=
  " lowpass " ++ fixed 0 s.first ++ "->" ++ fixed 0 s.last ++ " q=" ++
    Decimal.Style.bare.write s.resonance

/-- Start, duration, frequency, amplitude and wave of a voice, and its filter if it has one. -/
def Sound.Voice.line (v : Voice) : String :=
  " ".intercalate
    [fixedIn 9 4 v.event.start, fixedIn 9 4 v.event.duration, fixedIn 10 2 v.event.frequency,
      fixedIn 5 2 v.event.amplitude, v.wave.name] ++ (v.sweep.map Sweep.text).getD ""

/-- The headings above a timeline. -/
def timelineHeadings : String := "#   start  duration  frequency  gain wave"

/-- The headings and a line for each voice. -/
def timeline (voices : List Voice) : String :=
  String.join ((timelineHeadings :: voices.map Voice.line).map (· ++ "\n"))

end Melody

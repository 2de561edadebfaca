import Melody.Performance
import Melody.Text.Lines

/-!
# Journals

A journal tells what is done with a melody, in entries of more or less weight; a reader sees those
up to a level of detail.

* `Level`, `Origin`, `Entry`: the weight of an entry, the part of the program that makes it, and
  its text;
* `Entry.report`: the entry about a fault, with the lines it is found in;
* `Journal.ofReading`, `Journal.ofPerformance`: what is said about reading and playing a score;
* `Journal.upTo`: the entries up to a level.
-/

namespace Melody

open Decimal (fixed fixedIn)

/-- How important an entry is, the most important first. -/
inductive Level
  | error
  | warn
  | info
  | debug
  | trace
deriving DecidableEq, Inhabited

namespace Level

/-- The name of a level. -/
def name : Level → String
  | error => "ERROR"
  | warn => "WARN"
  | info => "INFO"
  | debug => "DEBUG"
  | trace => "TRACE"

/-- The place of a level; less important ones come later. -/
def rank : Level → Nat
  | error => 1
  | warn => 2
  | info => 3
  | debug => 4
  | trace => 5

end Level

/-- The part of the program that makes an entry. -/
inductive Origin
  /-- Playing a score. -/
  | stage
  /-- Leading a text through reading and playing. -/
  | direction
  /-- Writing files. -/
  | files
deriving DecidableEq, Inhabited

/-- The name of a part of the program. -/
def Origin.name : Origin → String
  | stage => "sonoscript::lang::interp"
  | direction => "sonoscript::sonoc::eval"
  | files => "sonoscript::sonoc::output"

/-- A line of a journal. -/
structure Entry where
  level : Level
  origin : Origin
  message : String
deriving DecidableEq, Inhabited

namespace Entry

/-- Level, origin and message on one line. -/
def line (e : Entry) : String :=
  Text.padRight 5 e.level.name ++ " [" ++ e.origin.name ++ "] " ++ e.message ++ "\n"

/-- The entry about a fault in the text `source` of the file `name`. -/
def report (name source : String) (fault : Fault) : Entry :=
  ⟨.error, .direction, fault.message ++ " (" ++ name ++ ":" ++ fault.pos.text ++ ")\n" ++
    Text.excerpt source fault.pos .coloured⟩

end Entry

/-! ## Journals -/

/-- A moment in seconds. -/
def secondsText (time : Float) : String := fixed 3 time ++ "s"

/-- A moment in seconds, in a column. -/
def secondsColumn (time : Float) : String := fixedIn 8 3 time ++ "s"

/-- What is said about a happening. -/
def Happening.entries : Happening → List Entry
  | tempo bpm time => [⟨.debug, .stage, s!"tempo {bpm} at {secondsText time}"⟩]
  | volume percent time => [⟨.debug, .stage, s!"volume {percent} at {secondsText time}"⟩]
  | sequenceStart name time =>
    [⟨.debug, .stage, s!"sequence {name} starts at {secondsText time}"⟩,
      ⟨.info, .direction, s!"{secondsColumn time} sequence {name}"⟩]
  | sequenceEnd name time =>
    [⟨.debug, .direction, s!"{secondsColumn time} end of sequence {name}"⟩,
      ⟨.debug, .stage, s!"sequence {name} ends at {secondsText time}"⟩]
  | note n event =>
    [⟨.trace, .stage, s!"{n.spelling.text}{n.octave} {n.length} -> {event.label} at " ++
      s!"{secondsText event.start} for {secondsText event.duration}"⟩]

/-- Entries in their order. -/
abbrev Journal := List Entry

namespace Journal

/-- What is said about reading the text `source` of the file `name`. -/
def ofReading (name source : String) : Journal :=
  ⟨.debug, .direction, "parsing " ++ name⟩ ::
    match Score.ofSource source with
    | .ok _ => []
    | .error fault => [Entry.report name source fault]

/-- What is said at the end of a performance that began at `now`. -/
def closing (name source : String) (now : Float) (p : Performance) : Journal :=
  let notes := p.recital.events.length
  let stage := p.recital.stage
  match p.fault with
  | none =>
    [⟨.debug, .stage,
        s!"scheduled {notes} notes from {secondsText now} to {secondsText stage.cursor}"⟩,
      ⟨.info, .direction, s!"{notes} notes, ending at {secondsText stage.cursor} " ++
        s!"(tempo {stage.tempo}, volume {stage.volume})"⟩]
  | some fault => [Entry.report name source fault]

/-- What is said about a performance of the file `name` that began at `now`. -/
def ofPerformance (name source : String) (now : Float) (p : Performance) : Journal :=
  ⟨.info, .direction, "performing " ++ name⟩ ::
    p.recital.happenings.toList.flatMap Happening.entries ++ closing name source now p

/-- The entries that a reader sees who wants all of at most the rank `limit`. -/
def upTo (limit : Nat) (j : Journal) : Journal := j.filter (·.level.rank ≤ limit)

end Journal

end Melody

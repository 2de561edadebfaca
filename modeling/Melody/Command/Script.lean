import Melody.Command.Disk
import Melody.Command.Options
import Melody.Journal
import Melody.Score.Outline
import Melody.Timeline
import Melody.Tune

/-!
# What the command does

The options and the text of the melody decide all that is printed and written, and in which order,
before anything is done. A fault ends the script.

* `Step`, `Script`: what there is to do, and the fault at the end;
* `Options.script`: what the command does with a text;
* `Ending`: how a run ends;
* `Run`, `Run.follow`, `Options.run`: the command in its directory.
-/

namespace Melody.Command

/-- Something that the command does. -/
inductive Step
  | log (entry : Entry)
  | print (text : String)
  | write (path : String) (text : String)

/-- What the command does, one step after the other. -/
structure Script where
  steps : List Step
  /-- What is wrong with the melody, if it is found out. -/
  fault : Option Fault

namespace Script

/-- One script and then another, unless the first one ends with a fault. -/
def andThen (a b : Script) : Script :=
  match a.fault with
  | none => ⟨a.steps ++ b.steps, b.fault⟩
  | some _ => a

/-- Steps that end with no fault. -/
def steadily (steps : List Step) : Script := ⟨steps, none⟩

/-- The steps about a result, or an entry about the fault that stands in its place. -/
def given {α : Type} (name source : String) (next : α → Script) : Except Fault α → Script
  | .ok a => next a
  | .error fault => ⟨[.log (Entry.report name source fault)], some fault⟩

end Script

/-- One line about a token: its place, its kind and its characters. -/
def tokenLine (t : Token) : String :=
  t.pos.text ++ "\t" ++ (Terminal.token t.kind).name ++ "\t" ++ t.text ++ "\n"

namespace Options

/-- Print the tokens. -/
def tokenScript (o : Options) (source : String) : Script :=
  if o.dumpTokens then
    .given o.source source (fun ts => .steadily (ts.map fun t => .print (tokenLine t)))
      (Reading.of source).tokens
  else .steadily []

/-- Print the outline of the score. -/
def outlineSteps (o : Options) (score : Score) : List Step :=
  if o.dumpAst then [.print (score.outline.tall ++ "\n")] else []

/-- Write the tune. -/
def tuneSteps (o : Options) (score : Score) : List Step :=
  match o.abc with
  | none => []
  | some path =>
    [.log ⟨.info, .files, "writing ABC notation to " ++ path⟩, .write path (score.tune ++ "\n")]

/-- Write or print the timeline. -/
def timelineSteps (o : Options) (voices : List Sound.Voice) : List Step :=
  match o.output with
  | none => [.print (timeline voices)]
  | some path =>
    [.log ⟨.info, .files, "writing timeline to " ++ path⟩, .write path (timeline voices)]

/-- Play the score, and write or print the timeline. -/
def playScript (o : Options) (source : String) (score : Score) : Script :=
  let p := Performance.of score o.start
  let journal := Journal.ofPerformance o.source source o.start p
  Script.andThen ⟨journal.map .log, p.fault⟩
    (.steadily (o.timelineSteps (p.recital.events.map o.settings.voice)))

/-- Read the score, and do with it what is asked for. -/
def scoreScript (o : Options) (source : String) : Script :=
  let journal := Journal.ofReading o.source source
  match Score.ofSource source with
  | .error fault => ⟨journal.map .log, some fault⟩
  | .ok score =>
    (Script.steadily (journal.map .log ++ o.outlineSteps score ++ o.tuneSteps score)).andThen
      (o.playScript source score)

/-- What the command does with the text of the melody. -/
def script (o : Options) (source : String) : Script :=
  (o.tokenScript source).andThen (o.scoreScript source)

/-- The rank of the least important entries that are printed. -/
def logLimit (o : Options) : Nat :=
  match o.verbose with
  | 0 => Level.info.rank
  | 1 => Level.debug.rank
  | _ => Level.trace.rank

end Options

/-! ## Runs -/

/-- How a run ends. -/
inductive Ending
  | success
  /-- Something is wrong with the melody. -/
  | faulty (fault : Fault)
  /-- Something is wrong with a file. -/
  | stuck (fault : DiskFault)

/-- A fault of a file with all its parts. -/
def DiskFault.text : DiskFault → String
  | .refused code kind message =>
    Text.Outline.flat (.record "Os" [("code", .number code), ("kind", .leaf kind),
      ("message", .string message)])
  | .notText =>
    Text.Outline.flat (.record "Error" [("kind", .leaf "InvalidData"),
      ("message", .string "stream did not contain valid UTF-8")])

namespace Ending

/-- The status that a run leaves. -/
def exitCode : Ending → Nat
  | success => 0
  | _ => 1

/-- What is said about a run that fails. -/
def message : Ending → String
  | success => ""
  | faulty fault => "Error: " ++ Text.Outline.flat (.record "Custom"
      [("kind", .leaf "InvalidData"), ("error", fault.outline)]) ++ "\n"
  | stuck fault => "Error: " ++ fault.text ++ "\n"

end Ending

/-- What a run has done so far. -/
structure Run where
  printed : String
  disk : Disk

namespace Run

/-- More is printed. -/
def print (r : Run) (text : String) : Run := { r with printed := r.printed ++ text }

/-- The run after steps with entries up to the rank `limit`, and how it ends; a file that cannot
be written ends it. -/
def follow (limit : Nat) (fault : Option Fault) (r : Run) : List Step → Run × Ending
  | [] => (r, fault.elim .success .faulty)
  | .log entry :: steps =>
    if entry.level.rank ≤ limit then (r.print entry.line).follow limit fault steps
    else r.follow limit fault steps
  | .print text :: steps => (r.print text).follow limit fault steps
  | .write path text :: steps =>
    match r.disk.write path text with
    | .ok disk => { r with disk }.follow limit fault steps
    | .error e => (r, .stuck e)

end Run

/-- The command in a directory. -/
def Options.run (o : Options) (disk : Disk) : Run × Ending :=
  match disk.read o.source with
  | .error fault => (⟨"", disk⟩, .stuck fault)
  | .ok source =>
    let script := o.script source
    Run.follow o.logLimit script.fault ⟨"", disk⟩ script.steps

end Melody.Command

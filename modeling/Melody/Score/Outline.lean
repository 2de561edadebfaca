import Melody.Fault
import Melody.Score
import Melody.Text.Outline

/-!
# Outlines of scores and faults

* `Score.outline`: every statement of a score with all its parts;
* `Fault.outline`: a fault with all parts of its cause.
-/

namespace Melody

open Text (Outline)

/-- A place as an outline. -/
def Position.outline (p : Position) : Outline :=
  .record "Pos" [("line", .number p.line), ("column", .number p.column)]

/-- A letter as an outline. -/
def Letter.outline (l : Letter) : Outline := .leaf l.text

/-- An accidental as an outline. -/
def Accidental.outline : Accidental → Outline
  | flat => .leaf "Flat"
  | natural => .leaf "Natural"
  | sharp => .leaf "Sharp"

/-- A terminal as an outline. -/
def Terminal.outline (t : Terminal) : Outline := .leaf t.tag

/-! ## Scores -/

/-- A note as an outline. -/
def Note.outline (n : Note) : Outline :=
  .record "NoteExpr" [("pos", n.pos.outline), ("name", n.spelling.letter.outline),
    ("accidental", n.spelling.accidental.outline), ("octave", .number n.octave.toNat),
    ("duration", .string n.length)]

mutual

/-- A statement as an outline. -/
def Statement.outline : Statement → Outline
  | .tempo pos bpm =>
    .tuple "Tempo" [.record "Tempo" [("pos", pos.outline), ("bpm", .number bpm.toNat)]]
  | .volume pos percent =>
    .tuple "Volume" [.record "Volume" [("pos", pos.outline), ("percent", .number percent.toNat)]]
  | .sequence pos name body =>
    .tuple "Sequence" [.record "Sequence"
      [("pos", pos.outline), ("name", .string name), ("body", .list (blockOutline body))]]
  | .repetition pos count body =>
    .tuple "Repeat" [.record "Repeat"
      [("pos", pos.outline), ("count", .number count.toNat), ("body", .list (blockOutline body))]]
  | .note n => .tuple "Note" [n.outline]

/-- The statements of a block as outlines. -/
def blockOutline : List Statement → List Outline
  | [] => []
  | s :: ss => s.outline :: blockOutline ss

end

/-- A score as an outline. -/
def Score.outline (score : Score) : Outline :=
  .record "Program"
    [("pos", score.pos.outline), ("statements", .list (blockOutline score.statements))]

/-! ## Faults -/

/-- The cause as an outline. -/
def NumeralCause.outline : NumeralCause → Outline
  | invalidDigit => .record "ParseIntError" [("kind", .leaf "InvalidDigit")]
  | tooLarge => .record "ParseIntError" [("kind", .leaf "PosOverflow")]

/-- The cause as an outline. -/
def LexicalCause.outline : LexicalCause → Outline
  | unrecognized c => .tuple "UnrecognizedChar" [.leaf (Text.quotedChar c)]
  | missingOctave => .leaf "MissingOctave"

/-- The cause as an outline. -/
def GrammaticalCause.outline : GrammaticalCause → Outline
  | unexpected expected actual =>
    .record "Unexpected"
      [("expected", .list (expected.map Terminal.outline)), ("actual", actual.outline)]
  | invalidNumber cause => .tuple "InvalidInt" [cause.outline]
  | invalidNote text => .tuple "InvalidNote" [.string text]

/-- The cause as an outline. -/
def SemanticCause.outline : SemanticCause → Outline
  | unknownPitch s => .tuple "UnknownPitch" [s.letter.outline, s.accidental.outline]
  | unplayableOctave octave => .record "NonFiniteFrequency" [("octave", .number octave.toNat)]
  | unknownLength text => .tuple "UnknownDuration" [.string text]
  | invalidTempo bpm => .tuple "InvalidTempo" [.number bpm.toNat]
  | volumeOutOfRange percent => .tuple "VolumeOutOfRange" [.number percent.toNat]

/-- A fault as an outline. -/
def Fault.outline (fault : Fault) : Outline :=
  match fault.cause with
  | .lexical cause => .record "Lexical" [("pos", fault.pos.outline), ("kind", cause.outline)]
  | .grammatical cause => .record "Syntax" [("pos", fault.pos.outline), ("info", cause.outline)]
  | .semantic cause => .record "Semantic" [("pos", fault.pos.outline), ("kind", cause.outline)]

end Melody

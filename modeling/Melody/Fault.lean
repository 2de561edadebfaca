import Melody.Numeral
import Melody.Pitch
import Melody.Text.Position
import Melody.Text.Quoted
import Melody.Token

/-!
# Faults

Whatever is wrong with a melody is wrong at a place of its text, for a cause that belongs to one
of three stages: reading characters, reading tokens, playing the score.

* `LexicalCause`, `GrammaticalCause`, `SemanticCause`, `Cause`: what can be wrong;
* `Fault`: a cause with its place;
* `Cause.message`, `Fault.message`, `Fault.brief`: the wording.
-/

namespace Melody

/-- Why characters are not a token. -/
inductive LexicalCause
  | unrecognized (c : Char)
  /-- A pitch letter with an accidental has no octave. -/
  | missingOctave
deriving DecidableEq, Inhabited

/-- Why a token cannot stand where it stands. -/
inductive GrammaticalCause
  /-- One of the terminals `expected` had to come, but `actual` did. -/
  | unexpected (expected : List Terminal) (actual : Terminal)
  | invalidNumber (cause : NumeralCause)
  /-- A note begins with a small letter. -/
  | invalidNote (text : String)
deriving DecidableEq, Inhabited

/-- Why a statement cannot be played. -/
inductive SemanticCause
  /-- No key has this spelling. -/
  | unknownPitch (spelling : Spelling)
  /-- The frequency in this octave is not a finite number. -/
  | unplayableOctave (octave : UInt32)
  | unknownLength (text : String)
  | invalidTempo (bpm : UInt32)
  | volumeOutOfRange (percent : UInt32)
deriving DecidableEq, Inhabited

/-- What can be wrong with a melody, by the stage that finds it. -/
inductive Cause
  | lexical (cause : LexicalCause)
  | grammatical (cause : GrammaticalCause)
  | semantic (cause : SemanticCause)
deriving DecidableEq, Inhabited

/-- A cause and the place of the text that it arises at. -/
structure Fault where
  pos : Position
  cause : Cause
deriving DecidableEq, Inhabited

/-! ## Wording -/

namespace LexicalCause

/-- The cause in words. -/
def message : LexicalCause → String
  | unrecognized c => "unrecognized character " ++ Text.quotedChar c
  | missingOctave => "note is missing its octave"

end LexicalCause

namespace GrammaticalCause

/-- The cause in words. -/
def message : GrammaticalCause → String
  | unexpected [only] actual => s!"expected {only.name}, but found {actual.name}"
  | unexpected expected actual =>
    "expected one of " ++ ", ".intercalate (expected.map Terminal.name) ++
      ", but found " ++ actual.name
  | invalidNumber cause => "invalid integer literal: " ++ cause.message
  | invalidNote text => "invalid note " ++ Text.quoted text

end GrammaticalCause

namespace SemanticCause

/-- The cause in words. -/
def message : SemanticCause → String
  | unknownPitch spelling => "unknown pitch " ++ spelling.text
  | unplayableOctave octave => s!"octave {octave} is too high to be played"
  | unknownLength text =>
    "unknown duration " ++ Text.quoted text ++ ", expected one of 1, 1/2, 1/4, 1/8, 1/16"
  | invalidTempo bpm => s!"tempo must be positive, got {bpm}"
  | volumeOutOfRange percent => s!"volume must be between 0 and 100, got {percent}"

end SemanticCause

namespace Cause

/-- The stage that finds a cause. -/
def stage : Cause → String
  | lexical _ => "lexical"
  | grammatical _ => "syntax"
  | semantic _ => "semantic"

/-- The cause in words. -/
def message : Cause → String
  | lexical cause => cause.message
  | grammatical cause => cause.message
  | semantic cause => cause.message

end Cause

namespace Fault

/-- The stage, the place and the cause of a fault. -/
def message (fault : Fault) : String :=
  s!"{fault.cause.stage} error at {fault.pos.text}: {fault.cause.message}"

/-- The cause of a fault and its place, without the stage. -/
def brief (fault : Fault) : String := s!"{fault.cause.message} at {fault.pos.text}"

end Fault

end Melody

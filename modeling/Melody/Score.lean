import Melody.Pitch
import Melody.Text.Position

/-!
# Scores

* `Note`, `Statement`, `Score`: what a melody consists of;
* `Statement.pos`: the place a statement begins at;
* `listing`: all statements with their depth, each before those of its block.
-/

namespace Melody

/-- A written note, such as `C#4 1/8`. -/
structure Note where
  pos : Position
  spelling : Spelling
  octave : UInt32
  /-- The length as it is written, such as `1/8`. -/
  length : String
deriving DecidableEq, Inhabited

/-- What may stand in a score or in one of its blocks; statements are played in their order. -/
inductive Statement
  /-- The number of beats in a minute. -/
  | tempo (pos : Position) (bpm : UInt32)
  /-- The loudness in percent; larger numbers are found out when the score is played. -/
  | volume (pos : Position) (percent : UInt32)
  /-- A part of the melody with a name. -/
  | sequence (pos : Position) (name : String) (body : List Statement)
  /-- A part of the melody that is played several times, or never. -/
  | repetition (pos : Position) (count : UInt32) (body : List Statement)
  | note (note : Note)
deriving Inhabited

/-- A whole melody. -/
structure Score where
  statements : List Statement
deriving Inhabited

/-- A score is placed at the start of its text. -/
def Score.pos (_ : Score) : Position := .start

namespace Statement

/-- The place of the first token of a statement. -/
def pos : Statement → Position
  | tempo pos _ => pos
  | volume pos _ => pos
  | sequence pos _ _ => pos
  | repetition pos _ _ => pos
  | note n => n.pos

end Statement

/-! ## All statements in their order -/

mutual

/-- A statement at `depth`, and those of its block one deeper. -/
def Statement.listing (depth : Nat) : Statement → List (Nat × Statement)
  | .tempo pos bpm => [(depth, .tempo pos bpm)]
  | .volume pos percent => [(depth, .volume pos percent)]
  | .sequence pos name body => (depth, .sequence pos name body) :: blockListing (depth + 1) body
  | .repetition pos count body =>
    (depth, .repetition pos count body) :: blockListing (depth + 1) body
  | .note n => [(depth, .note n)]

/-- The statements of a block at `depth`, each before those of its own block. -/
def blockListing (depth : Nat) : List Statement → List (Nat × Statement)
  | [] => []
  | s :: ss => s.listing depth ++ blockListing depth ss

end

/-- All statements of a score, each before those of its block. -/
def Score.listing (score : Score) : List (Nat × Statement) := blockListing 0 score.statements

end Melody

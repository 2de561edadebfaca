import Melody.Performance

/-!
# Tunes in ABC notation

A tune is a header and the notes of a score as sheet music has them: sequences are no longer
marked, repetitions are written out, and a bar line ends every line of eight notes.

* `Note.tuneText`: the spelling of one note;
* `Statement.notes`, `Score.notes`: all notes of a score in the order they are played in;
* `bars`: notes in lines of eight; `flatten_bars`: nothing is lost;
* `Score.tune`: the whole tune.
-/

namespace Melody

/-- The sign of an accidental, in front of its letter. -/
def Accidental.tuneSign : Accidental → List Char
  | flat => ['_']
  | natural => []
  | sharp => ['^']

/-- A letter in its octave: capital with commas up to the fourth, and then small with
apostrophes. -/
def Letter.tuneText (l : Letter) (octave : Nat) : List Char :=
  if octave ≤ 4 then l.toChar :: List.replicate (4 - octave) ','
  else l.toChar.toLower :: List.replicate (octave - 5) '\x27'

/-- A length as a part of a quarter note, which is the length that is not written. -/
def tuneLength : String → String
  | "1" => "4"
  | "1/2" => "2"
  | "1/8" => "/2"
  | "1/16" => "/4"
  | _ => ""

/-- A note of a tune, such as `^c/2` for `C#5 1/8`. -/
def Note.tuneText (n : Note) : String :=
  String.ofList (n.spelling.accidental.tuneSign ++ n.spelling.letter.tuneText n.octave.toNat) ++
    tuneLength n.length

/-- A list `n` times in a row. -/
def repeated {α : Type} (n : Nat) (xs : List α) : List α :=
  if xs.isEmpty then [] else (List.replicate n xs).flatten

mutual

/-- The notes of a statement. -/
def Statement.notes : Statement → List Note
  | .tempo _ _ => []
  | .volume _ _ => []
  | .sequence _ _ body => blockNotes body
  | .repetition _ count body => repeated count.toNat (blockNotes body)
  | .note n => [n]

/-- The notes of statements. -/
def blockNotes : List Statement → List Note
  | [] => []
  | s :: ss => s.notes ++ blockNotes ss

end

/-- The notes of a score in the order they are played in. -/
def Score.notes (score : Score) : List Note := blockNotes score.statements

/-! ## The tune -/

/-- The tempo that a statement sets, if it is a tempo. -/
def Statement.bpm? : Statement → Option UInt32
  | tempo _ bpm => some bpm
  | _ => none

/-- The tempo in the header of a tune: the last one that is set outside of all blocks. -/
def Score.tuneTempo (score : Score) : UInt32 :=
  (score.statements.filterMap Statement.bpm?).getLast?.getD Stage.standardTempo

/-- Lines of eight notes; the last line may be shorter. -/
def bars {α : Type} : List α → List (List α)
  | [] => []
  | x :: xs => (x :: xs.take 7) :: bars (xs.drop 7)
termination_by xs => xs.length

theorem flatten_bars {α : Type} (xs : List α) : (bars xs).flatten = xs := by
  fun_induction bars xs with
  | case1 => rfl
  | case2 x xs ih => rw [List.flatten_cons, ih, List.cons_append, List.take_append_drop]

/-- A line of notes, each with a blank after it. -/
def barText (bar : List Note) : String := String.join (bar.map (·.tuneText ++ " "))

/-- The lines above the notes of a tune. -/
def tuneHeader (bpm : UInt32) : String := s!"X:1\nT:Score\nM:4/4\nL:1/4\nQ:1/4={bpm}\nK:C\n"

/-- The notes of a tune, with a bar line at the end of each line and a double one at the end. -/
def tuneBody (notes : List Note) : String :=
  "|\n".intercalate ((bars notes).map barText) ++ "|]"

/-- A score in ABC notation. -/
def Score.tune (score : Score) : String := tuneHeader score.tuneTempo ++ tuneBody score.notes

end Melody

/-!
# How notes are spelled

* `Letter`, `Accidental`: the letters of the scale and the signs that alter them;
* `Spelling`: a letter with its accidental;
* `Accidental.read`: the accidental at the front of a text;
* `Spelling.split?`: a written note as a spelling and the digits of its octave.
-/

namespace Melody

/-- The letters of the scale. -/
inductive Letter
  | a
  | b
  | c
  | d
  | e
  | f
  | g
deriving DecidableEq, Inhabited

namespace Letter

/-- The letter that a capital names. -/
def ofChar? : Char → Option Letter
  | 'A' => some a
  | 'B' => some b
  | 'C' => some c
  | 'D' => some d
  | 'E' => some e
  | 'F' => some f
  | 'G' => some g
  | _ => none

/-- The capital that names a letter. -/
def toChar : Letter → Char
  | a => 'A'
  | b => 'B'
  | c => 'C'
  | d => 'D'
  | e => 'E'
  | f => 'F'
  | g => 'G'

@[simp] theorem ofChar?_toChar (l : Letter) : ofChar? l.toChar = some l := by
  cases l <;> rfl

/-- A letter as a text. -/
def text (l : Letter) : String := String.singleton l.toChar

end Letter

/-! ## Accidentals -/

/-- What a sign does to the tone of a letter. -/
inductive Accidental
  /-- Half a tone down. -/
  | flat
  /-- Nothing; there is no sign. -/
  | natural
  /-- Half a tone up. -/
  | sharp
deriving DecidableEq, Inhabited

namespace Accidental

/-- The characters of the sign. -/
def symbol : Accidental → List Char
  | flat => ['b']
  | natural => []
  | sharp => ['#']

/-- The accidental as a text. -/
def text (a : Accidental) : String := String.ofList a.symbol

/-- The accidental at the front of a text, and what follows its sign. -/
def read : List Char → Accidental × List Char
  | '#' :: cs => (sharp, cs)
  | 'b' :: cs => (flat, cs)
  | cs => (natural, cs)

theorem symbol_append_read (cs : List Char) : (read cs).1.symbol ++ (read cs).2 = cs := by
  fun_cases read cs <;> rfl

end Accidental

/-- A letter with its accidental. -/
structure Spelling where
  letter : Letter
  accidental : Accidental
deriving DecidableEq, Inhabited

namespace Spelling

/-- Letter and sign as a text. -/
def text (s : Spelling) : String := s.letter.text ++ s.accidental.text

/-- Whether a text is a number of an octave: at least one digit, and digits only. -/
def isOctave (cs : List Char) : Bool := !cs.isEmpty && cs.all Char.isDigit

/-- The spelling of a written note and the digits of its octave, if it is one. -/
def split? : List Char → Option (Spelling × List Char)
  | [] => none
  | c :: cs =>
    match Letter.ofChar? c with
    | none => none
    | some letter =>
      let (accidental, digits) := Accidental.read cs
      if isOctave digits then some (⟨letter, accidental⟩, digits) else none

end Spelling

end Melody

import Melody.Fault

/-!
# What stands at the front of a text

A text that does not begin with a gap begins with an item: the characters of a token, or those
that no token can begin with. The rules are tried in order: note, word, number, sign.

* `Item`: a verdict, the characters it is about, and what follows them;
* `Item.first`: the item at the front;
* `Item.first_append`: nothing is lost; `Item.first_ne_nil`: an item has a character.
-/

namespace Melody

/-- Letters that name a tone, capital or small. -/
def isPitchLetter (c : Char) : Bool := (Letter.ofChar? c.toUpper).isSome

/-- Characters that turn the pitch letter before them into a note. -/
def continuesNote (c : Char) : Bool := c == '#' || c == 'b' || c.isDigit

/-- Characters of words. -/
def isWordChar (c : Char) : Bool := c.isAlpha || c == '_'

/-- Characters of numbers and of note lengths. -/
def isNumberChar (c : Char) : Bool := c.isDigit || c == '/' || c == '.'

/-- The signs that are tokens by themselves. -/
def sign? : Char → Option TokenKind
  | '(' => some .parenOpen
  | ')' => some .parenClose
  | '\x7b' => some .braceOpen
  | '\x7d' => some .braceClose
  | ',' => some .comma
  | _ => none

/-- The kind of a word: a keyword in capital or small letters, or else a name. -/
def wordKind (word : List Char) : TokenKind :=
  match String.ofList (word.map Char.toLower) with
  | "tempo" | "bpm" => .tempo
  | "volume" => .volume
  | "repeat" => .repetition
  | "sequence" => .sequence
  | _ => .ident

/-! ## Items -/

/-- The front of a text. -/
structure Item where
  /-- The kind of token it is, or why it is none. -/
  verdict : Except LexicalCause TokenKind
  text : List Char
  /-- What follows in the text. -/
  rest : List Char

namespace Item

/-- A note with the letter `c`: an accidental if there is one, and at least one digit. -/
def note (c : Char) (cs : List Char) : Item :=
  let (accidental, ds) := Accidental.read cs
  let digits := ds.takeWhile Char.isDigit
  ⟨if digits.isEmpty then .error .missingOctave else .ok .note,
    c :: (accidental.symbol ++ digits), ds.dropWhile Char.isDigit⟩

/-- The longest word that begins with `c`. -/
def word (c : Char) (cs : List Char) : Item :=
  let text := c :: cs.takeWhile isWordChar
  ⟨.ok (wordKind text), text, cs.dropWhile isWordChar⟩

/-- The longest number that begins with `c`. -/
def number (c : Char) (cs : List Char) : Item :=
  ⟨.ok .number, c :: cs.takeWhile isNumberChar, cs.dropWhile isNumberChar⟩

/-- The sign `c`, if it is one. -/
def sign (c : Char) (cs : List Char) : Item :=
  ⟨match sign? c with
    | some kind => .ok kind
    | none => .error (.unrecognized c), [c], cs⟩

/-- The item at the front of the text `c :: cs`. -/
def first (c : Char) (cs : List Char) : Item :=
  if isPitchLetter c && cs.head?.any continuesNote then note c cs
  else if isWordChar c then word c cs
  else if c.isDigit then number c cs
  else sign c cs

theorem first_append (c : Char) (cs : List Char) :
    (first c cs).text ++ (first c cs).rest = c :: cs := by
  unfold first
  split
  · simp [note, Accidental.symbol_append_read]
  · split
    · simp [word]
    · split <;> simp [number, sign]

theorem first_ne_nil (c : Char) (cs : List Char) : (first c cs).text ≠ [] := by
  unfold first
  split
  · simp [note]
  · split
    · simp [word]
    · split <;> simp [number, sign]

theorem length_rest_first (c : Char) (cs : List Char) :
    (first c cs).rest.length < (c :: cs).length := by
  rw [← congrArg List.length (first_append c cs), List.length_append]
  have := List.length_pos_iff.mpr (first_ne_nil c cs)
  omega

end Item

end Melody

import Melody.Text.Position

/-!
# Tokens

* `TokenKind`: the kinds of words and signs that a melody is written with;
* `Terminal`: a token kind or the end of the text, which is what a grammar speaks about;
* `Terminal.name`, `Terminal.tag`: how messages name a terminal, and its one-word name;
* `Token`: a kind with the characters it was read from and their place.
-/

namespace Melody

/-- The kinds of tokens. -/
inductive TokenKind
  /-- Pitch letter, accidental and octave, such as `C#4`. -/
  | note
  /-- Whole numbers and note lengths such as `1/4`. -/
  | number
  | ident
  | tempo
  | volume
  | repetition
  | sequence
  | parenOpen
  | parenClose
  | braceOpen
  | braceClose
  | comma
deriving DecidableEq, Inhabited

/-- What may come next in a text: a token, or its end. -/
inductive Terminal
  | token (kind : TokenKind)
  | ending
deriving DecidableEq, Inhabited

namespace Terminal

/-- How a message names a terminal; words and signs of the language stand in backquotes. -/
def name : Terminal → String
  | .token .note => "note"
  | .token .number => "number"
  | .token .ident => "identifier"
  | .token .tempo => "\x60tempo\x60"
  | .token .volume => "\x60volume\x60"
  | .token .repetition => "\x60repeat\x60"
  | .token .sequence => "\x60sequence\x60"
  | .token .parenOpen => "\x60(\x60"
  | .token .parenClose => "\x60)\x60"
  | .token .braceOpen => "\x60\x7b\x60"
  | .token .braceClose => "\x60\x7d\x60"
  | .token .comma => "\x60,\x60"
  | .ending => "end of input"

/-- The name of a terminal as one word. -/
def tag : Terminal → String
  | .token .note => "Note"
  | .token .number => "Number"
  | .token .ident => "Ident"
  | .token .tempo => "Tempo"
  | .token .volume => "Volume"
  | .token .repetition => "Repeat"
  | .token .sequence => "Sequence"
  | .token .parenOpen => "ParenOpen"
  | .token .parenClose => "ParenClose"
  | .token .braceOpen => "BraceOpen"
  | .token .braceClose => "BraceClose"
  | .token .comma => "Comma"
  | .ending => "End"

end Terminal

/-- A token as it stands in a text. -/
structure Token where
  kind : TokenKind
  /-- The characters it was read from. -/
  text : String
  /-- The place of the first of them. -/
  pos : Position
deriving DecidableEq, Inhabited

end Melody

/-!
# Places in a text

A place is a line and a column, both counted from one; a column counts characters, whatever their
width, and only a line feed ends a line.

* `Position`, `Position.start`;
* `Position.next`, `Position.advance`: the place after one character, and after several;
* `advance_append`: passing two texts in turn is passing their concatenation;
* `Position.text`: the place as people write it.
-/

namespace Melody

/-- A place in a text. -/
structure Position where
  /-- The number of the line, from one. -/
  line : Nat
  /-- The number of the character within its line, from one. -/
  column : Nat
deriving DecidableEq, Inhabited

namespace Position

/-- The place of the first character of a text. -/
def start : Position := ⟨1, 1⟩

/-- The place after the character `c` at `p`. -/
def next (p : Position) (c : Char) : Position :=
  if c = '\n' then ⟨p.line + 1, 1⟩ else ⟨p.line, p.column + 1⟩

/-- The place after the characters `cs`, the first of which stands at `p`. -/
def advance (p : Position) (cs : List Char) : Position := cs.foldl next p

@[simp] theorem advance_nil (p : Position) : p.advance [] = p := rfl

@[simp] theorem advance_cons (p : Position) (c : Char) (cs : List Char) :
    p.advance (c :: cs) = (p.next c).advance cs := rfl

theorem advance_append (p : Position) (cs ds : List Char) :
    p.advance (cs ++ ds) = (p.advance cs).advance ds := List.foldl_append

/-- Line and column with a colon between them. -/
def text (p : Position) : String := s!"{p.line}:{p.column}"

end Position

end Melody

import Melody.Lexeme.Gap
import Melody.Lexeme.Item

/-!
# Lexemes

A text is a row of items with gaps between them. Reading goes on behind an item that is no token,
so that every text has a row of lexemes; the end of the text is where no lexeme is left.

* `Lexeme`: an item with its place;
* `Cursor`: a place in a text with what follows it, and `Cursor.next`, the lexeme after the gap;
* `Cursor.reading`: all lexemes and the place of the end;
* `Reading.of`, `Reading.tokens`: the reading of a text, and its tokens if all lexemes are tokens.
-/

namespace Melody

/-- Characters of a text that are a token, or that are none. -/
structure Lexeme where
  /-- The kind of token, or why there is none. -/
  verdict : Except LexicalCause TokenKind
  text : String
  /-- The place of the first character. -/
  pos : Position

/-- The token that a lexeme is, or its fault. -/
def Lexeme.token (x : Lexeme) : Except Fault Token :=
  match x.verdict with
  | .ok kind => .ok ⟨kind, x.text, x.pos⟩
  | .error cause => .error ⟨x.pos, .lexical cause⟩

/-- A place in a text together with the characters that follow it. -/
structure Cursor where
  rest : List Char
  pos : Position

namespace Cursor

/-- The beginning of a text. -/
def ofSource (source : String) : Cursor := ⟨source.toList, .start⟩

/-- Past the gap. -/
def skipGap (c : Cursor) : Cursor :=
  let (gap, rest) := splitGap false c.rest
  ⟨rest, c.pos.advance gap⟩

/-- The lexeme after the gap, unless nothing but a gap is left, and the place behind it. At the end
of the text the place is the end itself. -/
def next (c : Cursor) : Option Lexeme × Cursor :=
  match c.skipGap with
  | ⟨[], pos⟩ => (none, ⟨[], pos⟩)
  | ⟨ch :: chs, pos⟩ =>
    let item := Item.first ch chs
    (some ⟨item.verdict, .ofList item.text, pos⟩, ⟨item.rest, pos.advance item.text⟩)

theorem length_rest_next {c c' : Cursor} {x : Lexeme} (h : c.next = (some x, c')) :
    c'.rest.length < c.rest.length := by
  have hgap := length_splitGap c.rest
  unfold next skipGap at h
  split at h
  · simp at h
  · rename_i ch chs pos heq
    simp only [Cursor.mk.injEq] at heq
    simp only [Prod.mk.injEq] at h
    have := Item.length_rest_first ch chs
    rw [← h.2]
    rw [heq.1] at hgap
    exact Nat.lt_of_lt_of_le this hgap

end Cursor

/-! ## Readings -/

/-- A text as the row of its lexemes and the place of its end. -/
structure Reading where
  lexemes : List Lexeme
  stop : Position

/-- The lexemes from a place on. -/
def Cursor.reading (c : Cursor) : Reading :=
  match _h : c.next with
  | (none, c') => ⟨[], c'.pos⟩
  | (some x, c') =>
    let r := c'.reading
    ⟨x :: r.lexemes, r.stop⟩
termination_by c.rest.length
decreasing_by exact Cursor.length_rest_next ‹_›

namespace Cursor

theorem reading_of_next_none {c c' : Cursor} (h : c.next = (none, c')) :
    c.reading = ⟨[], c'.pos⟩ := by
  rw [reading]
  split <;> simp_all

theorem reading_of_next_some {c c' : Cursor} {x : Lexeme} (h : c.next = (some x, c')) :
    c.reading = ⟨x :: c'.reading.lexemes, c'.reading.stop⟩ := by
  rw [reading]
  split <;> simp_all

end Cursor

namespace Reading

/-- The reading of a whole text. -/
def of (source : String) : Reading := (Cursor.ofSource source).reading

/-- All tokens of a text, or its first lexical fault. -/
def tokens (r : Reading) : Except Fault (List Token) := r.lexemes.mapM Lexeme.token

end Reading

end Melody

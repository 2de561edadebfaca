import Melody.Lexeme
import Melody.Score

/-!
# From lexemes to a score

A score is drafted token by token. A draft holds the statements that are complete, the blocks that
are open, and what the statement at work still lacks; each token either carries it on or has a
cause why it cannot stand there.

* `Detail`, `Awaiting`, `Frame`, `Draft`: a score at work;
* `Draft.feed`, `Draft.close`: the draft after one more token, and the score at the end;
* `Draft.run`: the score that lexemes stand for, and the lexemes that are left;
* `Reading.takeScore`, `Score.ofSource`: the score of a reading, and of a text.
-/

namespace Melody

/-- A block whose closing brace is still to come. -/
inductive Block
  | sequence (pos : Position) (name : String)
  | repetition (pos : Position) (count : UInt32)

/-- The statement that a block makes of its body. -/
def Block.statement : Block → List Statement → Statement
  | sequence pos name, body => .sequence pos name body
  | repetition pos count, body => .repetition pos count body

/-- What comes next in a statement that has begun at `pos`. -/
inductive Detail
  | bpm (pos : Position)
  | percent (pos : Position)
  | sequenceName (pos : Position)
  | countOpen (pos : Position)
  | count (pos : Position)
  | countClose (pos : Position) (count : UInt32)
  | bodyOpen (block : Block)
  | noteLength (pos : Position) (spelling : Spelling) (octave : UInt32)

/-- The only kind of token that a detail can be. -/
def Detail.kind : Detail → TokenKind
  | bpm _ => .number
  | percent _ => .number
  | sequenceName _ => .ident
  | countOpen _ => .parenOpen
  | count _ => .number
  | countClose _ _ => .parenClose
  | bodyOpen _ => .braceOpen
  | noteLength _ _ _ => .number

/-- What may come next. -/
inductive Awaiting
  /-- A statement, the end of its block, or a comma if `comma` allows one. -/
  | statement (comma : Bool)
  | detail (detail : Detail)

/-- A block that is open, and the complete statements before it, the newest first. -/
structure Frame where
  block : Block
  before : List Statement

/-- A score at work. -/
structure Draft where
  awaiting : Awaiting
  /-- The complete statements of the innermost block, the newest first. -/
  done : List Statement
  /-- The open blocks, the innermost first. -/
  enclosing : List Frame

namespace Draft

/-- Nothing is written yet. -/
def empty : Draft := ⟨.statement false, [], []⟩

/-- The statement at work still lacks `x`. -/
def lacking (d : Draft) (x : Detail) : Draft := { d with awaiting := .detail x }

/-- The statement at work is `s`, and complete; a comma may follow it. -/
def add (d : Draft) (s : Statement) : Draft :=
  { d with awaiting := .statement true, done := s :: d.done }

/-! ## One more token -/

/-- The kinds of tokens that a statement can begin with. -/
def opening : List Terminal := [.token .tempo, .token .volume, .token .sequence,
  .token .repetition, .token .note]

/-- The token `t` where a statement may begin. -/
def feedStatement (d : Draft) (comma : Bool) (t : Token) : Except GrammaticalCause Draft :=
  match t.kind with
  | .tempo => .ok (d.lacking (.bpm t.pos))
  | .volume => .ok (d.lacking (.percent t.pos))
  | .sequence => .ok (d.lacking (.sequenceName t.pos))
  | .repetition => .ok (d.lacking (.countOpen t.pos))
  | .note =>
    match Spelling.split? t.text.toList with
    | some (spelling, digits) =>
      .ok (d.lacking (.noteLength t.pos spelling (Numeral.capped digits)))
    | none => .error (.invalidNote t.text)
  | .braceClose =>
    match d.enclosing with
    | frame :: frames =>
      .ok ⟨.statement true, frame.block.statement d.done.reverse :: frame.before, frames⟩
    | [] => .error (.unexpected [.ending] (.token .braceClose))
  | .comma =>
    if comma then .ok { d with awaiting := .statement false }
    else .error (.unexpected opening (.token .comma))
  | kind => .error (.unexpected opening (.token kind))

/-- The number that a token stands for. -/
def number (t : Token) : Except GrammaticalCause UInt32 :=
  (Numeral.read t.text).mapError .invalidNumber

/-- The token `t`, of the right kind, as the detail `x`. -/
def feedDetail (d : Draft) (t : Token) : Detail → Except GrammaticalCause Draft
  | .bpm pos => (number t).map fun bpm => d.add (.tempo pos bpm)
  | .percent pos => (number t).map fun percent => d.add (.volume pos percent)
  | .sequenceName pos => .ok (d.lacking (.bodyOpen (.sequence pos t.text)))
  | .countOpen pos => .ok (d.lacking (.count pos))
  | .count pos => (number t).map fun count => d.lacking (.countClose pos count)
  | .countClose pos count => .ok (d.lacking (.bodyOpen (.repetition pos count)))
  | .bodyOpen block => .ok ⟨.statement false, [], ⟨block, d.done⟩ :: d.enclosing⟩
  | .noteLength pos spelling octave => .ok (d.add (.note ⟨pos, spelling, octave, t.text⟩))

/-- The draft after one more token. -/
def feed (d : Draft) (t : Token) : Except GrammaticalCause Draft :=
  match d.awaiting with
  | .statement comma => d.feedStatement comma t
  | .detail x =>
    if t.kind = x.kind then d.feedDetail t x
    else .error (.unexpected [.token x.kind] (.token t.kind))

/-- The score at the end of the text: no statement and no block may be left open. -/
def close (d : Draft) : Except GrammaticalCause Score :=
  match d.awaiting, d.enclosing with
  | .statement _, [] => .ok ⟨d.done.reverse⟩
  | .statement _, _ :: _ => .error (.unexpected [.token .braceClose] .ending)
  | .detail x, _ => .error (.unexpected [.token x.kind] .ending)

/-- The score that lexemes up to the end at `stop` stand for, or the first fault, and the lexemes
that are left. A token that could not stand where it stood is left; one that has no value is not. -/
def run (stop : Position) (d : Draft) : List Lexeme → Except Fault Score × List Lexeme
  | [] => (d.close.mapError (⟨stop, .grammatical ·⟩), [])
  | x :: xs =>
    match x.token with
    | .error fault => (.error fault, xs)
    | .ok t =>
      match d.feed t with
      | .ok d => run stop d xs
      | .error (.unexpected expected actual) =>
        (.error ⟨t.pos, .grammatical (.unexpected expected actual)⟩, x :: xs)
      | .error cause => (.error ⟨t.pos, .grammatical cause⟩, xs)

end Draft

/-- The score at the front of a reading, or its first fault, and the reading that is left. -/
def Reading.takeScore (r : Reading) : Except Fault Score × Reading :=
  let (score, lexemes) := Draft.empty.run r.stop r.lexemes
  (score, { r with lexemes })

/-- The score that a text stands for, or its first fault. -/
def Score.ofSource (source : String) : Except Fault Score := (Reading.of source).takeScore.1

end Melody

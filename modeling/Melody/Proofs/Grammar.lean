import Melody.Proofs.Literals

/-!
# The grammar of melodies

A score is derived from a row of statements, a comma behind any of them; its tokens end where the
text ends. Derivations are trees with tokens at their leaves, each of the kind that its rule asks
for, so that every tree is a derivation.

* `Leaf`, `Phrase`, `Phrases`: the rules;
* `Phrase.word`, `Phrases.word`: the tokens that are derived;
* `Phrase.Valued`, `Phrases.Valued`: numbers are numerals, notes have capitals;
* `Phrase.statement`, `Phrases.statements`: what a derivation denotes.
-/

namespace Melody

/-- A token of one kind. -/
abbrev Leaf (kind : TokenKind) : Type := {t : Token // t.kind = kind}

mutual

/-- The derivations of a statement. -/
inductive Phrase
  /-- `Tempo Number` -/
  | tempo (keyword : Leaf .tempo) (bpm : Leaf .number)
  /-- `Volume Number` -/
  | volume (keyword : Leaf .volume) (percent : Leaf .number)
  /-- `Sequence Ident '{' (Statement ','?)* '}'` -/
  | sequence (keyword : Leaf .sequence) (name : Leaf .ident) (opening : Leaf .braceOpen)
    (body : Phrases) (closing : Leaf .braceClose)
  /-- `Repeat '(' Number ')' '{' (Statement ','?)* '}'` -/
  | repetition (keyword : Leaf .repetition) (left : Leaf .parenOpen) (count : Leaf .number)
    (right : Leaf .parenClose) (opening : Leaf .braceOpen) (body : Phrases)
    (closing : Leaf .braceClose)
  /-- `Note Number` -/
  | note (pitch : Leaf .note) (length : Leaf .number)

/-- The derivations of a row of statements, `(Statement ','?)*`. -/
inductive Phrases
  | nil
  | cons (head : Phrase) (comma : Option (Leaf .comma)) (tail : Phrases)

end

/-- The token of a comma, if there is one. -/
def commaWord (comma : Option (Leaf .comma)) : List Token := (comma.map Subtype.val).toList

@[simp] theorem commaWord_none : commaWord none = [] := rfl

@[simp] theorem commaWord_some (comma : Leaf .comma) : commaWord (some comma) = [comma.1] := rfl

mutual

/-- The tokens of a statement, in their order. -/
def Phrase.word : Phrase → List Token
  | .tempo keyword bpm => [keyword.1, bpm.1]
  | .volume keyword percent => [keyword.1, percent.1]
  | .sequence keyword name opening body closing =>
    keyword.1 :: name.1 :: opening.1 :: (body.word ++ [closing.1])
  | .repetition keyword left count right opening body closing =>
    keyword.1 :: left.1 :: count.1 :: right.1 :: opening.1 :: (body.word ++ [closing.1])
  | .note pitch length => [pitch.1, length.1]

/-- The tokens of a row of statements, in their order. -/
def Phrases.word : Phrases → List Token
  | .nil => []
  | .cons head comma tail => head.word ++ (commaWord comma ++ tail.word)

end

mutual

/-- Every number but a length is a numeral, and every note has a capital. -/
def Phrase.Valued : Phrase → Prop
  | .tempo _ bpm => bpm.1.IsNumeral
  | .volume _ percent => percent.1.IsNumeral
  | .sequence _ _ _ body _ => body.Valued
  | .repetition _ _ count _ _ body _ => count.1.IsNumeral ∧ body.Valued
  | .note pitch _ => pitch.1.IsCapital

/-- So it is for every statement of a row. -/
def Phrases.Valued : Phrases → Prop
  | .nil => True
  | .cons head _ tail => head.Valued ∧ tail.Valued

end

/-! ## Denotation -/

mutual

/-- The statement that a derivation denotes; it stands where its first token stands. -/
def Phrase.statement : Phrase → Statement
  | .tempo keyword bpm => .tempo keyword.1.pos (.ofNat bpm.1.value)
  | .volume keyword percent => .volume keyword.1.pos (.ofNat percent.1.value)
  | .sequence keyword name _ body _ => .sequence keyword.1.pos name.1.text body.statements
  | .repetition keyword _ count _ _ body _ =>
    .repetition keyword.1.pos (.ofNat count.1.value) body.statements
  | .note pitch length => .note ⟨pitch.1.pos, pitch.1.spelling, pitch.1.octave, length.1.text⟩

/-- The statements that a row denotes, in their order. -/
def Phrases.statements : Phrases → List Statement
  | .nil => []
  | .cons head _ tail => head.statement :: tail.statements

end

end Melody

import Melody.Score.Draft

/-!
# Places do not matter to a draft

What a draft does with a token depends on the kind and the characters of the token alone. So all
places may be changed at once, in whatever way, before a token is fed or after it.

* `Token.relocate`, `Statement.relocate`, `Draft.relocate`: the same with other places;
* **`Draft.feed_relocate`**, `Draft.close_relocate`: feeding commutes with relocation;
* **`Draft.foldlM_feed_relocate`**: so does feeding a row of tokens.
-/

namespace Melody

variable (f : Position → Position)

/-- The token `t`, standing elsewhere. -/
def Token.relocate (t : Token) : Token := { t with pos := f t.pos }

/-- The note `n`, standing elsewhere. -/
def Note.relocate (n : Note) : Note := { n with pos := f n.pos }

mutual

/-- A statement whose tokens stand elsewhere. -/
def Statement.relocate : Statement → Statement
  | .tempo pos bpm => .tempo (f pos) bpm
  | .volume pos percent => .volume (f pos) percent
  | .sequence pos name body => .sequence (f pos) name (relocateBlock body)
  | .repetition pos count body => .repetition (f pos) count (relocateBlock body)
  | .note n => .note (n.relocate f)

/-- Statements whose tokens stand elsewhere. -/
def relocateBlock : List Statement → List Statement
  | [] => []
  | s :: ss => s.relocate :: relocateBlock ss

end

theorem relocateBlock_eq_map (ss : List Statement) :
    relocateBlock f ss = ss.map (Statement.relocate f) := by
  induction ss with
  | nil => rfl
  | cons s ss ih => rw [relocateBlock, ih, List.map_cons]

mutual

theorem Statement.relocate_relocate (g : Position → Position) :
    ∀ s : Statement, (s.relocate g).relocate f = s.relocate (f ∘ g)
  | .tempo _ _ => rfl
  | .volume _ _ => rfl
  | .sequence pos name body =>
    congrArg (Statement.sequence (f (g pos)) name) (relocateBlock_relocateBlock g body)
  | .repetition pos count body =>
    congrArg (Statement.repetition (f (g pos)) count) (relocateBlock_relocateBlock g body)
  | .note _ => rfl

theorem relocateBlock_relocateBlock (g : Position → Position) :
    ∀ ss : List Statement, relocateBlock f (relocateBlock g ss) = relocateBlock (f ∘ g) ss
  | [] => rfl
  | s :: ss => by
    rw [relocateBlock, relocateBlock, relocateBlock, Statement.relocate_relocate g s,
      relocateBlock_relocateBlock g ss]

end

/-- A score whose tokens stand elsewhere. -/
def Score.relocate (score : Score) : Score := ⟨relocateBlock f score.statements⟩

/-- A block whose tokens stand elsewhere. -/
def Block.relocate : Block → Block
  | .sequence pos name => .sequence (f pos) name
  | .repetition pos count => .repetition (f pos) count

/-- A detail of a statement that stands elsewhere. -/
def Detail.relocate : Detail → Detail
  | .bpm pos => .bpm (f pos)
  | .percent pos => .percent (f pos)
  | .sequenceName pos => .sequenceName (f pos)
  | .countOpen pos => .countOpen (f pos)
  | .count pos => .count (f pos)
  | .countClose pos times => .countClose (f pos) times
  | .bodyOpen block => .bodyOpen (block.relocate f)
  | .noteLength pos spelling octave => .noteLength (f pos) spelling octave

/-- What may come next in a text whose tokens stand elsewhere. -/
def Awaiting.relocate : Awaiting → Awaiting
  | .statement comma => .statement comma
  | .detail x => .detail (x.relocate f)

/-- An open block whose tokens stand elsewhere. -/
def Frame.relocate (frame : Frame) : Frame :=
  ⟨frame.block.relocate f, relocateBlock f frame.before⟩

/-- A draft of tokens that stand elsewhere. -/
def Draft.relocate (d : Draft) : Draft :=
  ⟨d.awaiting.relocate f, relocateBlock f d.done, d.enclosing.map (Frame.relocate f)⟩

/-! ## Drafts of other places -/

@[simp] theorem Detail.kind_relocate (x : Detail) : (x.relocate f).kind = x.kind := by
  cases x <;> rfl

namespace Draft

theorem feedDetail_relocate (d : Draft) (t : Token) (x : Detail) :
    (d.relocate f).feedDetail (t.relocate f) (x.relocate f) =
      (d.feedDetail t x).map (relocate f) := by
  have hnumber : number (t.relocate f) = number t := rfl
  cases x with
  | bpm pos | percent pos | count pos =>
    simp only [Detail.relocate, feedDetail, hnumber]
    cases number t <;> rfl
  | sequenceName pos | countOpen pos | countClose pos count | noteLength pos spelling octave => rfl
  | bodyOpen block => rfl

theorem feedStatement_relocate (d : Draft) (comma : Bool) (t : Token) :
    (d.relocate f).feedStatement comma (t.relocate f) =
      (d.feedStatement comma t).map (relocate f) := by
  obtain ⟨kind, text, pos⟩ := t
  cases kind with
  | tempo | volume | sequence | repetition => rfl
  | note =>
    simp only [feedStatement, Token.relocate]
    cases Spelling.split? text.toList <;> rfl
  | braceClose =>
    obtain ⟨awaiting, done, enclosing⟩ := d
    cases enclosing with
    | nil => rfl
    | cons frame frames =>
      obtain ⟨block, before⟩ := frame
      cases block <;> simp [feedStatement, Token.relocate, relocate, Frame.relocate,
        Block.relocate, Block.statement, Statement.relocate, relocateBlock_eq_map,
        Awaiting.relocate, Except.map]
  | comma => cases comma <;> rfl
  | number | ident | parenOpen | parenClose | braceOpen => rfl

theorem feed_relocate (d : Draft) (t : Token) :
    (d.relocate f).feed (t.relocate f) = (d.feed t).map (relocate f) := by
  obtain ⟨awaiting, done, enclosing⟩ := d
  cases awaiting with
  | statement comma => exact feedStatement_relocate f ⟨.statement comma, done, enclosing⟩ comma t
  | detail x =>
    have hdetail := feedDetail_relocate f ⟨.detail x, done, enclosing⟩ t x
    have hkind : (t.relocate f).kind = t.kind := rfl
    simp only [feed, relocate, Awaiting.relocate, Detail.kind_relocate, hkind] at hdetail ⊢
    split
    · exact hdetail
    · rfl

theorem close_relocate (d : Draft) :
    (d.relocate f).close = d.close.map (Score.relocate f) := by
  obtain ⟨awaiting, done, enclosing⟩ := d
  cases awaiting with
  | statement comma =>
    cases enclosing with
    | nil => simp [close, relocate, Awaiting.relocate, Score.relocate, relocateBlock_eq_map,
        Except.map]
    | cons frame frames => rfl
  | detail x =>
    cases enclosing <;> simp [close, relocate, Awaiting.relocate, Except.map]

/-- **Feeding a row of tokens commutes with relocation.** -/
theorem foldlM_feed_relocate (ts : List Token) (d : Draft) :
    (ts.map (Token.relocate f)).foldlM feed (d.relocate f) =
      (ts.foldlM feed d).map (relocate f) := by
  induction ts generalizing d with
  | nil => rfl
  | cons t ts ih =>
    rw [List.map_cons, List.foldlM_cons, List.foldlM_cons, feed_relocate]
    cases d.feed t with
    | error cause => rfl
    | ok d' => exact ih d'

end Draft

end Melody

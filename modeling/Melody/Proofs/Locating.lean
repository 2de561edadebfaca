import Mathlib.Data.List.DropRight
import Melody.Proofs.Defects
import Melody.Proofs.Derivation
import Melody.Proofs.Scanning
import Melody.Proofs.Viability
import Melody.Text.Lines

/-!
# Places tell the truth

The place of a lexeme is counted character by character while the text is read; the lines of a text
are its pieces between line feeds. Both agree: the line at the place of a lexeme goes on with its
characters. The places of statements are those of tokens, so that every fault stands in the text.

* `Position.after`: the place behind a text, counted at once; `advance_start`;
* `getElem?_lines`: the line at the end of a text with what follows it;
* `Cursor.On`: a cursor that stands where it has got to; `Cursor.On.next_some`;
* `Draft.pos_of_run_eq_error`, `heads_phrases`: where faults and statements stand;
* **`places_match_lines`**: the places of lexemes, of the end and of faults.
-/

namespace Melody

open Sound (Settings)
open Text (lines lineAt lineCount)

/-- The place behind `front`: its line feeds and the characters behind the last of them, counted
from one. -/
def Position.after (front : List Char) : Position :=
  ⟨1 + front.count '\n', 1 + (front.rtakeWhile (· != '\n')).length⟩

theorem advance_start (front : List Char) : Position.advance .start front = .after front := by
  induction front using List.reverseRecOn with
  | nil => rfl
  | append_singleton front c ih =>
    rw [Position.advance_append, ih, Position.advance_cons, Position.advance_nil, Position.next]
    by_cases hc : c = '\n'
    · subst hc
      simp [Position.after, List.count_append, Nat.add_assoc]
    · rw [if_neg hc, Position.after, Position.after,
        List.rtakeWhile_concat_pos _ _ _ (by simp [hc])]
      simp [List.count_append, hc, Nat.add_assoc]

theorem length_lines (cs : List Char) : (lines cs).length = cs.count '\n' + 1 := by
  induction cs with
  | nil => rfl
  | cons c cs ih =>
    rw [Text.lines_cons]
    by_cases hc : c = '\n' <;> simp [hc, ih]

theorem head?_lines (cs : List Char) : (lines cs)[0]? = some (cs.takeWhile (· != '\n')) := by
  induction cs with
  | nil => rfl
  | cons c cs ih =>
    rw [Text.lines_cons]
    by_cases hc : c = '\n'
    · simp [hc]
    · simp [hc, List.getElem?_modifyHead, ih]

theorem getElem?_lines (front rest : List Char) : (lines (front ++ rest))[front.count '\n']? =
    some (front.rtakeWhile (· != '\n') ++ rest.takeWhile (· != '\n')) := by
  induction front using List.reverseRecOn generalizing rest with
  | nil => exact head?_lines rest
  | append_singleton front c ih =>
    rw [List.append_assoc, List.singleton_append]
    by_cases hc : c = '\n'
    · subst hc
      have hlength := length_lines front
      rw [lines, List.splitOn_append_cons_self, ← lines, ← lines,
        List.getElem?_append_right (by simp [hlength])]
      simp [hlength, head?_lines]
    · have hline := ih (c :: rest)
      rw [List.takeWhile_cons_of_pos (by simp [hc])] at hline
      rw [List.rtakeWhile_concat_pos _ _ _ (by simp [hc]), List.count_append, List.count_singleton]
      simpa [hc] using hline

variable {source : String} {front rest : List Char}

theorem toList_lineAt_after (h : source.toList = front ++ rest) :
    (lineAt source (Position.after front).line).toList =
      front.rtakeWhile (· != '\n') ++ rest.takeWhile (· != '\n') := by
  simp [lineAt, Position.after, h, List.getD_eq_getElem?_getD, getElem?_lines]

theorem drop_lineAt_after (h : source.toList = front ++ rest) :
    (lineAt source (Position.after front).line).toList.drop ((Position.after front).column - 1) =
      rest.takeWhile (· != '\n') := by
  rw [toList_lineAt_after h]
  simp [Position.after]

/-- The place stands in the text, or right behind one of its lines. -/
structure Position.In (source : String) (pos : Position) : Prop where
  line_pos : 1 ≤ pos.line
  line_le : pos.line ≤ lineCount source
  column_pos : 1 ≤ pos.column
  column_le : pos.column ≤ (lineAt source pos.line).length + 1

theorem in_after (h : source.toList = front ++ rest) : (Position.after front).In source where
  line_pos := Nat.le_add_right ..
  line_le := by
    rw [lineCount, length_lines, h, List.count_append, Position.after]
    dsimp only
    omega
  column_pos := Nat.le_add_right ..
  column_le := by
    rw [← String.length_toList, toList_lineAt_after h, List.length_append, Position.after]
    dsimp only
    omega

/-! ## Cursors -/

theorem Position.advance_after (front cs : List Char) :
    (Position.after front).advance cs = .after (front ++ cs) := by
  rw [← advance_start, ← advance_start, advance_append]

/-- The cursor stands in the text, and its place is the one it has got to. -/
def Cursor.On (source : String) (c : Cursor) : Prop :=
  ∃ front, source.toList = front ++ c.rest ∧ c.pos = .after front

theorem Cursor.on_ofSource (source : String) : (ofSource source).On source := ⟨[], rfl, rfl⟩

theorem splitGap_rest (cs : List Char) :
    splitGap false (splitGap false cs).2 = ([], (splitGap false cs).2) := by
  have hgap := longest_splitGap cs
  have hagain := splitGap_gap_append hgap.holds fun h => List.isEmpty_iff.mp h
  rw [← hgap.append, Prod.ext_iff] at hagain
  exact Prod.ext (List.self_eq_append_right.mp hagain.1) hagain.2.symm

theorem isBlank_of_splitGap {cs gap rest : List Char} {c : Char}
    (h : splitGap false cs = (gap, c :: rest)) : Text.isBlank c = false := by
  have hrest := splitGap_rest cs
  rw [h] at hrest
  by_contra hblank
  rw [Bool.not_eq_false] at hblank
  simp [splitGap, hblank] at hrest

theorem Item.Shape.isBlank_eq_false {verdict : Except LexicalCause TokenKind} {c : Char}
    {cs : List Char} (h : Shape verdict (c :: cs)) (hc : Text.isBlank c = false) :
    ∀ d ∈ c :: cs, Text.isBlank d = false := by
  rw [List.forall_mem_cons]
  refine ⟨hc, fun d hd => ?_⟩
  have hsymbol : ∀ a : Accidental, ∀ d ∈ a.symbol, Text.isBlank d = false := by
    have hsharp : Text.isBlank '#' = false := by decide
    have hflat : Text.isBlank 'b' = false := by decide
    intro a
    cases a <;> simp [Accidental.symbol, hsharp, hflat]
  cases h with
  | @note _ a digits _ hdigits _ =>
    rcases List.mem_append.mp hd with hd | hd
    · exact hsymbol a d hd
    · exact isBlank_eq_false_of_visible (visible_of_isDigit (hdigits d hd))
  | @missingOctave _ a _ _ => exact hsymbol a d hd
  | word _ hword => exact isBlank_eq_false_of_visible (visible_of_isWordChar (hword d hd))
  | number _ hnumber => exact isBlank_eq_false_of_visible (visible_of_isNumberChar (hnumber d hd))
  | sign | unrecognized => cases hd

theorem Cursor.lineFeed_not_mem_of_next {c c' : Cursor} {x : Lexeme}
    (h : c.next = (some x, c')) : '\n' ∉ x.text.toList := by
  cases hsplit : splitGap false c.rest with
  | mk gap rest =>
    cases rest with
    | nil =>
      rw [next_of_splitGap_nil hsplit] at h
      cases h
    | cons ch chs =>
      rw [next_of_splitGap_cons hsplit] at h
      cases h
      have hch := isBlank_of_splitGap hsplit
      have hshape := Item.shape_first ch chs
      obtain ⟨d, ds, htext⟩ := List.exists_cons_of_ne_nil (Item.first_ne_nil ch chs)
      have happend := Item.first_append ch chs
      rw [htext, List.cons_append, List.cons.injEq] at happend
      rw [htext, happend.1] at hshape
      rw [String.toList_ofList, htext, happend.1]
      intro hmem
      have hfeed := hshape.isBlank_eq_false hch '\n' hmem
      exact absurd hfeed (by decide)

namespace Cursor

variable {c c' : Cursor} {x : Lexeme}

/-- **A cursor stays where it has got to**, and so does the lexeme that it passes. -/
theorem On.next_some (h : c.On source) (hnext : c.next = (some x, c')) :
    ∃ front, source.toList = front ++ (x.text.toList ++ c'.rest) ∧ x.pos = .after front ∧
      c'.On source := by
  obtain ⟨front, htext, hpos⟩ := h
  have hmove := c.move_next
  rw [hnext] at hmove
  cases hmove with
  | @item gap _ rest _ _ hx hrest =>
    rw [hpos, Position.advance_after] at hx
    rw [hrest, ← List.append_assoc] at htext
    refine ⟨front ++ gap, htext, hx, front ++ gap ++ x.text.toList, ?_, ?_⟩
    · rw [htext, List.append_assoc (front ++ gap)]
    · rw [hx, Position.advance_after]

theorem On.next_none (h : c.On source) (hnext : c.next = (none, c')) :
    c' = ⟨[], .after source.toList⟩ := by
  obtain ⟨front, htext, hpos⟩ := h
  have hmove := c.move_next
  rw [hnext] at hmove
  cases hmove with
  | stop => rw [hpos, Position.advance_after, htext]

theorem On.after (h : c.On source) (k : Nat) : (c.after k).On source := by
  induction k generalizing c with
  | zero => exact h
  | succ k ih =>
    rw [after_succ]
    cases hnext : c.next with
    | mk x c' =>
      cases x with
      | none =>
        rw [h.next_none hnext]
        exact ih ⟨source.toList, by simp, rfl⟩
      | some x =>
        obtain ⟨_, _, _, hc'⟩ := h.next_some hnext
        exact ih hc'

theorem On.reading (h : c.On source) :
    (∀ x ∈ c.reading.lexemes, x.pos.In source) ∧ c.reading.stop.In source := by
  induction c using Cursor.reading.induct with
  | case1 c c' hnext =>
    rw [reading_of_next_none hnext, h.next_none hnext]
    exact ⟨List.forall_mem_nil _, in_after (List.append_nil _).symm⟩
  | case2 c x c' hnext ih =>
    obtain ⟨front, htext, hpos, hc'⟩ := h.next_some hnext
    rw [reading_of_next_some hnext, List.forall_mem_cons]
    exact ⟨⟨hpos ▸ in_after htext, (ih hc').1⟩, (ih hc').2⟩

end Cursor

/-! ## Faults -/

theorem Draft.pos_of_run_eq_error {stop : Position} {xs : List Lexeme} {d : Draft} {fault : Fault}
    (h : (d.run stop xs).1 = .error fault) : fault.pos ∈ stop :: xs.map Lexeme.pos := by
  induction xs generalizing d with
  | nil =>
    unfold run at h
    cases hclose : d.close with
    | ok score =>
      rw [hclose] at h
      cases h
    | error cause =>
      rw [hclose] at h
      cases h
      exact List.mem_cons_self
  | cons x xs ih =>
    rw [run] at h
    cases htoken : x.token with
    | error fault' =>
      rw [htoken] at h
      cases h
      obtain ⟨cause, -, rfl⟩ := Lexeme.token_eq_error_iff.mp htoken
      simp
    | ok t =>
      have hpos := (Lexeme.token_eq_ok_iff.mp htoken).2.2
      rw [htoken] at h
      dsimp only at h
      cases hfeed : d.feed t with
      | ok d' =>
        rw [hfeed] at h
        have hmem := ih h
        simp only [List.mem_cons, List.map_cons] at hmem ⊢
        tauto
      | error cause =>
        rw [hfeed] at h
        cases cause <;> cases h <;> simp [hpos]

/-- The tokens that statements begin with, by their kinds and places. -/
def heads (ts : List Token) : List (TokenKind × Position) :=
  (ts.filter fun t => .token t.kind ∈ Draft.opening).map fun t => (t.kind, t.pos)

theorem heads_nil : heads [] = [] := rfl

theorem heads_append (ts us : List Token) : heads (ts ++ us) = heads ts ++ heads us := by
  simp [heads]

theorem heads_cons {kind : TokenKind} (t : Leaf kind) (ts : List Token) : heads (t.1 :: ts) =
    if .token kind ∈ Draft.opening then (kind, t.1.pos) :: heads ts else heads ts := by
  obtain ⟨t, rfl⟩ := t
  by_cases h : Terminal.token t.kind ∈ Draft.opening <;> simp [heads, h]

/-- The kind and the place of the token that a statement begins with. -/
def Statement.head : Statement → TokenKind × Position
  | .tempo pos _ => (.tempo, pos)
  | .volume pos _ => (.volume, pos)
  | .sequence pos _ _ => (.sequence, pos)
  | .repetition pos _ _ => (.repetition, pos)
  | .note n => (.note, n.pos)

theorem Statement.snd_head (s : Statement) : s.head.2 = s.pos := by
  cases s <;> rfl

mutual

theorem heads_phrase : ∀ (p : Phrase) (around : List Statement),
    heads p.word = (p.statement.places around).map (·.statement.head)
  | .tempo _ _, around => by
    simp only [Phrase.word, heads_cons, Draft.opening]
    rfl
  | .volume _ _, around => by
    simp only [Phrase.word, heads_cons, Draft.opening]
    rfl
  | .sequence keyword name opening body closing, around => by
    have hword : heads (Phrase.sequence keyword name opening body closing).word =
        (.sequence, keyword.1.pos) :: heads body.word := by
      simp [Phrase.word, heads_cons, heads_append, heads_nil, Draft.opening]
    rw [hword, heads_phrases body (_ :: around)]
    rfl
  | .repetition keyword left count right opening body closing, around => by
    have hword : heads (Phrase.repetition keyword left count right opening body closing).word =
        (.repetition, keyword.1.pos) :: heads body.word := by
      simp [Phrase.word, heads_cons, heads_append, heads_nil, Draft.opening]
    rw [hword, heads_phrases body (_ :: around)]
    rfl
  | .note _ _, around => by
    simp only [Phrase.word, heads_cons, Draft.opening]
    rfl

/-- **Statements stand where the tokens stand that open them**, each before those of its block. -/
theorem heads_phrases : ∀ (ps : Phrases) (around : List Statement),
    heads ps.word = (blockPlaces around ps.statements).map (·.statement.head)
  | .nil, _ => rfl
  | .cons head comma tail, around => by
    have hcomma : heads (commaWord comma) = [] := by
      cases comma with
      | none => rfl
      | some comma => exact heads_cons comma []
    rw [Phrases.word, heads_append, heads_append, hcomma, heads_phrase head around,
      heads_phrases tail around, Phrases.statements, blockPlaces, List.map_append, List.nil_append]

end

theorem pos_of_mem_places {ps : Phrases} {score : Score} (h : ps.statements = score.statements)
    {p : Place} (hp : p ∈ score.places) : ∃ t ∈ ps.word, p.statement.pos = t.pos := by
  have hmem : p.statement.head ∈ heads ps.word := by
    rw [heads_phrases ps [], h]
    exact List.mem_map_of_mem hp
  simp only [heads, List.mem_map, List.mem_filter] at hmem
  obtain ⟨t, ⟨ht, -⟩, heq⟩ := hmem
  exact ⟨t, ht, by rw [← Statement.snd_head, ← heq]⟩

theorem in_of_mem_tokens {ts : List Token} (h : (Reading.of source).tokens = .ok ts) {t : Token}
    (ht : t ∈ ts) : t.pos.In source := by
  obtain ⟨x, hx, htoken⟩ := exists_of_mem_tokens h ht
  rw [(Lexeme.token_eq_ok_iff.mp htoken).2.2]
  exact (Cursor.on_ofSource source).reading.1 x hx

theorem in_of_ofSource_eq_error {fault : Fault} (h : Score.ofSource source = .error fault) :
    fault.pos.In source := by
  obtain ⟨hlexemes, hstop⟩ := (Cursor.on_ofSource source).reading
  have hmem : fault.pos ∈ (Reading.of source).stop :: (Reading.of source).lexemes.map Lexeme.pos :=
    Draft.pos_of_run_eq_error h
  rw [List.mem_cons, List.mem_map] at hmem
  rcases hmem with hpos | ⟨x, hx, hpos⟩
  · exact hpos ▸ hstop
  · exact hpos ▸ hlexemes x hx

theorem in_of_voices_eq_error {now : Float} {settings : Settings} {fault : Fault}
    (h : (Performance.ofSource source now).voices settings = .error fault) :
    fault.pos.In source := by
  unfold Performance.ofSource at h
  cases hscore : Score.ofSource source with
  | error fault' =>
    rw [hscore] at h
    cases h
    exact in_of_ofSource_eq_error hscore
  | ok score =>
    rw [hscore] at h
    obtain ⟨ts, hts, haccepts⟩ := ofSource_eq_ok_iff_accepts.mp hscore
    obtain ⟨ps, rfl, -, hstatements⟩ := (empty_accepts_iff (isRead_of_mem_tokens hts)).mp haccepts
    obtain ⟨p, hp, cause, rfl⟩ := exists_place_of_voices_eq_error h
    obtain ⟨t, ht, hpos⟩ := pos_of_mem_places hstatements hp
    rw [hpos]
    exact in_of_mem_tokens hts ht

/-- **Places tell the truth.** Whenever a cursor is called on a text, the lexeme that it returns
stands behind as many line feeds, and characters behind the last of them, as its place says, and
the line of that number goes on with it there; the end stands behind the last line. Every fault
stands in the text. -/
theorem places_match_lines (source : String) :
    (∀ k : Nat, match ((Cursor.ofSource source).after k).next with
      | (some x, c) => x.Spans ∧ ∃ front, source.toList = front ++ (x.text.toList ++ c.rest) ∧
          x.pos = .after front ∧
          x.text.toList <+: (lineAt source x.pos.line).toList.drop (x.pos.column - 1)
      | (none, c) => c.pos = .after source.toList ∧ c.pos.line = lineCount source ∧
          (lineAt source c.pos.line).toList.drop (c.pos.column - 1) = []) ∧
    (∀ fault, Score.ofSource source = .error fault → fault.pos.In source) ∧
    ∀ now settings fault, (Performance.ofSource source now).voices settings = .error fault →
      fault.pos.In source := by
  refine ⟨fun k => ?_, fun _ => in_of_ofSource_eq_error, fun _ _ _ => in_of_voices_eq_error⟩
  have hc := (Cursor.on_ofSource source).after k
  split
  · rename_i x c hnext
    have hmove := ((Cursor.ofSource source).after k).move_next
    rw [hnext] at hmove
    obtain ⟨front, htext, hpos, -⟩ := hc.next_some hnext
    refine ⟨?_, front, htext, hpos, ?_⟩
    · cases hmove with
      | item _ hshape => exact Lexeme.spans_of_shape hshape
    · rw [hpos, drop_lineAt_after htext, List.takeWhile_append_of_pos]
      · exact List.prefix_append _ _
      · intro c hc
        have hfeed := Cursor.lineFeed_not_mem_of_next hnext
        simpa using fun heq : c = '\n' => hfeed (heq ▸ hc)
  · rename_i c hnext
    have hend : source.toList = source.toList ++ [] := (List.append_nil _).symm
    rw [hc.next_none hnext]
    refine ⟨rfl, ?_, ?_⟩
    · rw [lineCount, length_lines, Position.after, Nat.add_comm]
    · rw [drop_lineAt_after hend, List.takeWhile_nil]

end Melody

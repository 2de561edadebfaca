import Mathlib.Data.List.TakeWhile
import Melody.Lexeme

/-!
# What a lexeme is made of

The reader of lexemes against a description of gaps and items that does not run.

* `Gap`: blanks and comments; **`gap_splitGap`**: what is split off is a gap;
  **`splitGap_gap_append`**: a gap is split off;
* `Item.Shape`: the characters that go with each verdict; **`Item.shape_first`**;
* `Lexeme.token_eq_ok_iff`, `Lexeme.token_eq_error_iff`: the token or fault that a lexeme is;
* `Cursor.Move`: all that one step of a cursor can do; **`Cursor.move_next`**.
-/

namespace Melody

/-- Blanks and comments, each comment with the line feed that ends it. The last gap of a text may
end within a comment. -/
inductive Gap (last : Bool) : List Char → Prop
  | nil : Gap last []
  | blank {c : Char} {cs : List Char} : Text.isBlank c = true → Gap last cs → Gap last (c :: cs)
  | comment {body cs : List Char} : '\n' ∉ body → Gap last cs →
      Gap last ('/' :: '/' :: (body ++ '\n' :: cs))
  | openComment {body : List Char} : last = true → '\n' ∉ body → Gap last ('/' :: '/' :: body)

/-- The rest of a comment and the gap behind it. -/
def GapInComment (last : Bool) (cs : List Char) : Prop :=
  (∃ body rest, '\n' ∉ body ∧ cs = body ++ '\n' :: rest ∧ Gap last rest) ∨
    (last = true ∧ '\n' ∉ cs)

theorem GapInComment.cons {last : Bool} {c : Char} {cs : List Char} (hc : c ≠ '\n')
    (h : GapInComment last cs) : GapInComment last (c :: cs) := by
  rcases h with ⟨body, rest, hbody, rfl, hrest⟩ | ⟨hlast, hcs⟩
  · exact .inl ⟨c :: body, rest, by simp [hbody, Ne.symm hc], rfl, hrest⟩
  · exact .inr ⟨hlast, by simp [hcs, Ne.symm hc]⟩

/-- The second slash of a comment is not the line feed that ends it. -/
theorem GapInComment.gap {last : Bool} {cs : List Char} (h : GapInComment last ('/' :: cs)) :
    Gap last ('/' :: '/' :: cs) := by
  rcases h with ⟨body, rest, hbody, heq, hrest⟩ | ⟨hlast, hcs⟩
  · cases body with
    | nil => simp at heq
    | cons b body =>
      simp only [List.cons_append, List.cons.injEq] at heq
      rw [heq.2]
      exact .comment (fun h => hbody (List.mem_cons_of_mem _ h)) hrest
  · exact .openComment hlast fun h => hcs (List.mem_cons_of_mem _ h)

theorem exists_cons_of_opensComment {cs : List Char} (h : opensComment cs = true) :
    ∃ ds, cs = '/' :: '/' :: ds := by
  unfold opensComment at h
  split at h
  · exact ⟨_, rfl⟩
  · cases h

theorem gap_splitGap_aux (inComment : Bool) (cs : List Char) :
    if inComment then
      GapInComment (splitGap inComment cs).2.isEmpty (splitGap inComment cs).1
    else Gap (splitGap inComment cs).2.isEmpty (splitGap inComment cs).1 := by
  fun_induction splitGap inComment cs with
  | case1 inComment =>
    cases inComment
    · exact .nil
    · exact .inr ⟨rfl, by simp⟩
  | case2 c cs gap rest heq ih =>
    rw [heq] at ih
    rw [if_pos rfl]
    by_cases hc : c = '\n'
    · subst hc
      exact .inl ⟨[], gap, by simp, rfl, by simpa using ih⟩
    · rw [if_pos (by simpa using hc)] at ih
      exact ih.cons hc
  | case3 inComment c cs hin hblank gap rest heq ih =>
    rw [heq] at ih
    rw [if_neg hin]
    exact .blank hblank (by simpa using ih)
  | case4 inComment c cs hin hblank hopen gap rest heq ih =>
    rw [if_neg hin]
    obtain ⟨ds, hds⟩ := exists_cons_of_opensComment hopen
    obtain ⟨rfl, rfl⟩ := List.cons.inj hds
    rw [heq, if_pos rfl] at ih
    obtain ⟨gap', rfl⟩ : ∃ gap', gap = '/' :: gap' := by
      have := congrArg Prod.fst heq
      simp only [splitGap, if_true] at this
      exact ⟨_, this.symm⟩
    exact ih.gap
  | case5 inComment c cs hin hblank hopen =>
    rw [if_neg hin]
    exact .nil

/-- **What is split off at the front of a text is a gap**, the last one if nothing is left. -/
theorem gap_splitGap (cs : List Char) :
    Gap (splitGap false cs).2.isEmpty (splitGap false cs).1 := by
  simpa using gap_splitGap_aux false cs

theorem splitGap_slash_slash (cs : List Char) : splitGap false ('/' :: '/' :: cs) =
    ('/' :: '/' :: (splitGap true cs).1, (splitGap true cs).2) := by
  have hslash : Text.isBlank '/' = false := by decide
  simp [splitGap, opensComment, hslash]

theorem splitGap_comment {body : List Char} (hbody : '\n' ∉ body) (cs : List Char) :
    splitGap true (body ++ '\n' :: cs) =
      (body ++ '\n' :: (splitGap false cs).1, (splitGap false cs).2) := by
  induction body with
  | nil => simp [splitGap]
  | cons c body ih =>
    rw [List.mem_cons, not_or] at hbody
    have hc : (c != '\n') = true := by simpa using Ne.symm hbody.1
    simp [splitGap, hc, ih hbody.2]

theorem splitGap_openComment {body : List Char} (hbody : '\n' ∉ body) :
    splitGap true body = (body, []) := by
  induction body with
  | nil => rfl
  | cons c body ih =>
    rw [List.mem_cons, not_or] at hbody
    have hc : (c != '\n') = true := by simpa using Ne.symm hbody.1
    simp [splitGap, hc, ih hbody.2]

/-- **A gap at the front of a text is part of what is split off.** -/
theorem splitGap_gap_append {last : Bool} {gap : List Char} (h : Gap last gap) {rest : List Char}
    (hlast : last = true → rest = []) : splitGap false (gap ++ rest) =
      (gap ++ (splitGap false rest).1, (splitGap false rest).2) := by
  induction h with
  | nil => rfl
  | blank hblank _ ih => simp [splitGap, hblank, ih]
  | comment hbody _ ih =>
    rw [List.cons_append, List.cons_append, List.append_assoc, List.cons_append,
      splitGap_slash_slash, splitGap_comment hbody, ih]
    simp
  | openComment htrue hbody =>
    obtain rfl := hlast htrue
    rw [List.append_nil, splitGap_slash_slash, splitGap_openComment hbody]
    simp [splitGap]

/-! ## Items -/

/-- The characters that go with each verdict. -/
inductive Item.Shape : Except LexicalCause TokenKind → List Char → Prop
  | note {c : Char} {a : Accidental} {digits : List Char} : isPitchLetter c = true →
      (∀ d ∈ digits, d.isDigit = true) → digits ≠ [] →
      Shape (.ok .note) (c :: (a.symbol ++ digits))
  | missingOctave {c : Char} {a : Accidental} : isPitchLetter c = true → a ≠ .natural →
      Shape (.error .missingOctave) (c :: a.symbol)
  | word {c : Char} {cs : List Char} : isWordChar c = true → (∀ d ∈ cs, isWordChar d = true) →
      Shape (.ok (wordKind (c :: cs))) (c :: cs)
  | number {c : Char} {cs : List Char} : c.isDigit = true → (∀ d ∈ cs, isNumberChar d = true) →
      Shape (.ok .number) (c :: cs)
  | sign {c : Char} {kind : TokenKind} : sign? c = some kind → Shape (.ok kind) [c]
  | unrecognized {c : Char} : sign? c = none → Shape (.error (.unrecognized c)) [c]

namespace Item

/-- What makes a pitch letter a note, and is no digit, is an accidental. -/
theorem accidental_ne_natural {cs : List Char} (hcs : cs.head?.any continuesNote = true)
    (hdigits : (Accidental.read cs).2.takeWhile Char.isDigit = []) :
    (Accidental.read cs).1 ≠ .natural := by
  revert hdigits
  fun_cases Accidental.read cs with
  | case1 | case2 => simp
  | case3 hsharp hflat =>
    intro hdigits
    cases cs with
    | nil => cases hcs
    | cons c cs =>
      have hdigit : c.isDigit = false := by simpa using hdigits
      simp_all [continuesNote]

theorem shape_note {c : Char} (hc : isPitchLetter c = true) {cs : List Char}
    (hcs : cs.head?.any continuesNote = true) : Shape (note c cs).verdict (note c cs).text := by
  have hdigits : ∀ d ∈ (Accidental.read cs).2.takeWhile Char.isDigit, d.isDigit = true :=
    fun d hd => List.mem_takeWhile_imp hd
  by_cases hempty : (Accidental.read cs).2.takeWhile Char.isDigit = []
  · simp only [note, hempty, List.isEmpty_nil, if_true, List.append_nil]
    exact .missingOctave hc (accidental_ne_natural hcs hempty)
  · simp only [note, List.isEmpty_iff, hempty, if_false]
    exact .note hc hdigits hempty

/-- **The item at the front of a text has the characters that go with its verdict.** -/
theorem shape_first (c : Char) (cs : List Char) : Shape (first c cs).verdict (first c cs).text := by
  unfold first
  split
  · rename_i h
    obtain ⟨hc, hcs⟩ := Bool.and_eq_true_iff.mp h
    exact shape_note hc hcs
  · split
    · rename_i h
      exact .word h fun d hd => List.mem_takeWhile_imp hd
    · split
      · rename_i h
        exact .number h fun d hd => List.mem_takeWhile_imp hd
      · simp only [sign]
        split
        · exact .sign ‹_›
        · exact .unrecognized ‹_›

theorem Shape.ne_nil {verdict : Except LexicalCause TokenKind} {cs : List Char}
    (h : Shape verdict cs) : cs ≠ [] := by
  cases h <;> simp

theorem wordKind_ne_note (word : List Char) : wordKind word ≠ .note := by
  unfold wordKind
  split <;> simp

theorem sign?_ne_note (c : Char) : sign? c ≠ some .note := by
  unfold sign?
  split <;> simp

theorem Shape.of_note {cs : List Char} (h : Shape (.ok .note) cs) :
    ∃ (c : Char) (a : Accidental) (digits : List Char), cs = c :: (a.symbol ++ digits) ∧
      isPitchLetter c = true ∧ (∀ d ∈ digits, d.isDigit = true) ∧ digits ≠ [] := by
  generalize hv : (.ok .note : Except LexicalCause TokenKind) = v at h
  cases h with
  | note hc hdigits hne => exact ⟨_, _, _, rfl, hc, hdigits, hne⟩
  | word => exact absurd (Except.ok.inj hv).symm (wordKind_ne_note _)
  | sign hc => exact absurd (hc.trans (congrArg some (Except.ok.inj hv).symm)) (sign?_ne_note _)
  | missingOctave | number | unrecognized => cases hv

end Item

namespace Lexeme

variable {x : Lexeme}

theorem token_eq_ok_iff {t : Token} :
    x.token = .ok t ↔ x.verdict = .ok t.kind ∧ t.text = x.text ∧ t.pos = x.pos := by
  obtain ⟨kind, text, pos⟩ := t
  unfold token
  cases x.verdict with
  | error cause => simp
  | ok kind' =>
    simp only [Except.ok.injEq, Token.mk.injEq]
    exact and_congr_right fun _ => and_congr eq_comm eq_comm

theorem token_eq_error_iff {fault : Fault} :
    x.token = .error fault ↔
      ∃ cause, x.verdict = .error cause ∧ fault = ⟨x.pos, .lexical cause⟩ := by
  unfold token
  cases x.verdict with
  | ok kind => simp
  | error cause => simp [eq_comm]

end Lexeme

/-! ## One step of a cursor -/

/-- All that one step can do: reach the end behind the last gap, or pass a gap and an item. -/
inductive Cursor.Move (c : Cursor) : Option Lexeme × Cursor → Prop
  | stop : Gap true c.rest → Move c (none, ⟨[], c.pos.advance c.rest⟩)
  | item {gap : List Char} {x : Lexeme} {rest : List Char} : Gap false gap →
      Item.Shape x.verdict x.text.toList → x.pos = c.pos.advance gap →
      c.rest = gap ++ (x.text.toList ++ rest) →
      Move c (some x, ⟨rest, x.pos.advance x.text.toList⟩)

/-- **A step of a cursor stops at the end or passes a gap and an item.** -/
theorem Cursor.move_next (c : Cursor) : c.Move c.next := by
  have happend := splitGap_append false c.rest
  have hgap := gap_splitGap c.rest
  unfold next skipGap
  split
  · rename_i pos heq
    simp only [Cursor.mk.injEq] at heq
    obtain ⟨hrest, rfl⟩ := heq
    rw [hrest, List.append_nil] at happend
    rw [hrest, happend] at hgap
    rw [happend]
    exact .stop hgap
  · rename_i ch chs pos heq
    simp only [Cursor.mk.injEq] at heq
    obtain ⟨hrest, hpos⟩ := heq
    rw [hrest] at happend hgap
    have hitem := Item.first_append ch chs
    have hshape := Item.shape_first ch chs
    generalize Item.first ch chs = item at hitem hshape
    have hmove : c.Move (some ⟨item.verdict, .ofList item.text, pos⟩,
        ⟨item.rest, pos.advance (String.ofList item.text).toList⟩) :=
      .item hgap (by simpa using hshape) hpos.symm (by simpa [hitem] using happend.symm)
    simpa only [String.toList_ofList] using hmove

end Melody

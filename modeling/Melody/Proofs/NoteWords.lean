import Melody.Proofs.Ordering
import Melody.Proofs.Resumption
import Melody.Proofs.Writing

/-!
# How notes are written

A note is written as a letter, a sign or none, and digits. This is recognised twice, when lexemes
are read and when notes are split. Both agree on every word with a capital. Words with a small
letter are tokens as well, but they do not split, and are refused wherever a note could stand.

* `Spelling.Writes`: a text with the parts that it is written with;
  **`Spelling.split?_iff_writes`**, `Spelling.Writes.unique`;
* `isSome_split?_iff`: the words that split are those with a capital that are read as notes;
* `Draft.feed_eq_invalidNote_iff`: a word that is no note where a note can stand;
* `Reading.Begins`, `NoteFits`: tokens at the front of a reading, and a note that could follow;
  `exists_draft_of_viable`: what becomes of a token behind viable ones;
* **`note_words_agree`**: splitting is unique, agrees with reading, and fails on small letters only.
-/

namespace Melody

/-- The letter and the sign of a spelling, and digits behind them. -/
structure Spelling.Writes (s : Spelling) (digits cs : List Char) : Prop where
  eq_append : cs = s.letter.toChar :: (s.accidental.symbol ++ digits)
  ne_nil : digits ≠ []
  isDigit : ∀ d ∈ digits, IsDigit d

namespace Spelling

variable {s s' : Spelling} {cs digits digits' : List Char}

theorem isOctave_iff : isOctave digits = true ↔ digits ≠ [] ∧ ∀ d ∈ digits, IsDigit d := by
  simp [isOctave, isDigit_iff]

/-- **A text is split into the parts that it is written with**, and only if there are any. -/
theorem split?_iff_writes : split? cs = some (s, digits) ↔ s.Writes digits cs := by
  constructor
  · intro h
    cases cs with
    | nil => cases h
    | cons c cs =>
      unfold split? at h
      cases hletter : Letter.ofChar? c with
      | none => simp [hletter] at h
      | some letter =>
        have happend := Accidental.symbol_append_read cs
        obtain rfl := Letter.ofChar?_eq_some_iff.mp hletter
        simp only [hletter, Option.ite_none_right_eq_some, Option.some.injEq] at h
        obtain ⟨hoctave, h⟩ := h
        cases h
        obtain ⟨hne, hdigits⟩ := isOctave_iff.mp hoctave
        exact ⟨congrArg _ happend.symm, hne, hdigits⟩
  · rintro ⟨rfl, hne, hdigits⟩
    have hread := s.accidental.read_symbol_append
      (fun d hd => (isDigit_iff d).mpr (hdigits d hd)) hne
    simp [split?, hread, isOctave_iff.mpr ⟨hne, hdigits⟩]

example : Spelling.split? "Bb2".toList = some (⟨.b, .flat⟩, ['2']) := rfl

theorem Writes.unique (h : s.Writes digits cs) (h' : s'.Writes digits' cs) :
    s = s' ∧ digits = digits' := by
  have hsplit := (split?_iff_writes.mpr h).symm.trans (split?_iff_writes.mpr h')
  simpa using hsplit

end Spelling

/-! ## Reading and splitting -/

theorem Letter.exists_toChar_iff {c : Char} (hc : c ∈ pitchLetters) :
    (∃ l : Letter, c = l.toChar) ↔ c.isUpper = true := by
  have hall : pitchLetters.all (fun c => (ofChar? c).isSome == c.isUpper) = true := by decide
  have hcase := beq_iff_eq.mp (List.all_eq_true.mp hall c hc)
  rw [← hcase, Option.isSome_iff_exists]
  exact exists_congr fun l => ofChar?_eq_some_iff.symm

theorem Letter.toChar_mem_pitchLetters (l : Letter) : l.toChar ∈ pitchLetters := by
  cases l <;> decide

/-- The word begins with a capital. -/
def BeginsUpper (text : String) : Prop := ∃ c ∈ text.toList.head?, c.isUpper = true

/-- **The words that split are those with a capital that are read as notes.** -/
theorem isSome_split?_iff {t : Token} (ht : t.kind = .note) :
    (Spelling.split? t.text.toList).isSome = true ↔ t.Legible ∧ BeginsUpper t.text := by
  rw [Token.legible_note_iff ht, Option.isSome_iff_exists, Prod.exists]
  simp only [Spelling.split?_iff_writes, BeginsUpper]
  constructor
  · rintro ⟨s, digits, htext, hne, hdigits⟩
    have hmem := s.letter.toChar_mem_pitchLetters
    exact ⟨⟨_, _, digits, htext, hmem, hne, hdigits⟩, s.letter.toChar, by simp [htext],
      (Letter.exists_toChar_iff hmem).mp ⟨s.letter, rfl⟩⟩
  · rintro ⟨⟨c, a, digits, htext, hmem, hne, hdigits⟩, c', hc', hupper⟩
    obtain rfl : c = c' := by simpa [htext] using hc'
    obtain ⟨l, rfl⟩ := (Letter.exists_toChar_iff hmem).mpr hupper
    exact ⟨⟨l, a⟩, digits, htext, hne, hdigits⟩

theorem Cursor.legible_of_verdict {c : Cursor} {x : Lexeme} (hx : x ∈ c.reading.lexemes)
    {kind : TokenKind} (hkind : x.verdict = .ok kind) : Token.Legible ⟨kind, x.text, x.pos⟩ :=
  c.legible_of_mem_reading hx (Lexeme.token_eq_ok_iff.mpr ⟨hkind, rfl, rfl⟩)

theorem Token.Legible.lexemes_eq {kind : TokenKind} {text : String}
    (h : Token.Legible ⟨kind, text, .start⟩) :
    (Reading.of text).lexemes = [⟨.ok kind, text, .start⟩] := by
  have hdetached : Detached [] := nofun
  have hnext := Cursor.next_gap_append h .nil hdetached .start
  have hend := Cursor.next_gap .nil (Position.start.advance text.toList)
  rw [List.nil_append, List.append_nil] at hnext
  rw [Reading.of, Cursor.ofSource, Cursor.reading_of_next_some hnext]
  exact congrArg (_ :: ·) (congrArg Reading.lexemes (Cursor.reading_of_next_none hend))

/-! ## What is no note -/

namespace Draft

variable {d d' : Draft} {t : Token}

/-- A token that opens a statement is only taken where a statement may begin. -/
theorem exists_of_feed_opening (ht : .token t.kind ∈ opening) (h : d.feed t = .ok d') :
    ∃ comma, d.awaiting = .statement comma ∧ d.feedStatement comma t = .ok d' := by
  obtain ⟨awaiting, done, frames⟩ := d
  cases awaiting with
  | statement comma => exact ⟨comma, rfl, h⟩
  | detail x =>
    -- no detail opens a statement
    simp only [feed] at h
    split at h
    · rename_i hkind
      rw [hkind] at ht
      cases x <;> simp [opening, Detail.kind] at ht
    · cases h

theorem takes_note_iff : d.Takes (.token .note) ↔ ∃ comma, d.awaiting = .statement comma := by
  constructor
  · rintro ⟨d', hd'⟩
    obtain ⟨comma, hcomma, -⟩ := exists_of_feed_opening (by decide) hd'
    exact ⟨comma, hcomma⟩
  · obtain ⟨awaiting, done, frames⟩ := d
    rintro ⟨comma, rfl⟩
    exact takes_opening comma done frames _ (by decide)

theorem takes_note_of_feed (ht : t.kind = .note) (h : d.feed t = .ok d') :
    d.Takes (.token .note) := by
  obtain ⟨comma, hcomma, -⟩ := exists_of_feed_opening (by rw [ht]; decide) h
  exact takes_note_iff.mpr ⟨comma, hcomma⟩

/-- A word that cannot be split is no note, wherever a note could stand. -/
theorem feed_eq_invalidNote_iff {text : String} :
    d.feed t = .error (.invalidNote text) ↔ d.Takes (.token .note) ∧ t.kind = .note ∧
      t.text = text ∧ Spelling.split? t.text.toList = none := by
  rw [takes_note_iff]
  constructor
  · intro h
    obtain ⟨expected, hcause⟩ | ⟨-, cause', hcause⟩ | ⟨hkind, hcause⟩ := feed_eq_error h
    · cases hcause
    · cases hcause
    · cases hcause
      obtain ⟨awaiting, done, frames⟩ := d
      cases awaiting with
      | statement comma =>
        simp only [feed, feedStatement, hkind] at h
        cases hsplit : Spelling.split? t.text.toList with
        | none => exact ⟨⟨comma, rfl⟩, hkind, rfl, rfl⟩
        | some parts => simp [hsplit] at h
      | detail x =>
        simp only [feed, hkind] at h
        cases x <;> cases h
  · rintro ⟨⟨comma, hcomma⟩, hkind, rfl, hsplit⟩
    simp only [feed, hcomma, feedStatement, hkind, hsplit]

end Draft

/-- Some word can stand behind the tokens as a note. -/
def NoteFits (ts : List Token) : Prop :=
  ∃ t : Token, t.kind = .note ∧ Viable ((ts ++ [t]).map Token.mark)

theorem noteFits_iff_takes {ts : List Token} {d : Draft} (hts : ∀ t ∈ ts, t.Legible)
    (hd : ts.foldlM Draft.feed .empty = .ok d) : NoteFits ts ↔ d.Takes (.token .note) := by
  constructor
  · rintro ⟨t, ht, hviable⟩
    obtain ⟨d', hd'⟩ := exists_foldlM_of_viable hviable
    rw [Draft.foldlM_feed_concat hd] at hd'
    exact Draft.takes_note_of_feed ht hd'
  · intro htakes
    obtain ⟨text, hviable⟩ := exists_viable_of_takes hts hd htakes .start
    exact ⟨⟨.note, text, .start⟩, rfl, by simpa [Token.mark] using hviable⟩

theorem NoteFits.viable {ts : List Token} (h : NoteFits ts) : Viable (ts.map Token.mark) := by
  obtain ⟨t, -, hviable⟩ := h
  rw [List.map_append] at hviable
  exact hviable.of_append

/-- The tokens stand at the front of the reading. -/
def Reading.Begins (r : Reading) (ts : List Token) : Prop := ts.map Token.mark <+: r.marks

section Begins

variable {c : Cursor} {ts : List Token} {t : Token}

theorem Reading.Begins.legible (h : c.reading.Begins ts) : ∀ t ∈ ts, t.Legible := fun t ht => by
  obtain ⟨x, hx, htoken⟩ := exists_of_mark_mem (h.subset (List.mem_map_of_mem ht))
  exact c.legible_of_mem_reading hx htoken

theorem Reading.begins_concat_iff {r : Reading} :
    r.Begins (ts ++ [t]) ↔ ∃ rest, r.marks = ts.map Token.mark ++ t.mark :: rest := by
  simp [Begins, List.IsPrefix, eq_comm]

/-- A token behind viable ones keeps them viable or is refused, as the draft of those goes on; no
other fault is at its place. -/
theorem exists_draft_of_viable (hbegins : c.reading.Begins (ts ++ [t]))
    (hviable : Viable (ts.map Token.mark)) : ∃ d, ts.foldlM Draft.feed .empty = .ok d ∧
      (Viable ((ts ++ [t]).map Token.mark) ↔ ∃ d', d.feed t = .ok d') ∧ ∀ cause,
        c.reading.takeScore.1 = .error ⟨t.pos, .grammatical cause⟩ ↔ d.feed t = .error cause := by
  obtain ⟨d, hd⟩ := exists_foldlM_of_viable hviable
  obtain ⟨rest, hmarks⟩ := Reading.begins_concat_iff.mp hbegins
  refine ⟨d, hd, ?_, fun cause => ⟨fun h => ?_, Draft.run_of_refused hmarks hd⟩⟩
  · rw [viable_marks_iff hbegins.legible, Draft.foldlM_feed_concat hd]
  · obtain ⟨ts', m, rest', d', hmarks', hd', hrefuses, hpos⟩ := refuses_of_run_eq_error h
    obtain ⟨hts, hm⟩ := eq_of_pos_eq c.pairwise_before_marks hmarks' hmarks hpos
    obtain rfl := List.map_injective_iff.mpr Token.mark_injective hts
    obtain rfl : d = d' := Except.ok.inj (hd.symm.trans hd')
    cases hrefuses with
    | token hfeed =>
      rw [← Token.mark_injective hm]
      exact hfeed
    | ending hclose => simp [Mark.ending, Token.mark] at hm

end Begins

/-- A small pitch letter at the front of a word. -/
def BeginsLower (text : String) : Prop :=
  ∃ c ∈ text.toList.head?, c ∈ pitchLetters ∧ c.isLower = true

theorem split?_eq_none_iff {t : Token} (ht : t.kind = .note) (hlegible : t.Legible) :
    Spelling.split? t.text.toList = none ↔ BeginsLower t.text := by
  have hall : pitchLetters.all (fun c => c.isLower == !c.isUpper) = true := by decide
  rw [← Option.not_isSome_iff_eq_none, isSome_split?_iff ht]
  obtain ⟨c, a, digits, htext, hmem, -⟩ := (Token.legible_note_iff ht).mp hlegible
  have hcase := beq_iff_eq.mp (List.all_eq_true.mp hall c hmem)
  simp [hlegible, BeginsUpper, BeginsLower, htext, hmem, hcase]

/-- **A word is said to be no note iff it is one with a small letter where a note fits.** -/
theorem takeScore_eq_invalidNote_iff {c : Cursor} {pos : Position} {text : String} :
    c.reading.takeScore.1 = .error ⟨pos, .grammatical (.invalidNote text)⟩ ↔
      ∃ ts, c.reading.Begins (ts ++ [⟨.note, text, pos⟩]) ∧ NoteFits ts ∧ BeginsLower text := by
  constructor
  · intro h
    obtain ⟨ts, m, rest, d, hmarks, hd, hrefuses, rfl⟩ := refuses_of_run_eq_error h
    cases hrefuses with
    | @token t hfeed =>
      obtain ⟨htakes, hkind, rfl, hsplit⟩ := Draft.feed_eq_invalidNote_iff.mp hfeed
      obtain ⟨_, text, pos⟩ := t
      cases hkind
      have hbegins := Reading.begins_concat_iff.mpr ⟨rest, hmarks⟩
      have hlegible := List.forall_mem_append.mp hbegins.legible
      exact ⟨ts, hbegins, (noteFits_iff_takes hlegible.1 hd).mpr htakes,
        (split?_eq_none_iff rfl (hlegible.2 _ List.mem_cons_self)).mp hsplit⟩
    | ending hclose =>
      -- at the end of a text there is no word
      obtain ⟨expected, hcause⟩ := Draft.close_eq_error hclose
      cases hcause
  · rintro ⟨ts, hbegins, hfits, hlower⟩
    obtain ⟨d, hd, -, hrefused⟩ := exists_draft_of_viable hbegins hfits.viable
    have hlegible := List.forall_mem_append.mp hbegins.legible
    have htakes := (noteFits_iff_takes hlegible.1 hd).mp hfits
    have hsplit := (split?_eq_none_iff rfl (hlegible.2 _ List.mem_cons_self)).mpr hlower
    exact (hrefused _).mpr (Draft.feed_eq_invalidNote_iff.mpr ⟨htakes, rfl, rfl, hsplit⟩)

/-- **Splitting is unique and agrees with reading.** A text splits into the parts that it is
written with, which are unique. Among the words that are read as notes, those with a capital split,
and each word that splits is read as a note, and as nothing more. So the only words that are said
to be no notes are those with a small letter, where a note could have stood. -/
theorem note_words_agree :
    (∀ cs s digits, Spelling.split? cs = some (s, digits) ↔ s.Writes digits cs) ∧
    (∀ cs s s' digits digits', Spelling.Writes s digits cs → Spelling.Writes s' digits' cs →
      s = s' ∧ digits = digits') ∧
    (∀ (c : Cursor) (x : Lexeme), x ∈ c.reading.lexemes → x.verdict = .ok .note →
      ((Spelling.split? x.text.toList).isSome = true ↔ BeginsUpper x.text)) ∧
    (∀ text : String, (Spelling.split? text.toList).isSome = true →
      (Reading.of text).lexemes = [⟨.ok .note, text, .start⟩]) ∧
    ∀ (c : Cursor) (pos : Position) (text : String),
      c.reading.takeScore.1 = .error ⟨pos, .grammatical (.invalidNote text)⟩ ↔
        ∃ ts, c.reading.Begins (ts ++ [⟨.note, text, pos⟩]) ∧ NoteFits ts ∧ BeginsLower text := by
  refine ⟨fun _ _ _ => Spelling.split?_iff_writes, fun _ _ _ _ _ => Spelling.Writes.unique,
    fun c x hx hkind => ?_, fun text hsplit => ?_, fun _ _ _ => takeScore_eq_invalidNote_iff⟩
  · have hsplit := isSome_split?_iff (t := ⟨.note, x.text, x.pos⟩) rfl
    exact hsplit.trans (and_iff_right (c.legible_of_verdict hx hkind))
  · exact ((isSome_split?_iff (t := ⟨.note, text, .start⟩) rfl).mp hsplit).1.lexemes_eq

end Melody

import Mathlib.Algebra.Group.Nat.Defs
import Melody.Proofs.NoteWords

/-!
# The numbers of a score

Tempos, loudnesses and counts are written as numbers of any length, and so are octaves. A number
that is not made of digits, or is too large, is refused where it stands; only for an octave the
largest number stands in. So every number of a score is the one that is written.

* `Asks`: tokens behind which a number is wanted; `Asks.lacksNumber`;
* `IsFigure`: a number that fits; `viable_number`: which numbers are taken, and which refused;
* `viable_capital`: a note with a capital is never refused for its digits;
* `figures`, `Score.figures`: the numbers of tokens and of a score; `figures_phrases`;
* **`numbers_kept`**: numbers keep their values or are refused, and octaves are capped.
-/

namespace Melody

variable {source : String} {ts : List Token} {t : Token} {d : Draft}

/-- Behind these tokens comes the number of a statement: a tempo, a loudness, or a count in its
parenthesis. -/
inductive Asks : List Token → Prop
  | setting {ts : List Token} {k : Token} : k.kind = .tempo ∨ k.kind = .volume → Asks (ts ++ [k])
  | count {ts : List Token} {k left : Token} : k.kind = .repetition → left.kind = .parenOpen →
    Asks (ts ++ [k] ++ [left])

namespace Draft

theorem exists_foldlM_of_concat {d d' : Draft} (h : (ts ++ [t]).foldlM feed d = .ok d') :
    ∃ e, ts.foldlM feed d = .ok e ∧ e.feed t = .ok d' := by
  obtain ⟨e, he, -⟩ := exists_foldlM_of_append h
  exact ⟨e, he, (foldlM_feed_concat he).symm.trans h⟩

/-- A keyword is only taken where a statement may begin, and then its detail is lacking. -/
theorem eq_lacking_of_feed {d d' : Draft} {x : Detail} (ht : .token t.kind ∈ opening)
    (hx : ∀ comma, d.feedStatement comma t = .ok (d.lacking x)) (h : d.feed t = .ok d') :
    d' = d.lacking x := by
  obtain ⟨comma, -, hfeed⟩ := exists_of_feed_opening ht h
  exact Except.ok.inj (hfeed.symm.trans (hx comma))

/-- The statement at work lacks a number, and it is not a length. -/
def LacksNumber (d : Draft) : Prop :=
  ∃ pos, d.awaiting = .detail (.bpm pos) ∨ d.awaiting = .detail (.percent pos) ∨
    d.awaiting = .detail (.count pos)

theorem LacksNumber.exists_feed (h : d.LacksNumber) :
    ∃ next : UInt32 → Draft, ∀ t : Token, t.kind = .number → d.feed t = (number t).map next := by
  obtain ⟨pos, h | h | h⟩ := h <;>
    exact ⟨_, fun t ht => by simp only [feed, h, ht, Detail.kind, if_true, feedDetail]; rfl⟩

theorem Takes.exists_feed_note (h : d.Takes (.token .note)) (ht : t.kind = .note)
    (hsplit : (Spelling.split? t.text.toList).isSome = true) : ∃ d', d.feed t = .ok d' := by
  obtain ⟨comma, hcomma⟩ := takes_note_iff.mp h
  obtain ⟨parts, hparts⟩ := Option.isSome_iff_exists.mp hsplit
  simp only [feed, hcomma, feedStatement, ht, hparts]
  exact ⟨_, rfl⟩

theorem exists_unexpected_note (h : ¬ d.Takes (.token .note)) (ht : t.kind = .note) :
    ∃ expected, d.feed t = .error (.unexpected expected (.token .note)) := by
  cases hfeed : d.feed t with
  | ok d' => exact absurd (takes_note_of_feed ht hfeed) h
  | error cause =>
    obtain ⟨expected, rfl⟩ | ⟨hkind, -⟩ | ⟨-, rfl⟩ := feed_eq_error hfeed
    · exact ⟨expected, by rw [ht]⟩
    · rw [ht] at hkind
      cases hkind
    · exact absurd (feed_eq_invalidNote_iff.mp hfeed).1 h

end Draft

theorem Asks.lacksNumber (h : Asks ts) (hd : ts.foldlM Draft.feed .empty = .ok d) :
    d.LacksNumber := by
  cases h with
  | @setting ts k hk =>
    obtain ⟨e, -, he⟩ := Draft.exists_foldlM_of_concat hd
    rcases hk with hk | hk
    · have hlacking := Draft.eq_lacking_of_feed (x := .bpm k.pos) (by rw [hk]; decide)
        (fun comma => by simp only [Draft.feedStatement, hk]) he
      exact ⟨k.pos, .inl (congrArg Draft.awaiting hlacking)⟩
    · have hlacking := Draft.eq_lacking_of_feed (x := .percent k.pos) (by rw [hk]; decide)
        (fun comma => by simp only [Draft.feedStatement, hk]) he
      exact ⟨k.pos, .inr (.inl (congrArg Draft.awaiting hlacking))⟩
  | @count ts k left hk hleft =>
    obtain ⟨e, hts, he⟩ := Draft.exists_foldlM_of_concat hd
    obtain ⟨e', -, he'⟩ := Draft.exists_foldlM_of_concat hts
    have hlacking := Draft.eq_lacking_of_feed (x := .countOpen k.pos) (by rw [hk]; decide)
      (fun comma => by simp only [Draft.feedStatement, hk]) he'
    have hleft' : e.feed left = .ok (e.lacking (.count k.pos)) := by
      simp only [Draft.feed, hlacking, Draft.lacking, hleft, Detail.kind, if_true, Draft.feedDetail]
    obtain rfl := Except.ok.inj (hleft'.symm.trans he)
    exact ⟨k.pos, .inr (.inr rfl)⟩

/-! ## Which numbers are taken -/

/-- A word of digits whose value is at most the largest number of 32 bits. -/
def IsFigure (text : String) : Prop :=
  (∀ c ∈ text.toList, IsDigit c) ∧ Numeral.value text.toList ≤ 2 ^ 32 - 1

theorem isNumeral_iff_isFigure (ht : t.Legible) : t.IsNumeral ↔ IsFigure t.text := by
  have hne := ht.isRead.text_ne
  have hsize : ∀ v, v < UInt32.size ↔ v ≤ 2 ^ 32 - 1 := fun v => Nat.lt_iff_le_pred (by decide)
  simp only [Token.IsNumeral, IsFigure, hne, not_false_eq_true, ne_eq, true_and, isDigit_iff,
    Token.value, hsize]

section Reached

variable (hbegins : (Reading.of source).Begins (ts ++ [t])) (hviable : Viable (ts.map Token.mark))

include hbegins hviable

/-- **Where a number is wanted, it is taken iff it is a figure**, and else refused for its value. -/
theorem viable_number (hasks : Asks ts) (ht : t.kind = .number) :
    (Viable ((ts ++ [t]).map Token.mark) ↔ IsFigure t.text) ∧ ((∃ cause,
      Score.ofSource source = .error ⟨t.pos, .grammatical (.invalidNumber cause)⟩) ↔
        ¬ IsFigure t.text) := by
  obtain ⟨d, hd, hviable', hrefused⟩ := exists_draft_of_viable hbegins hviable
  obtain ⟨next, hnext⟩ := (hasks.lacksNumber hd).exists_feed
  have hlegible : t.Legible := hbegins.legible t (by simp)
  have hfault : ∀ cause, Score.ofSource source = .error ⟨t.pos, .grammatical cause⟩ ↔
      (Draft.number t).map next = .error cause := fun cause => hnext t ht ▸ hrefused cause
  simp only [hviable', hfault, hnext t ht, ← isNumeral_iff_isFigure hlegible]
  by_cases hnumeral : t.IsNumeral
  · rw [hnumeral.number_eq]
    exact ⟨iff_of_true ⟨_, rfl⟩ hnumeral, iff_of_false nofun (not_not_intro hnumeral)⟩
  · cases hnumber : Draft.number t with
    | ok n => exact absurd ((number_eq_ok_iff hlegible.isRead.text_ne n).mp hnumber).1 hnumeral
    | error cause =>
      have hmap : (Draft.number t).map next = .error cause := by
        rw [hnumber]
        rfl
      obtain ⟨cause', rfl⟩ := Draft.invalidNumber_of_map_number hmap
      exact ⟨iff_of_false nofun hnumeral, iff_of_true ⟨cause', rfl⟩ hnumeral⟩

/-- **A note with a capital is taken wherever a note fits**, whatever its digits; elsewhere it is
refused as any note would be. -/
theorem viable_capital (ht : t.kind = .note) (hupper : BeginsUpper t.text) :
    (Viable ((ts ++ [t]).map Token.mark) ↔ NoteFits ts) ∧ ∀ cause,
      Score.ofSource source = .error ⟨t.pos, .grammatical cause⟩ →
        ¬ NoteFits ts ∧ ∃ expected, cause = .unexpected expected (.token .note) := by
  obtain ⟨d, hd, hviable', hrefused⟩ := exists_draft_of_viable hbegins hviable
  have hlegible := List.forall_mem_append.mp hbegins.legible
  have hsplit := (isSome_split?_iff ht).mpr ⟨hlegible.2 t List.mem_cons_self, hupper⟩
  have htakes : (∃ d', d.feed t = .ok d') ↔ d.Takes (.token .note) :=
    ⟨fun ⟨_, hfeed⟩ => Draft.takes_note_of_feed ht hfeed, fun h => h.exists_feed_note ht hsplit⟩
  rw [hviable', noteFits_iff_takes hlegible.1 hd]
  refine ⟨htakes, fun cause hfault => ?_⟩
  have hfeed := (hrefused cause).mp hfault
  have hnot : ¬ d.Takes (.token .note) := by
    rw [← htakes]
    rintro ⟨d', hd'⟩
    exact nomatch hfeed.symm.trans hd'
  obtain ⟨expected, hexpected⟩ := Draft.exists_unexpected_note hnot ht
  exact ⟨hnot, expected, Except.error.inj (hfeed.symm.trans hexpected)⟩

end Reached

/-! ## The numbers of a score -/

/-- The number that is written for a statement that a token of some kind opens: that of the next
token, or of the one behind the parenthesis, or the capped number of the digits of a note. -/
def figureOf? : TokenKind → Token → List Token → Option Nat
  | .tempo, _, u :: _ => some (Numeral.value u.text.toList)
  | .volume, _, u :: _ => some (Numeral.value u.text.toList)
  | .repetition, _, _ :: u :: _ => some (Numeral.value u.text.toList)
  | .note, t, _ => some (min (Numeral.value (t.text.toList.filter Char.isDigit)) (2 ^ 32 - 1))
  | _, _, _ => none

/-- The numbers that are written, each with the token that opens its statement. -/
def figures : List Token → List ((TokenKind × Position) × Nat)
  | [] => []
  | t :: ts => ((figureOf? t.kind t ts).map ((t.kind, t.pos), ·)).toList ++ figures ts

/-- The number that a statement holds, besides a length. -/
def Statement.number? : Statement → Option UInt32
  | .tempo _ bpm => some bpm
  | .volume _ percent => some percent
  | .sequence _ _ _ => none
  | .repetition _ count _ => some count
  | .note n => some n.octave

/-- The number that a statement holds, with the token that opens it. -/
def Statement.figure? (s : Statement) : Option ((TokenKind × Position) × Nat) :=
  s.number?.map fun n => (s.head, n.toNat)

/-- The numbers of a score, one statement after the other. -/
def Score.figures (score : Score) : List ((TokenKind × Position) × Nat) :=
  score.listing.filterMap (·.2.figure?)

theorem Token.IsNumeral.toNat_ofNat (h : t.IsNumeral) :
    (UInt32.ofNat t.value).toNat = Numeral.value t.text.toList :=
  UInt32.toNat_ofNat_of_lt h.2.2

theorem Token.toNat_octave (t : Token) : t.octave.toNat =
    min (Numeral.value (t.text.toList.filter Char.isDigit)) (2 ^ 32 - 1) :=
  UInt32.toNat_ofNat_of_lt (Nat.lt_of_le_of_lt (Nat.min_le_right _ _) (by decide))

theorem figures_cons {kind : TokenKind} (k : Leaf kind) (ts : List Token) : figures (k.1 :: ts) =
    ((figureOf? kind k.1 ts).map ((kind, k.1.pos), ·)).toList ++ figures ts := by
  rw [figures, k.2]

theorem figures_comma (comma : Option (Leaf .comma)) (ts : List Token) :
    figures (commaWord comma ++ ts) = figures ts := by
  cases comma with
  | none => rfl
  | some comma => exact figures_cons comma ts

-- Of the tokens of a statement, the one that opens it has the number; those behind it have none, so
-- that only the tokens of its block go on.
mutual

theorem figures_phrase : ∀ (p : Phrase) (depth : Nat) (rest : List Token), p.Valued →
    figures (p.word ++ rest) =
      (p.statement.listing depth).filterMap (·.2.figure?) ++ figures rest
  | .tempo keyword bpm, depth, rest, hp => by
    simp only [Phrase.word, List.cons_append, List.nil_append, figures_cons, figureOf?]
    rw [← Token.IsNumeral.toNat_ofNat hp]
    rfl
  | .volume keyword percent, depth, rest, hp => by
    simp only [Phrase.word, List.cons_append, List.nil_append, figures_cons, figureOf?]
    rw [← Token.IsNumeral.toNat_ofNat hp]
    rfl
  | .sequence keyword name opening body closing, depth, rest, hp => by
    have hbody := figures_phrases body (depth + 1) (closing.1 :: rest) hp
    simp only [Phrase.word, List.cons_append, List.nil_append, List.append_assoc, figures_cons,
      figureOf?, hbody]
    rfl
  | .repetition keyword left count right opening body closing, depth, rest, hp => by
    have hbody := figures_phrases body (depth + 1) (closing.1 :: rest) hp.2
    simp only [Phrase.word, List.cons_append, List.nil_append, List.append_assoc, figures_cons,
      figureOf?, hbody]
    rw [← Token.IsNumeral.toNat_ofNat hp.1]
    rfl
  | .note pitch length, depth, rest, hp => by
    simp only [Phrase.word, List.cons_append, List.nil_append, figures_cons, figureOf?]
    rw [← Token.toNat_octave]
    rfl

theorem figures_phrases : ∀ (ps : Phrases) (depth : Nat) (rest : List Token), ps.Valued →
    figures (ps.word ++ rest) =
      (blockListing depth ps.statements).filterMap (·.2.figure?) ++ figures rest
  | .nil, _, _, _ => rfl
  | .cons head comma tail, depth, rest, hps => by
    rw [Phrases.word, List.append_assoc, List.append_assoc, figures_phrase head depth _ hps.1,
      figures_comma, figures_phrases tail depth rest hps.2, Phrases.statements, blockListing,
      List.filterMap_append, List.append_assoc]

end

/-- **The numbers of a score are those that are written.** -/
theorem figures_eq {score : Score} (h : Score.ofSource source = .ok score) :
    ∃ ts, (Reading.of source).tokens = .ok ts ∧ score.figures = figures ts := by
  obtain ⟨ts, hts, haccepts⟩ := ofSource_eq_ok_iff_accepts.mp h
  obtain ⟨ps, rfl, hps, hstatements⟩ := (empty_accepts_iff (isRead_of_mem_tokens hts)).mp haccepts
  have hfigures := figures_phrases ps 0 [] hps
  rw [List.append_nil, hstatements] at hfigures
  exact ⟨ps.word, hts, by rw [hfigures, Score.figures, Score.listing]; simp [figures]⟩

example : figures [⟨.tempo, "tempo", ⟨1, 1⟩⟩, ⟨.number, "0090", ⟨1, 7⟩⟩,
    ⟨.note, "C99999999999", ⟨2, 1⟩⟩, ⟨.number, "1/4", ⟨2, 14⟩⟩] =
      [((.tempo, ⟨1, 1⟩), 90), ((.note, ⟨2, 1⟩), 4294967295)] := by
  decide

/-- **Numbers keep their values or are refused.** Where the number of a tempo, a loudness or a count
is wanted, a text can go on with a number iff this consists of digits and its value fits into 32
bits; any other number is refused where it stands, for its value. A note with a capital is taken
wherever a note fits, whatever its digits, and elsewhere it is refused as any note would be. If the
text stands for a score, then the numbers of its statements are the values that are written, and the
octaves are the values of the digits of their notes, or the largest number of 32 bits. -/
theorem numbers_kept (source : String) :
    (∀ ts t, (Reading.of source).Begins (ts ++ [t]) → Viable (ts.map Token.mark) →
      Asks ts → t.kind = .number →
        (Viable ((ts ++ [t]).map Token.mark) ↔ IsFigure t.text) ∧ ((∃ cause,
          Score.ofSource source = .error ⟨t.pos, .grammatical (.invalidNumber cause)⟩) ↔
            ¬ IsFigure t.text)) ∧
    (∀ ts t, (Reading.of source).Begins (ts ++ [t]) → Viable (ts.map Token.mark) →
      t.kind = .note → BeginsUpper t.text →
        (Viable ((ts ++ [t]).map Token.mark) ↔ NoteFits ts) ∧ ∀ cause,
          Score.ofSource source = .error ⟨t.pos, .grammatical cause⟩ →
            ¬ NoteFits ts ∧ ∃ expected, cause = .unexpected expected (.token .note)) ∧
    ∀ score, Score.ofSource source = .ok score →
      ∃ ts, (Reading.of source).tokens = .ok ts ∧ score.figures = figures ts :=
  ⟨fun _ _ => viable_number, fun _ _ => viable_capital, fun _ => figures_eq⟩

end Melody

import Melody.Proofs.Locating
import Melody.Proofs.Unplaced

/-!
# Reading goes on where it stopped

A score is taken off a reading again and again, whatever came of it before. Each call starts at a
place of the text, and makes of the text from there on what it would make of it as a whole text,
with the places counted on from there.

* `Position.shift`: the place in a text that begins elsewhere;
  **`takeScore_reading`**: a call from some place on;
* `Cursor.Faces`: a lexeme at a cursor; `Resumes`: where the next call starts;
  **`exists_resumes`**: a call leaves what is read from there;
* `Reading.left`, `Reading.outcome`: what is left after so many calls, and what the next one gives;
* **`calls_resume`**: all calls on a text.
-/

namespace Melody

/-- The place `q` of a text whose first character stands at `p`. -/
def Position.shift (p q : Position) : Position :=
  ⟨p.line + (q.line - 1), if q.line = 1 then p.column + (q.column - 1) else q.column⟩

/-- Line and column are counted from one. -/
structure Position.Counted (q : Position) : Prop where
  line_pos : 1 ≤ q.line
  column_pos : 1 ≤ q.column

namespace Position

variable {p q : Position}

theorem counted_start : start.Counted := ⟨le_rfl, le_rfl⟩

theorem Counted.next (h : q.Counted) (c : Char) : (q.next c).Counted := by
  unfold Position.next
  split
  · exact ⟨Nat.le_add_left .., le_rfl⟩
  · exact ⟨h.line_pos, Nat.le_add_left ..⟩

theorem Counted.advance (h : q.Counted) (cs : List Char) : (q.advance cs).Counted := by
  induction cs generalizing q with
  | nil => exact h
  | cons c cs ih => exact ih (h.next c)

@[simp] theorem shift_start (p : Position) : p.shift .start = p := rfl

theorem shift_next (h : q.Counted) (c : Char) : p.shift (q.next c) = (p.shift q).next c := by
  obtain ⟨hline, hcolumn⟩ := h
  unfold Position.next
  by_cases hc : c = '\n'
  · rw [if_pos hc, if_pos hc, shift, shift, if_neg (by dsimp only; omega), mk.injEq]
    dsimp only
    omega
  · rw [if_neg hc, if_neg hc, shift, shift, mk.injEq]
    refine ⟨rfl, ?_⟩
    dsimp only
    split <;> omega

theorem shift_advance (h : q.Counted) (cs : List Char) :
    p.shift (q.advance cs) = (p.shift q).advance cs := by
  induction cs generalizing q with
  | nil => rfl
  | cons c cs ih => rw [advance_cons, advance_cons, ih (h.next c), shift_next h]

end Position

section Relocation

variable (f : Position → Position)

/-- The lexeme, standing elsewhere. -/
def Lexeme.relocate (x : Lexeme) : Lexeme := { x with pos := f x.pos }

/-- The reading of a text that stands elsewhere. -/
def Reading.relocate (r : Reading) : Reading := ⟨r.lexemes.map (Lexeme.relocate f), f r.stop⟩

/-- What a call gives, with other places. -/
def relocateOutcome : Except Fault Score → Except Fault Score
  | .ok score => .ok (score.relocate f)
  | .error fault => .error (fault.relocate f)

theorem Lexeme.token_relocate (x : Lexeme) :
    (x.relocate f).token = (x.token.map (Token.relocate f)).mapError (Fault.relocate f) := by
  obtain ⟨verdict, text, pos⟩ := x
  cases verdict <;> rfl

theorem Draft.run_relocate (stop : Position) (xs : List Lexeme) (d : Draft) :
    (d.relocate f).run (f stop) (xs.map (Lexeme.relocate f)) =
      (relocateOutcome f (d.run stop xs).1, (d.run stop xs).2.map (Lexeme.relocate f)) := by
  induction xs generalizing d with
  | nil =>
    rw [List.map_nil, run, run, close_relocate]
    cases d.close <;> rfl
  | cons x xs ih =>
    rw [List.map_cons, run, run, Lexeme.token_relocate]
    cases x.token with
    | error fault => rfl
    | ok t =>
      dsimp only [Except.map, Except.mapError]
      rw [feed_relocate]
      cases d.feed t with
      | ok d' => exact ih d'
      | error cause => cases cause <;> rfl

theorem Reading.takeScore_relocate (r : Reading) : (r.relocate f).takeScore =
    (relocateOutcome f r.takeScore.1, r.takeScore.2.relocate f) := by
  have hrun := Draft.run_relocate f r.stop r.lexemes .empty
  have hempty : Draft.empty.relocate f = .empty := rfl
  rw [hempty] at hrun
  simp only [takeScore, relocate, hrun]

end Relocation

namespace Cursor

/-- The cursor in a text that begins at `p`. -/
def shift (p : Position) (c : Cursor) : Cursor := ⟨c.rest, p.shift c.pos⟩

theorem next_shift {c : Cursor} (h : c.pos.Counted) (p : Position) :
    (c.shift p).next = (c.next.1.map (Lexeme.relocate p.shift), c.next.2.shift p) := by
  cases hsplit : splitGap false c.rest with
  | mk gap rest =>
    cases rest with
    | nil =>
      rw [next_of_splitGap_nil hsplit, next_of_splitGap_nil (c := c.shift p) hsplit]
      simp [shift, Position.shift_advance h]
    | cons ch chs =>
      rw [next_of_splitGap_cons hsplit, next_of_splitGap_cons (c := c.shift p) hsplit]
      simp [shift, Lexeme.relocate, Position.shift_advance h,
        Position.shift_advance (h.advance gap)]

theorem counted_next {c : Cursor} (h : c.pos.Counted) : c.next.2.pos.Counted := by
  cases hsplit : splitGap false c.rest with
  | mk gap rest =>
    cases rest with
    | nil =>
      rw [next_of_splitGap_nil hsplit]
      exact h.advance gap
    | cons ch chs =>
      rw [next_of_splitGap_cons hsplit]
      exact (h.advance gap).advance _

theorem reading_shift {c : Cursor} (h : c.pos.Counted) (p : Position) :
    (c.shift p).reading = c.reading.relocate p.shift := by
  induction c using Cursor.reading.induct with
  | case1 c c' hnext =>
    have hshift := next_shift h p
    rw [hnext] at hshift
    rw [reading_of_next_none hnext, reading_of_next_none hshift]
    rfl
  | case2 c x c' hnext ih =>
    have hshift := next_shift h p
    have hcounted := counted_next h
    rw [hnext] at hshift hcounted
    rw [reading_of_next_some hnext, reading_of_next_some hshift, ih hcounted]
    rfl

end Cursor

/-- **A call from some place on** gives what it gives on the text from there, with the places
counted on from there. -/
theorem takeScore_reading (c : Cursor) : c.reading.takeScore.1 =
    relocateOutcome c.pos.shift (Score.ofSource (.ofList c.rest)) := by
  have hreading : c.reading = (Reading.of (.ofList c.rest)).relocate c.pos.shift := by
    have hcursor : (Cursor.ofSource (.ofList c.rest)).shift c.pos = c := by
      rw [Cursor.ofSource, String.toList_ofList, Cursor.shift, Position.shift_start]
    rw [Reading.of, ← Cursor.reading_shift Position.counted_start, hcursor]
  rw [hreading, Reading.takeScore_relocate, Score.ofSource]

/-! ## Where the next call starts -/

/-- The lexeme `x` stands at the cursor, in the text, and `c'` is right behind it. -/
structure Cursor.Faces (source : String) (c : Cursor) (x : Lexeme) (c' : Cursor) : Prop where
  on : c.On source
  pos : c.pos = x.pos
  next : c.next = (some x, c')
  rest : c.rest = x.text.toList ++ c'.rest

/-- The cursor at the end of the text. -/
def Cursor.atEnd (source : String) : Cursor := ⟨[], .after source.toList⟩

/-- Where the next call starts: at the end behind a score, at a token or an end that could not stand
there, and right behind everything else that is at fault. -/
inductive Resumes (source : String) : Except Fault Score → Cursor → Prop
  | score {score : Score} : Resumes source (.ok score) (.atEnd source)
  | unexpectedToken {c c' : Cursor} {x : Lexeme} {kind : TokenKind} {expected : List Terminal} :
    c.Faces source x c' → x.verdict = .ok kind →
    Resumes source (.error ⟨x.pos, .grammatical (.unexpected expected (.token kind))⟩) c
  | unexpectedEnd {expected : List Terminal} : Resumes source
      (.error ⟨(Cursor.atEnd source).pos, .grammatical (.unexpected expected .ending)⟩)
      (.atEnd source)
  | invalidNumber {c c' : Cursor} {x : Lexeme} {cause : NumeralCause} : c.Faces source x c' →
    x.verdict = .ok .number →
    Resumes source (.error ⟨x.pos, .grammatical (.invalidNumber cause)⟩) c'
  | invalidNote {c c' : Cursor} {x : Lexeme} : c.Faces source x c' → x.verdict = .ok .note →
    Resumes source (.error ⟨x.pos, .grammatical (.invalidNote x.text)⟩) c'
  | lexical {c c' : Cursor} {x : Lexeme} {cause : LexicalCause} : c.Faces source x c' →
    x.verdict = .error cause → Resumes source (.error ⟨x.pos, .lexical cause⟩) c'

theorem Resumes.eq_atEnd {source : String} {score : Score} {c : Cursor}
    (h : Resumes source (.ok score) c) : c = .atEnd source := by
  cases h
  rfl

theorem Cursor.on_atEnd (source : String) : (atEnd source).On source :=
  ⟨source.toList, (List.append_nil _).symm, rfl⟩

theorem Cursor.reading_atEnd (source : String) :
    (atEnd source).reading = ⟨[], .after source.toList⟩ :=
  reading_of_next_none (next_end _)

theorem Cursor.On.exists_faces {source : String} {c c' : Cursor} {x : Lexeme} (h : c.On source)
    (hnext : c.next = (some x, c')) : ∃ p : Cursor, p.Faces source x c' ∧ p.rest <:+ c.rest := by
  obtain ⟨front, htext, hpos, -⟩ := h.next_some hnext
  refine ⟨⟨x.text.toList ++ c'.rest, x.pos⟩, ⟨⟨front, htext, hpos⟩, rfl, ?_, rfl⟩, ?_⟩
  · -- there is no second gap behind the first
    have hgap := splitGap_rest c.rest
    cases hsplit : splitGap false c.rest with
    | mk gap rest =>
      rw [hsplit] at hgap
      cases rest with
      | nil =>
        rw [next_of_splitGap_nil hsplit] at hnext
        cases hnext
      | cons ch chs =>
        rw [next_of_splitGap_cons hsplit] at hnext
        cases hnext
        rw [String.toList_ofList, Item.first_append]
        exact next_of_splitGap_cons (c := ⟨ch :: chs, _⟩) hgap
  · have hmove := c.move_next
    rw [hnext] at hmove
    cases hmove with
    | item _ _ _ hrest => exact ⟨_, hrest.symm⟩

theorem Draft.close_eq_error {d : Draft} {cause : GrammaticalCause} (h : d.close = .error cause) :
    ∃ expected, cause = .unexpected expected .ending := by
  unfold close at h
  split at h <;> cases h
  · exact ⟨_, rfl⟩
  · exact ⟨_, rfl⟩

theorem Draft.invalidNumber_of_map_number {t : Token} {next : UInt32 → Draft}
    {cause : GrammaticalCause} (h : (number t).map next = .error cause) :
    ∃ cause', cause = .invalidNumber cause' := by
  unfold number at h
  cases hread : Numeral.read t.text with
  | ok n =>
    rw [hread] at h
    cases h
  | error cause' =>
    rw [hread] at h
    exact ⟨cause', (Except.error.inj h).symm⟩

/-- A draft refuses a token that is unexpected, a number without a value, or a note that cannot be
split. -/
theorem Draft.feed_eq_error {d : Draft} {t : Token} {cause : GrammaticalCause}
    (h : d.feed t = .error cause) :
    (∃ expected, cause = .unexpected expected (.token t.kind)) ∨
      (t.kind = .number ∧ ∃ cause', cause = .invalidNumber cause') ∨
        t.kind = .note ∧ cause = .invalidNote t.text := by
  obtain ⟨awaiting, done, frames⟩ := d
  cases awaiting with
  | statement comma =>
    simp only [feed, feedStatement] at h
    split at h <;> rename_i hkind
    · cases h
    · cases h
    · cases h
    · cases h
    · split at h <;> cases h
      exact .inr (.inr ⟨hkind, rfl⟩)
    · split at h <;> cases h
      exact .inl ⟨_, by rw [hkind]⟩
    · split at h <;> cases h
      exact .inl ⟨_, by rw [hkind]⟩
    · cases h
      exact .inl ⟨_, rfl⟩
  | detail x =>
    simp only [feed] at h
    split at h
    · rename_i hkind
      cases x with
      | bpm pos | percent pos | count pos =>
        exact .inr (.inl ⟨hkind, invalidNumber_of_map_number h⟩)
      | sequenceName pos | countOpen pos | countClose pos count | bodyOpen block => cases h
      | noteLength pos spelling octave => cases h
    · cases h
      exact .inl ⟨_, rfl⟩

theorem Draft.exists_resumes {source : String} {c : Cursor} (h : c.On source) (d : Draft) :
    ∃ c' : Cursor, c'.On source ∧ c'.rest <:+ c.rest ∧
      c'.reading = ⟨(d.run c.reading.stop c.reading.lexemes).2, c.reading.stop⟩ ∧
      Resumes source (d.run c.reading.stop c.reading.lexemes).1 c' := by
  induction c using Cursor.reading.induct generalizing d with
  | case1 c c' hnext =>
    rw [Cursor.reading_of_next_none hnext, h.next_none hnext, run]
    refine ⟨.atEnd source, Cursor.on_atEnd source, List.nil_suffix, Cursor.reading_atEnd source, ?_⟩
    cases hclose : d.close with
    | ok score => exact .score
    | error cause =>
      obtain ⟨expected, rfl⟩ := close_eq_error hclose
      exact .unexpectedEnd
  | case2 c x c' hnext ih =>
    obtain ⟨p, hp, hsuffix⟩ := h.exists_faces hnext
    obtain ⟨-, -, -, hc'⟩ := h.next_some hnext
    have hrest : c'.rest <:+ c.rest := (hp.rest ▸ List.suffix_append _ _).trans hsuffix
    rw [Cursor.reading_of_next_some hnext, run]
    dsimp only
    cases htoken : x.token with
    | error fault =>
      obtain ⟨cause, hverdict, rfl⟩ := Lexeme.token_eq_error_iff.mp htoken
      exact ⟨c', hc', hrest, rfl, .lexical hp hverdict⟩
    | ok t =>
      dsimp only
      cases hfeed : d.feed t with
      | ok d' =>
        obtain ⟨c'', hon, hrest', hreading, hresumes⟩ := ih hc' d'
        exact ⟨c'', hon, hrest'.trans hrest, hreading, hresumes⟩
      | error cause =>
        obtain ⟨hverdict, htext, hpos⟩ := Lexeme.token_eq_ok_iff.mp htoken
        rw [hpos]
        obtain ⟨expected, rfl⟩ | ⟨hkind, cause', rfl⟩ | ⟨hkind, rfl⟩ := feed_eq_error hfeed
        · exact ⟨p, hp.on, hsuffix, Cursor.reading_of_next_some hp.next,
            .unexpectedToken hp hverdict⟩
        · exact ⟨c', hc', hrest, rfl, .invalidNumber hp (hkind ▸ hverdict)⟩
        · rw [htext]
          exact ⟨c', hc', hrest, rfl, .invalidNote hp (hkind ▸ hverdict)⟩

/-- **A call leaves what is read from the place where the next one starts.** -/
theorem exists_resumes {source : String} {c : Cursor} (h : c.On source) :
    ∃ c' : Cursor, c'.On source ∧ c'.rest <:+ c.rest ∧ c'.reading = c.reading.takeScore.2 ∧
      Resumes source c.reading.takeScore.1 c' :=
  Draft.exists_resumes h .empty

/-! ## All calls -/

namespace Reading

/-- What is left of a reading after `k` calls. -/
def left (r : Reading) (k : Nat) : Reading := (fun r => r.takeScore.2)^[k] r

/-- What a call gives after `k` others. -/
def outcome (r : Reading) (k : Nat) : Except Fault Score := (r.left k).takeScore.1

variable (r : Reading) {j k : Nat}

theorem left_succ (k : Nat) : r.left (k + 1) = (r.left k).takeScore.2 :=
  Function.iterate_succ_apply' ..

theorem left_of_le (h : r.left (k + 1) = r.left k) (hj : k ≤ j) : r.left j = r.left k := by
  induction j, hj using Nat.le_induction with
  | base => rfl
  | succ j _ ih => rw [left_succ, ih, ← left_succ, h]

theorem outcome_of_le (h : r.left (k + 1) = r.left k) (hj : k ≤ j) :
    r.outcome j = r.outcome k := by
  rw [outcome, outcome, r.left_of_le h hj]

/-- A call keeps the place of the end, so that it leaves what it was given if no lexeme is taken. -/
theorem left_eq_of_lexemes (h : (r.left (k + 1)).lexemes = (r.left k).lexemes) :
    r.left (k + 1) = r.left k := by
  rw [left_succ] at h ⊢
  exact congrArg (Reading.mk · (r.left k).stop) h

theorem outcome_of_nil {stop : Position} (h : r.left k = ⟨[], stop⟩) (hj : k ≤ j) :
    r.outcome j = .ok ⟨[]⟩ := by
  have hfixed : r.left (k + 1) = r.left k := by
    rw [left_succ, h]
    rfl
  rw [r.outcome_of_le hfixed hj, outcome, h]
  rfl

end Reading

/-- **Reading goes on where it stopped.** Each call on a text gives what the text from some place on
gives as a whole text, with the places counted on from there. The first place is the start; behind a
score the next one is the end, so that all later scores are empty; behind a fault it is the token
that could not stand there, or right behind the token or the characters without a value. A call that
takes no lexeme is repeated for ever. -/
theorem calls_resume (source : String) :
    ∃ places : Nat → Cursor, places 0 = .ofSource source ∧ ∀ k,
      let r := Reading.of source
      (places k).On source ∧ (places (k + 1)).rest <:+ (places k).rest ∧
      r.outcome k =
        relocateOutcome (places k).pos.shift (Score.ofSource (.ofList (places k).rest)) ∧
      Resumes source (r.outcome k) (places (k + 1)) ∧
      (∀ score, r.outcome k = .ok score → ∀ j, k < j → r.outcome j = .ok ⟨[]⟩) ∧
      ((r.left (k + 1)).lexemes = (r.left k).lexemes →
        ∀ j, k ≤ j → r.outcome j = r.outcome k) := by
  have hexists : ∀ c : {c : Cursor // c.On source}, ∃ c' : {c : Cursor // c.On source},
      c'.1.rest <:+ c.1.rest ∧ c'.1.reading = c.1.reading.takeScore.2 ∧
        Resumes source c.1.reading.takeScore.1 c'.1 := by
    rintro ⟨c, hc⟩
    obtain ⟨c', hc', h⟩ := exists_resumes hc
    exact ⟨⟨c', hc'⟩, h⟩
  choose next hrest hreading hresumes using hexists
  let places : Nat → {c : Cursor // c.On source} :=
    fun k => next^[k] ⟨.ofSource source, Cursor.on_ofSource source⟩
  have hplaces : ∀ k, places (k + 1) = next (places k) := fun k => Function.iterate_succ_apply' ..
  -- what is left after `k` calls is what is read from the place with this number
  have hleft : ∀ k, (places k).1.reading = (Reading.of source).left k := by
    intro k
    induction k with
    | zero => rfl
    | succ k ih => rw [hplaces, hreading, ih, Reading.left_succ]
  refine ⟨fun k => (places k).1, rfl, fun k => ?_⟩
  intro r
  have houtcome : r.outcome k = (places k).1.reading.takeScore.1 := by rw [hleft, Reading.outcome]
  have hnext : Resumes source (r.outcome k) (places (k + 1)).1 := by
    rw [houtcome, hplaces]
    exact hresumes (places k)
  refine ⟨(places k).2, ?_, ?_, hnext, ?_, ?_⟩
  · dsimp only
    rw [hplaces]
    exact hrest (places k)
  · rw [houtcome, takeScore_reading]
  · intro score hscore j hj
    have hend : (places (k + 1)).1 = .atEnd source := by
      rw [hscore] at hnext
      exact hnext.eq_atEnd
    have hnil := hleft (k + 1)
    rw [hend, Cursor.reading_atEnd] at hnil
    exact r.outcome_of_nil hnil.symm hj
  · exact fun h j hj => r.outcome_of_le (r.left_eq_of_lexemes h) hj

end Melody

import Melody.Proofs.Acceptance
import Melody.Proofs.Relocation
import Melody.Proofs.Spacing

/-!
# Faults are found as early as possible

A row of tokens is viable if some text that stands for a score begins with it. A draft that has
taken all its tokens can always be completed, and what it refuses no text can go on with; so a
fault is at the first token without which the text could still have become a score.

* `Mark`, `Reading.marks`: what a reading consists of up to its end or its first lexical fault;
* `Viable`: the front of a text that stands for a score, whatever its gaps;
* `Draft.completable`: every draft can be completed by tokens that a text can have;
* `viable_marks_iff`, `viable_ending_iff`: viable is what the empty draft takes;
* `Draft.Refuses`: a mark that a draft cannot go on with; `takes_of_expected`: the terminals it
  names instead it does go on with;
* `refuses_of_run_eq_error`, `run_eq_lexical_iff`: where a run stops;
* **`ofSource_fault_earliest`**: a grammatical fault is at the first mark that is not viable, a
  lexical one behind viable tokens.
-/

namespace Melody

/-- A token, or the end of a text. -/
structure Mark where
  terminal : Terminal
  text : String
  pos : Position

namespace Mark

/-- The end of a text. -/
def ending (pos : Position) : Mark := ⟨.ending, "", pos⟩

/-- What stands at a mark, wherever it is. -/
def word (m : Mark) : Terminal × String := (m.terminal, m.text)

end Mark

/-- The mark of a token. -/
def Token.mark (t : Token) : Mark := ⟨.token t.kind, t.text, t.pos⟩

/-- The tokens of lexemes and the end at `stop`, or the tokens before the first lexeme that is
none. -/
def marksTo (stop : Position) : List Lexeme → List Mark
  | [] => [.ending stop]
  | x :: xs =>
    match x.token with
    | .ok t => t.mark :: marksTo stop xs
    | .error _ => []

/-- The tokens of a reading and its end, or the tokens before the first lexical fault. -/
def Reading.marks (r : Reading) : List Mark := marksTo r.stop r.lexemes

/-- A text that stands for a score begins with these tokens, or consists of them if the last mark
is an end. -/
def Viable (ms : List Mark) : Prop :=
  ∃ source score, Score.ofSource source = .ok score ∧
    ms.map Mark.word <+: (Reading.of source).marks.map Mark.word

theorem Viable.of_append {ms ns : List Mark} (h : Viable (ms ++ ns)) : Viable ms := by
  obtain ⟨source, score, hscore, hms⟩ := h
  rw [List.map_append] at hms
  exact ⟨source, score, hscore, (List.prefix_append _ _).trans hms⟩

theorem Viable.of_words {ms ns : List Mark} (h : Viable ms)
    (hwords : ns.map Mark.word = ms.map Mark.word) : Viable ns := by
  unfold Viable
  rw [hwords]
  exact h

theorem Token.mark_injective : Function.Injective Token.mark := by
  rintro ⟨kind, text, pos⟩ ⟨kind', text', pos'⟩ h
  simpa [mark] using h

theorem marksTo_of_forall₂ {stop : Position} {xs : List Lexeme} {ts : List Token}
    (h : List.Forall₂ (fun x t => x.token = .ok t) xs ts) :
    marksTo stop xs = ts.map Token.mark ++ [.ending stop] := by
  induction h with
  | nil => rfl
  | cons ht _ ih => rw [marksTo, ht, ih, List.map_cons, List.cons_append]

theorem exists_cons_of_marksTo {stop : Position} {xs : List Lexeme} {t : Token} {ms : List Mark}
    (h : marksTo stop xs = t.mark :: ms) : ∃ x ys, xs = x :: ys ∧ x.token = .ok t := by
  cases xs with
  | nil => simp [marksTo, Token.mark, Mark.ending] at h
  | cons x xs =>
    refine ⟨x, xs, rfl, ?_⟩
    unfold marksTo at h
    cases hx : x.token with
    | error fault =>
      rw [hx] at h
      cases h
    | ok u =>
      rw [hx, List.cons.injEq] at h
      rw [Token.mark_injective h.1]

theorem exists_of_mark_mem {stop : Position} {xs : List Lexeme} {t : Token}
    (h : t.mark ∈ marksTo stop xs) : ∃ x ∈ xs, x.token = .ok t := by
  induction xs with
  | nil => simp [marksTo, Token.mark, Mark.ending] at h
  | cons x xs ih =>
    unfold marksTo at h
    cases htoken : x.token with
    | error fault =>
      rw [htoken] at h
      cases h
    | ok u =>
      rw [htoken, List.mem_cons] at h
      rcases h with h | h
      · exact ⟨x, List.mem_cons_self, by rw [htoken, Token.mark_injective h]⟩
      · obtain ⟨y, hy, hyt⟩ := ih h
        exact ⟨y, List.mem_cons_of_mem _ hy, hyt⟩

theorem legible_of_mark_mem {source : String} {t : Token}
    (h : t.mark ∈ (Reading.of source).marks) : t.Legible := by
  obtain ⟨x, hx, ht⟩ := exists_of_mark_mem h
  exact Cursor.legible_of_mem_reading _ hx ht

/-! ## Every draft can be completed -/

/-- A word that a token of the kind can be written with. -/
def TokenKind.sample : TokenKind → String
  | .note => "C4"
  | .number => "1"
  | .ident => "x"
  | .tempo => "tempo"
  | .volume => "volume"
  | .repetition => "repeat"
  | .sequence => "sequence"
  | .parenOpen => "("
  | .parenClose => ")"
  | .braceOpen => "\x7b"
  | .braceClose => "\x7d"
  | .comma => ","

/-- The sample of a kind as a token. -/
def TokenKind.sampleToken (kind : TokenKind) : Token := ⟨kind, kind.sample, .start⟩

theorem TokenKind.legible_sampleToken (kind : TokenKind) : kind.sampleToken.Legible := by
  cases kind <;> exact ⟨_, _, rfl, rfl⟩

namespace Draft

/-- Tokens that a text can have carry the draft on to a score. -/
def Completable (d : Draft) : Prop :=
  ∃ rest, (∀ t ∈ rest, t.Legible) ∧ ∃ score, d.Accepts rest score

theorem Completable.of_feed {d d' : Draft} {k : TokenKind} (h : d'.Completable)
    (hfeed : d.feed k.sampleToken = .ok d') : d.Completable := by
  obtain ⟨rest, hrest, score, hscore⟩ := h
  exact ⟨k.sampleToken :: rest, List.forall_mem_cons.mpr ⟨k.legible_sampleToken, hrest⟩,
    score, (accepts_of_feed hfeed).mpr hscore⟩

/-- Where a statement may begin, the open blocks can be closed one after the other. -/
theorem completable_statement (comma : Bool) (done : List Statement) (frames : List Frame) :
    Completable ⟨.statement comma, done, frames⟩ := by
  induction frames generalizing comma done with
  | nil => exact ⟨[], nofun, _, accepts_nil.mpr ⟨rfl, rfl⟩⟩
  | cons frame frames ih => exact (ih true _).of_feed (k := .braceClose) rfl

theorem completable_detail (x : Detail) (done : List Statement) (frames : List Frame) :
    Completable ⟨.detail x, done, frames⟩ := by
  have hbody : ∀ block, Completable ⟨.detail (.bodyOpen block), done, frames⟩ := fun block =>
    (completable_statement _ _ _).of_feed (k := .braceOpen) rfl
  have hclose : ∀ pos count, Completable ⟨.detail (.countClose pos count), done, frames⟩ :=
    fun _ _ => (hbody _).of_feed (k := .parenClose) rfl
  have hcount : ∀ pos, Completable ⟨.detail (.count pos), done, frames⟩ := fun pos =>
    (hclose pos 1).of_feed (k := .number) rfl
  cases x with
  | bodyOpen block => exact hbody block
  | countClose pos count => exact hclose pos count
  | count pos => exact hcount pos
  | countOpen pos => exact (hcount pos).of_feed (k := .parenOpen) rfl
  | sequenceName pos => exact (hbody (.sequence pos "x")).of_feed (k := .ident) rfl
  | bpm pos | percent pos | noteLength pos spelling octave =>
    exact (completable_statement _ _ _).of_feed (k := .number) rfl

/-- **Every draft can be completed.** -/
theorem completable (d : Draft) : d.Completable := by
  obtain ⟨awaiting, done, frames⟩ := d
  cases awaiting with
  | statement comma => exact completable_statement comma done frames
  | detail x => exact completable_detail x done frames

end Draft

/-! ## What is viable -/

theorem marks_of_tokens {r : Reading} {ts : List Token} (h : r.tokens = .ok ts) :
    r.marks = ts.map Token.mark ++ [.ending r.stop] :=
  marksTo_of_forall₂ (mapM_token_eq_ok_iff.mp h)

theorem exists_of_mem_tokens {r : Reading} {ts : List Token} (h : r.tokens = .ok ts) {t : Token}
    (ht : t ∈ ts) : ∃ x ∈ r.lexemes, x.token = .ok t := by
  have hmark : t.mark ∈ r.marks := by
    rw [marks_of_tokens h]
    exact List.mem_append_left _ (List.mem_map_of_mem ht)
  exact exists_of_mark_mem hmark

/-- The word of a mark, for the word of a token. -/
def markWord (w : TokenKind × String) : Terminal × String := (.token w.1, w.2)

theorem map_word_mark (ts : List Token) :
    (ts.map Token.mark).map Mark.word = (ts.map Token.word).map markWord := by
  simp [Mark.word, Token.mark, markWord, Token.word]

theorem markWord_injective : Function.Injective markWord := by
  rintro ⟨kind, text⟩ ⟨kind', text'⟩ h
  simpa [markWord] using h

theorem Draft.foldlM_feed_of_words {ts us : List Token}
    (h : ts.map Token.word = us.map Token.word) :
    (ts.foldlM feed .empty).map (relocate fun _ => .start) =
      (us.foldlM feed .empty).map (relocate fun _ => .start) := by
  have hplace : ∀ vs : List Token, vs.map (Token.relocate fun _ => .start) =
      (vs.map Token.word).map fun w => ⟨w.1, w.2, .start⟩ := fun vs => by
    rw [List.map_map]
    rfl
  have hempty : Draft.empty.relocate (fun _ => .start) = .empty := rfl
  rw [← foldlM_feed_relocate, ← foldlM_feed_relocate, hplace, hplace, h]

theorem Draft.exists_foldlM_feed_of_words {ts us : List Token} {d : Draft}
    (h : ts.map Token.word = us.map Token.word) (hd : us.foldlM feed .empty = .ok d) :
    ∃ d', ts.foldlM feed .empty = .ok d' ∧
      d'.relocate (fun _ => .start) = d.relocate fun _ => .start := by
  have hwords := foldlM_feed_of_words h
  rw [hd] at hwords
  cases hts : ts.foldlM feed .empty with
  | error cause =>
    rw [hts] at hwords
    cases hwords
  | ok d' =>
    rw [hts] at hwords
    exact ⟨d', rfl, Except.ok.inj hwords⟩

theorem Draft.exists_accepts_of_words {ts us : List Token} {score : Score}
    (h : ts.map Token.word = us.map Token.word) (hscore : empty.Accepts us score) :
    ∃ score', empty.Accepts ts score' ∧
      score'.relocate (fun _ => .start) = score.relocate fun _ => .start := by
  obtain ⟨d, hd, hclose⟩ := hscore
  obtain ⟨d', hd', hplace⟩ := exists_foldlM_feed_of_words h hd
  have hclose' := d.close_relocate fun _ => .start
  rw [← hplace, close_relocate, hclose] at hclose'
  cases hscore' : d'.close with
  | error cause =>
    rw [hscore'] at hclose'
    cases hclose'
  | ok score' =>
    rw [hscore'] at hclose'
    exact ⟨score', ⟨d', hd', hscore'⟩, Except.ok.inj hclose'⟩

/-- Tokens that a text can have, and that the empty draft accepts, are the tokens of a text. -/
theorem viable_of_accepts {ts : List Token} (hts : ∀ t ∈ ts, t.Legible) {score : Score}
    (h : Draft.empty.Accepts ts score) (pos : Position) :
    Viable (ts.map Token.mark ++ [.ending pos]) := by
  obtain ⟨us, hus, hwords⟩ := tokens_spaced ts hts
  obtain ⟨score', hscore', -⟩ := Draft.exists_accepts_of_words hwords h
  refine ⟨_, score', ofSource_eq_ok_iff_accepts.mpr ⟨us, hus, hscore'⟩, ?_⟩
  rw [marks_of_tokens hus, List.map_append, List.map_append, map_word_mark, map_word_mark, hwords]
  exact List.prefix_rfl

theorem exists_accepts_of_viable {ms : List Mark} (h : Viable ms) :
    ∃ us score, Draft.empty.Accepts us score ∧
      ms.map Mark.word <+: (us.map Token.word).map markWord ++ [(.ending, "")] := by
  obtain ⟨source, score, hscore, hms⟩ := h
  obtain ⟨us, hus, haccepts⟩ := ofSource_eq_ok_iff_accepts.mp hscore
  rw [marks_of_tokens hus, List.map_append, map_word_mark] at hms
  exact ⟨us, score, haccepts, hms⟩

theorem ending_not_mem_map_markWord (ws : List (TokenKind × String)) (text : String) :
    (.ending, text) ∉ ws.map markWord := by
  simp [markWord]

theorem Draft.exists_foldlM_of_append {d d' : Draft} {ts us : List Token}
    (h : (ts ++ us).foldlM feed d = .ok d') :
    ∃ e, ts.foldlM feed d = .ok e ∧ us.foldlM feed e = .ok d' := by
  rw [List.foldlM_append] at h
  cases hts : ts.foldlM feed d with
  | error cause =>
    rw [hts] at h
    cases h
  | ok e =>
    rw [hts] at h
    exact ⟨e, rfl, h⟩

theorem Draft.foldlM_feed_concat {d d' : Draft} {ts : List Token} {t : Token}
    (h : ts.foldlM feed d = .ok d') : (ts ++ [t]).foldlM feed d = d'.feed t := by
  rw [List.foldlM_append, h]
  exact bind_pure (d'.feed t)

theorem exists_foldlM_of_viable {ts : List Token} (h : Viable (ts.map Token.mark)) :
    ∃ d, ts.foldlM Draft.feed .empty = .ok d := by
  obtain ⟨us, score, ⟨d, hd, -⟩, hfront⟩ := exists_accepts_of_viable h
  rw [map_word_mark, List.prefix_concat_iff] at hfront
  rcases hfront with hend | hfront
  · -- the end is no token
    have hmem := ending_not_mem_map_markWord (ts.map Token.word) ""
    rw [hend] at hmem
    simp at hmem
  · rw [List.prefix_map_iff_of_injective markWord_injective, List.prefix_map_iff] at hfront
    obtain ⟨vs, ⟨ws, rfl⟩, hwords⟩ := hfront
    obtain ⟨d', hd', -⟩ := Draft.exists_foldlM_of_append hd
    obtain ⟨d'', hd'', -⟩ := Draft.exists_foldlM_feed_of_words hwords hd'
    exact ⟨d'', hd''⟩

/-- **Tokens of a text are viable iff the empty draft takes them.** -/
theorem viable_marks_iff {ts : List Token} (hts : ∀ t ∈ ts, t.Legible) :
    Viable (ts.map Token.mark) ↔ ∃ d, ts.foldlM Draft.feed .empty = .ok d := by
  refine ⟨exists_foldlM_of_viable, ?_⟩
  rintro ⟨d, hd⟩
  obtain ⟨rest, hrest, score, d', hd', hclose⟩ := d.completable
  have haccepts : Draft.empty.Accepts (ts ++ rest) score := by
    refine ⟨d', ?_, hclose⟩
    rw [List.foldlM_append, hd]
    exact hd'
  have hviable := viable_of_accepts (List.forall_mem_append.mpr ⟨hts, hrest⟩) haccepts .start
  rw [List.map_append, List.append_assoc] at hviable
  exact hviable.of_append

theorem viable_ending_iff {ts : List Token} (hts : ∀ t ∈ ts, t.Legible) {pos : Position} :
    Viable (ts.map Token.mark ++ [.ending pos]) ↔ ∃ score, Draft.empty.Accepts ts score := by
  constructor
  · intro h
    obtain ⟨us, score, haccepts, hfront⟩ := exists_accepts_of_viable h
    rw [List.map_append, map_word_mark, List.prefix_concat_iff] at hfront
    rcases hfront with heq | hfront
    · have hwords := (List.append_inj' heq rfl).1
      obtain ⟨score', hscore', -⟩ := Draft.exists_accepts_of_words
        (List.map_injective_iff.mpr markWord_injective hwords) haccepts
      exact ⟨score', hscore'⟩
    · -- no token is the end
      have hmem : (Mark.ending pos).word ∈ (us.map Token.word).map markWord :=
        hfront.subset (by simp)
      exact absurd hmem (ending_not_mem_map_markWord _ _)
  · rintro ⟨score, haccepts⟩
    exact viable_of_accepts hts haccepts pos

/-! ## What a draft cannot go on with -/

namespace Draft

/-- The draft cannot go on with a mark for this cause. -/
inductive Refuses (d : Draft) (cause : GrammaticalCause) : Mark → Prop
  | token {t : Token} (h : d.feed t = .error cause) : d.Refuses cause t.mark
  | ending {pos : Position} (h : d.close = .error cause) : d.Refuses cause (.ending pos)

/-- The draft can go on with some token of a kind, or can end. -/
def Takes (d : Draft) : Terminal → Prop
  | .token kind => ∃ d', d.feed kind.sampleToken = .ok d'
  | .ending => ∃ score, d.close = .ok score

theorem takes_detail (x : Detail) (done : List Statement) (frames : List Frame) :
    (⟨.detail x, done, frames⟩ : Draft).Takes (.token x.kind) := by
  have hfeed : (⟨.detail x, done, frames⟩ : Draft).feed x.kind.sampleToken =
      (⟨.detail x, done, frames⟩ : Draft).feedDetail x.kind.sampleToken x := if_pos rfl
  have hnumber : number TokenKind.number.sampleToken = .ok 1 := rfl
  rw [Takes, hfeed]
  cases x with
  | bpm pos | percent pos | count pos =>
    simp only [feedDetail, Detail.kind, hnumber]
    exact ⟨_, rfl⟩
  | _ => exact ⟨_, rfl⟩

theorem takes_opening (comma : Bool) (done : List Statement) (frames : List Frame) :
    ∀ x ∈ opening, (⟨.statement comma, done, frames⟩ : Draft).Takes x := by
  simp only [opening, List.forall_mem_cons]
  exact ⟨⟨_, rfl⟩, ⟨_, rfl⟩, ⟨_, rfl⟩, ⟨_, rfl⟩, ⟨_, rfl⟩, nofun⟩

theorem feedStatement_unexpected {d : Draft} {comma : Bool} {t : Token}
    {expected : List Terminal} {actual : Terminal}
    (h : d.feedStatement comma t = .error (.unexpected expected actual)) :
    actual = .token t.kind ∧ (expected = opening ∨ expected = [.ending] ∧ d.enclosing = []) := by
  unfold feedStatement at h
  split at h <;> rename_i hkind
  · cases h
  · cases h
  · cases h
  · cases h
  · split at h <;> cases h
  · split at h
    · cases h
    · rename_i hnil
      cases h
      exact ⟨by rw [hkind], .inr ⟨rfl, hnil⟩⟩
  · split at h
    · cases h
    · cases h
      exact ⟨by rw [hkind], .inl rfl⟩
  · cases h
    exact ⟨rfl, .inl rfl⟩

theorem feedDetail_ne_unexpected {d : Draft} {t : Token} {x : Detail} {expected : List Terminal}
    {actual : Terminal} : d.feedDetail t x ≠ .error (.unexpected expected actual) := by
  have hnumber : ∀ f : UInt32 → Draft,
      (number t).map f ≠ .error (.unexpected expected actual) := fun f => by
    unfold number
    cases Numeral.read t.text <;> nofun
  cases x with
  | bpm pos | percent pos | count pos => exact hnumber _
  | _ => nofun

/-- **What a draft names instead of what it refuses, it takes.** -/
theorem takes_of_expected {d : Draft} {m : Mark} {expected : List Terminal} {actual : Terminal}
    (h : d.Refuses (.unexpected expected actual) m) :
    actual = m.terminal ∧ ∀ x ∈ expected, d.Takes x := by
  obtain ⟨awaiting, done, frames⟩ := d
  cases h with
  | @token t h =>
    cases awaiting with
    | statement comma =>
      obtain ⟨hactual, rfl | ⟨rfl, hframes⟩⟩ := feedStatement_unexpected h
      · exact ⟨hactual, takes_opening comma done frames⟩
      · obtain rfl : frames = [] := hframes
        refine ⟨hactual, List.forall_mem_singleton.mpr ⟨_, rfl⟩⟩
    | detail x =>
      simp only [feed] at h
      split at h
      · exact absurd h feedDetail_ne_unexpected
      · cases h
        exact ⟨rfl, List.forall_mem_singleton.mpr (takes_detail x done frames)⟩
  | ending h =>
    cases awaiting with
    | statement comma =>
      cases frames with
      | nil => cases h
      | cons frame frames =>
        cases h
        exact ⟨rfl, List.forall_mem_singleton.mpr ⟨_, rfl⟩⟩
    | detail x =>
      cases h
      exact ⟨rfl, List.forall_mem_singleton.mpr (takes_detail x done frames)⟩

end Draft

section Refusal

variable {before : List Token} {d : Draft} {m : Mark} {cause : GrammaticalCause}

theorem not_viable_of_refuses (hbefore : ∀ t ∈ before, t.Legible)
    (hd : before.foldlM Draft.feed .empty = .ok d) (h : d.Refuses cause m)
    (hm : ∀ t, m = Token.mark t → t.Legible) : ¬ Viable (before.map Token.mark ++ [m]) := by
  cases h with
  | @token t h =>
    intro hviable
    have hlegible : ∀ u ∈ before ++ [t], u.Legible :=
      List.forall_mem_append.mpr ⟨hbefore, List.forall_mem_singleton.mpr (hm t rfl)⟩
    have hmap : before.map Token.mark ++ [t.mark] = (before ++ [t]).map Token.mark := by simp
    rw [hmap] at hviable
    obtain ⟨d', hd'⟩ := (viable_marks_iff hlegible).mp hviable
    rw [Draft.foldlM_feed_concat hd, h] at hd'
    cases hd'
  | ending h =>
    intro hviable
    obtain ⟨score, d', hd', hclose⟩ := (viable_ending_iff hbefore).mp hviable
    obtain rfl : d = d' := Except.ok.inj (hd.symm.trans hd')
    rw [h] at hclose
    cases hclose

theorem exists_viable_of_takes (hbefore : ∀ t ∈ before, t.Legible)
    (hd : before.foldlM Draft.feed .empty = .ok d) {x : Terminal} (h : d.Takes x)
    (pos : Position) : ∃ text, Viable (before.map Token.mark ++ [⟨x, text, pos⟩]) := by
  cases x with
  | token kind =>
    obtain ⟨d', hd'⟩ := h
    have hlegible : ∀ u ∈ before ++ [kind.sampleToken], u.Legible :=
      List.forall_mem_append.mpr
        ⟨hbefore, List.forall_mem_singleton.mpr kind.legible_sampleToken⟩
    have hviable := (viable_marks_iff hlegible).mpr ⟨d', (Draft.foldlM_feed_concat hd).trans hd'⟩
    exact ⟨kind.sample, hviable.of_words (by simp [Mark.word, Token.mark, TokenKind.sampleToken])⟩
  | ending =>
    obtain ⟨score, hclose⟩ := h
    exact ⟨"", (viable_ending_iff hbefore).mpr ⟨score, d, hd, hclose⟩⟩

end Refusal

/-! ## Where a run stops -/

section Run

variable {stop pos : Position} {d d' : Draft} {x : Lexeme} {xs : List Lexeme} {t : Token}

theorem Draft.run_cons_of_feed_ok (ht : x.token = .ok t) (hd : d.feed t = .ok d') :
    d.run stop (x :: xs) = d'.run stop xs := by
  rw [run, ht]
  dsimp only
  rw [hd]

theorem Draft.run_cons_of_feed_error {cause : GrammaticalCause} (ht : x.token = .ok t)
    (hd : d.feed t = .error cause) :
    (d.run stop (x :: xs)).1 = .error ⟨t.pos, .grammatical cause⟩ := by
  rw [run, ht]
  dsimp only
  rw [hd]
  cases cause <;> rfl

theorem Draft.run_cons_of_token_error {fault : Fault} (hx : x.token = .error fault) :
    (d.run stop (x :: xs)).1 = .error fault := by
  rw [run, hx]

/-- A run with a grammatical fault has taken the marks before one that it refuses. -/
theorem refuses_of_run_eq_error {cause : GrammaticalCause}
    (h : (d.run stop xs).1 = .error ⟨pos, .grammatical cause⟩) :
    ∃ (before : List Token) (m : Mark) (after : List Mark) (d' : Draft),
      marksTo stop xs = before.map Token.mark ++ m :: after ∧
        before.foldlM Draft.feed d = .ok d' ∧ d'.Refuses cause m ∧ m.pos = pos := by
  induction xs generalizing d with
  | nil =>
    unfold Draft.run at h
    cases hclose : d.close with
    | ok score =>
      rw [hclose] at h
      cases h
    | error cause' =>
      rw [hclose] at h
      cases h
      exact ⟨[], .ending stop, [], d, rfl, rfl, .ending hclose, rfl⟩
  | cons x xs ih =>
    cases hx : x.token with
    | error fault =>
      rw [Draft.run_cons_of_token_error hx] at h
      obtain ⟨cause', -, rfl⟩ := Lexeme.token_eq_error_iff.mp hx
      cases h
    | ok t =>
      cases hd : d.feed t with
      | error cause' =>
        rw [Draft.run_cons_of_feed_error hx hd] at h
        cases h
        exact ⟨[], t.mark, marksTo stop xs, d, by rw [marksTo, hx]; rfl, rfl, .token hd, rfl⟩
      | ok e =>
        rw [Draft.run_cons_of_feed_ok hx hd] at h
        obtain ⟨before, m, after, d', hmarks, hbefore, hrefuses, hpos⟩ := ih h
        refine ⟨t :: before, m, after, d', ?_, ?_, hrefuses, hpos⟩
        · rw [marksTo, hx, hmarks, List.map_cons, List.cons_append]
        · exact Draft.foldlM_feed_cons.mpr ⟨e, hd, hbefore⟩

theorem Draft.exists_run_eq {ts : List Token} {ms : List Mark}
    (hmarks : marksTo stop xs = ts.map Token.mark ++ ms) (hts : ts.foldlM feed d = .ok d') :
    ∃ ys, marksTo stop ys = ms ∧ (d.run stop xs).1 = (d'.run stop ys).1 := by
  induction ts generalizing xs d with
  | nil =>
    obtain rfl : d = d' := Except.ok.inj hts
    exact ⟨xs, hmarks, rfl⟩
  | cons t ts ih =>
    obtain ⟨x, xs, rfl, hx⟩ := exists_cons_of_marksTo hmarks
    obtain ⟨e, he, hts⟩ := foldlM_feed_cons.mp hts
    rw [marksTo, hx, List.map_cons, List.cons_append, List.cons.injEq] at hmarks
    rw [run_cons_of_feed_ok hx he]
    exact ih hmarks.2 hts

theorem Draft.run_of_refused {ts : List Token} {ms : List Mark} {cause : GrammaticalCause}
    (hmarks : marksTo stop xs = ts.map Token.mark ++ t.mark :: ms)
    (hts : ts.foldlM feed d = .ok d') (ht : d'.feed t = .error cause) :
    (d.run stop xs).1 = .error ⟨t.pos, .grammatical cause⟩ := by
  obtain ⟨ys, hys, hrun⟩ := exists_run_eq hmarks hts
  obtain ⟨y, ys, rfl, hy⟩ := exists_cons_of_marksTo hys
  rw [hrun, run_cons_of_feed_error hy ht]

/-- All marks are tokens, and the draft takes them. -/
def Draft.TakesAll (d : Draft) (ms : List Mark) : Prop :=
  ∃ (ts : List Token) (d' : Draft), ms = ts.map Token.mark ∧ ts.foldlM feed d = .ok d'

theorem Draft.takesAll_nil : d.TakesAll [] := ⟨[], d, rfl, rfl⟩

theorem Draft.takesAll_cons {ms : List Mark} :
    d.TakesAll (t.mark :: ms) ↔ ∃ e, d.feed t = .ok e ∧ e.TakesAll ms := by
  constructor
  · rintro ⟨ts, d', hms, hts⟩
    obtain ⟨u, us, rfl, hu, hus⟩ := List.map_eq_cons_iff.mp hms.symm
    obtain ⟨e, he, hts⟩ := foldlM_feed_cons.mp hts
    exact ⟨e, Token.mark_injective hu ▸ he, us, d', hus.symm, hts⟩
  · rintro ⟨e, hd, ts, d', rfl, hts⟩
    exact ⟨t :: ts, d', rfl, foldlM_feed_cons.mpr ⟨e, hd, hts⟩⟩

theorem mapM_token_cons_eq_error_iff {fault : Fault} (hx : x.token = .ok t) :
    (x :: xs).mapM Lexeme.token = .error fault ↔ xs.mapM Lexeme.token = .error fault := by
  rw [List.mapM_cons, hx]
  cases xs.mapM Lexeme.token with
  | error fault' => exact ⟨id, id⟩
  | ok ts => exact ⟨nofun, nofun⟩

/-- A run has a lexical fault iff that is the fault of the lexemes, and it takes the tokens
before. -/
theorem run_eq_lexical_iff {cause : LexicalCause} :
    (d.run stop xs).1 = .error ⟨pos, .lexical cause⟩ ↔
      xs.mapM Lexeme.token = .error ⟨pos, .lexical cause⟩ ∧ d.TakesAll (marksTo stop xs) := by
  induction xs generalizing d with
  | nil =>
    unfold Draft.run
    constructor
    · intro h
      cases hclose : d.close <;> rw [hclose] at h <;> cases h
    · rintro ⟨h, -⟩
      cases h
  | cons x xs ih =>
    cases hx : x.token with
    | error fault =>
      rw [Draft.run_cons_of_token_error hx, marksTo, hx, List.mapM_cons, hx]
      constructor
      · intro h
        cases h
        exact ⟨rfl, Draft.takesAll_nil⟩
      · rintro ⟨h, -⟩
        cases h
        rfl
    | ok t =>
      rw [mapM_token_cons_eq_error_iff hx, marksTo, hx, Draft.takesAll_cons]
      cases hd : d.feed t with
      | error cause' =>
        rw [Draft.run_cons_of_feed_error hx hd]
        constructor
        · intro h
          cases h
        · rintro ⟨-, e, he, -⟩
          cases he
      | ok e =>
        rw [Draft.run_cons_of_feed_ok hx hd, ih]
        simp only [Except.ok.injEq, exists_eq_left']

end Run

theorem exists_map_of_tokens_eq_error {r : Reading} {fault : Fault} (h : r.tokens = .error fault) :
    ∃ ts : List Token, r.marks = ts.map Token.mark := by
  obtain ⟨xs, stop⟩ := r
  simp only [Reading.tokens, Reading.marks] at h ⊢
  induction xs with
  | nil => cases h
  | cons x xs ih =>
    cases hx : x.token with
    | error fault' => exact ⟨[], by rw [marksTo, hx]; rfl⟩
    | ok t =>
      obtain ⟨ts, hts⟩ := ih ((mapM_token_cons_eq_error_iff hx).mp h)
      exact ⟨t :: ts, by rw [marksTo, hx, hts, List.map_cons]⟩

/-- The tokens of a text before its first lexical fault are viable iff the empty draft takes
them. -/
theorem viable_marks_iff_takesAll {source : String} {fault : Fault}
    (h : (Reading.of source).tokens = .error fault) :
    Viable (Reading.of source).marks ↔ Draft.empty.TakesAll (Reading.of source).marks := by
  obtain ⟨ts, hts⟩ := exists_map_of_tokens_eq_error h
  have hlegible : ∀ t ∈ ts, t.Legible := fun t ht =>
    legible_of_mark_mem (by rw [hts]; exact List.mem_map_of_mem ht)
  rw [hts, viable_marks_iff hlegible]
  constructor
  · rintro ⟨d, hd⟩
    exact ⟨ts, d, rfl, hd⟩
  · rintro ⟨us, d, hus, hd⟩
    obtain rfl := List.map_injective_iff.mpr Token.mark_injective hus
    exact ⟨d, hd⟩

/-- **A fault is found as early as possible.** A grammatical fault is at the first mark with which
the text is no longer viable; if the fault names other terminals, the mark is the one it names
instead of them, and each of them would have kept the text viable. A lexical fault is the first one
of the lexemes, and the tokens before it are viable. -/
theorem ofSource_fault_earliest (source : String) :
    (∀ pos cause, Score.ofSource source = .error ⟨pos, .grammatical cause⟩ →
      ∃ k m, (Reading.of source).marks[k]? = some m ∧ m.pos = pos ∧
        (∀ j ≤ k, Viable ((Reading.of source).marks.take j)) ∧
        ¬ Viable ((Reading.of source).marks.take (k + 1)) ∧
        ∀ expected actual, cause = .unexpected expected actual → actual = m.terminal ∧
          ∀ x ∈ expected, ∃ text, Viable ((Reading.of source).marks.take k ++ [⟨x, text, pos⟩])) ∧
    ∀ pos cause, Score.ofSource source = .error ⟨pos, .lexical cause⟩ ↔
      (Reading.of source).tokens = .error ⟨pos, .lexical cause⟩ ∧
        Viable (Reading.of source).marks := by
  constructor
  · intro pos cause h
    obtain ⟨before, m, after, d, hmarks, hbefore, hrefuses, hpos⟩ := refuses_of_run_eq_error h
    replace hmarks : (Reading.of source).marks = before.map Token.mark ++ m :: after := hmarks
    have hmem : ∀ t : Token, t.mark ∈ before.map Token.mark ++ m :: after → t.Legible :=
      fun t ht => legible_of_mark_mem (hmarks ▸ ht)
    have hlegible : ∀ t ∈ before, t.Legible := fun t ht =>
      hmem t (List.mem_append_left _ (List.mem_map_of_mem ht))
    have hviable : Viable (before.map Token.mark) := (viable_marks_iff hlegible).mpr ⟨d, hbefore⟩
    have htake : (Reading.of source).marks.take before.length = before.map Token.mark := by
      rw [hmarks, List.take_left' (List.length_map _)]
    have htakeSucc : (Reading.of source).marks.take (before.length + 1) =
        before.map Token.mark ++ [m] := by
      rw [hmarks, List.take_add, List.take_left' (List.length_map _),
        List.drop_left' (List.length_map _), List.take_succ_cons, List.take_zero]
    refine ⟨before.length, m, ?_, hpos, ?_, ?_, ?_⟩
    · rw [hmarks, List.getElem?_append_right (by simp)]
      simp
    · intro j hj
      rw [← Nat.min_eq_left hj, ← List.take_take, htake]
      rw [← List.take_append_drop j (before.map Token.mark)] at hviable
      exact hviable.of_append
    · rw [htakeSucc]
      exact not_viable_of_refuses hlegible hbefore hrefuses fun t ht => hmem t (by simp [ht])
    · rintro expected actual rfl
      obtain ⟨hactual, htakes⟩ := Draft.takes_of_expected hrefuses
      rw [htake]
      exact ⟨hactual, fun x hx => exists_viable_of_takes hlegible hbefore (htakes x hx) pos⟩
  · intro pos cause
    exact run_eq_lexical_iff.trans
      (and_congr_right fun htokens => (viable_marks_iff_takesAll htokens).symm)

end Melody

import Melody.Proofs.Acceptance
import Melody.Proofs.Partition

/-!
# Scores are what the grammar derives

Both directions are inductions: over the derivation, whose tokens the draft accepts one rule after
the other, and over the number of tokens, of which each rule takes some off the front.

* `accepts_phrase`, `accepts_phrases`: what is derived is accepted;
* `Splits`: the tokens begin with a derivation; `splits_of_accepts`: what is accepted is derived;
* `valued_of_empty_accepts`: whatever their derivation, accepted tokens denote one score;
* **`ofSource_eq_ok_iff`**: a text stands for a score iff its tokens have a derivation that
  denotes it.
-/

namespace Melody

open Draft (number)

/-- The characters of the token go with its kind. -/
def Token.IsRead (t : Token) : Prop := Item.Shape (.ok t.kind) t.text.toList

theorem Token.IsRead.text_ne {t : Token} (h : t.IsRead) : t.text ≠ "" := by
  intro htext
  exact h.ne_nil (by rw [htext]; rfl)

theorem Token.IsNumeral.number_eq {t : Token} (h : t.IsNumeral) :
    number t = .ok (.ofNat t.value) :=
  (number_eq_ok_iff h.1 _).mpr ⟨h, rfl⟩

variable {comma : Bool} {done : List Statement} {frames : List Frame} {score : Score}

mutual

theorem accepts_phrase {comma : Bool} {done : List Statement} {frames : List Frame}
    {rest : List Token} : ∀ p : Phrase, p.Valued → (∀ t ∈ p.word, t.IsRead) →
      (⟨.statement true, p.statement :: done, frames⟩ : Draft).Accepts rest score →
      (⟨.statement comma, done, frames⟩ : Draft).Accepts (p.word ++ rest) score
  | .tempo keyword bpm, hp, _, h =>
    (accepts_tempo keyword.2).mpr ⟨bpm.1, rest, _, rfl, bpm.2, hp.number_eq, h⟩
  | .volume keyword percent, hp, _, h =>
    (accepts_volume keyword.2).mpr ⟨percent.1, rest, _, rfl, percent.2, hp.number_eq, h⟩
  | .sequence keyword name opening body closing, hp, hread, h => by
    simp only [Phrase.word, List.cons_append, List.append_assoc, List.mem_cons,
      List.mem_append] at hread ⊢
    refine (accepts_sequence keyword.2).mpr
      ⟨name.1, opening.1, _, rfl, name.2, opening.2, ?_⟩
    refine accepts_phrases body hp (fun t ht => hread t (by simp [ht])) fun _ => ?_
    refine (accepts_braceClose closing.2).mpr ⟨_, frames, rfl, ?_⟩
    simpa [Block.statement, Phrase.statement] using h
  | .repetition keyword left count right opening body closing, hp, hread, h => by
    simp only [Phrase.word, List.cons_append, List.append_assoc, List.mem_cons,
      List.mem_append] at hread ⊢
    refine (accepts_repetition keyword.2).mpr ⟨left.1, count.1, right.1, opening.1, _, _, rfl,
      left.2, count.2, hp.1.number_eq, right.2, opening.2, ?_⟩
    refine accepts_phrases body hp.2 (fun t ht => hread t (by simp [ht])) fun _ => ?_
    refine (accepts_braceClose closing.2).mpr ⟨_, frames, rfl, ?_⟩
    simpa [Block.statement, Phrase.statement] using h
  | .note pitch length, hp, hread, h => by
    have hpitch : pitch.1.IsRead := hread _ List.mem_cons_self
    unfold Token.IsRead at hpitch
    rw [pitch.2] at hpitch
    obtain ⟨digits, hsplit, hoctave⟩ := (split?_eq_some_iff hpitch _ _).mpr ⟨hp, rfl, rfl⟩
    refine (accepts_note pitch.2).mpr
      ⟨_, digits, length.1, rest, hsplit, rfl, length.2, ?_⟩
    rw [hoctave]
    exact h

theorem accepts_phrases {comma : Bool} {done : List Statement} {frames : List Frame}
    {rest : List Token} : ∀ ps : Phrases, ps.Valued → (∀ t ∈ ps.word, t.IsRead) →
      (∀ comma, (⟨.statement comma, ps.statements.reverse ++ done, frames⟩ : Draft).Accepts
        rest score) →
      (⟨.statement comma, done, frames⟩ : Draft).Accepts (ps.word ++ rest) score
  | .nil, _, _, h => h comma
  | .cons head c tail, hps, hread, h => by
    simp only [Phrases.word, List.append_assoc, List.mem_append] at hread ⊢
    refine accepts_phrase head hps.1 (fun t ht => hread t (by simp [ht])) ?_
    have htail : ∀ comma, (⟨.statement comma, head.statement :: done, frames⟩ : Draft).Accepts
        (tail.word ++ rest) score := fun comma =>
      accepts_phrases tail hps.2 (fun t ht => hread t (by simp [ht]))
        fun comma => by simpa [Phrases.statements] using h comma
    cases c with
    | none => exact htail true
    | some c => exact (accepts_comma c.2).mpr ⟨rfl, htail false⟩

end

/-! ## What is accepted is derived -/

/-- The tokens split into a comma, if one may stand there, a row of statements and what the draft
accepts behind them: the closing brace of the block or nothing. -/
def Splits (comma : Bool) (done : List Statement) (frames : List Frame) (score : Score)
    (ts : List Token) : Prop :=
  ∃ (c : Option (Leaf .comma)) (ps : Phrases) (rest : List Token) (comma' : Bool),
    ts = commaWord c ++ (ps.word ++ rest) ∧ (comma = false → c = none) ∧ ps.Valued ∧
    (∀ t ∈ rest.head?, t.kind = .braceClose) ∧
    (⟨.statement comma', ps.statements.reverse ++ done, frames⟩ : Draft).Accepts rest score

theorem splits_of_head {ts : List Token}
    (h : (⟨.statement comma, done, frames⟩ : Draft).Accepts ts score)
    (hhead : ∀ t ∈ ts.head?, t.kind = .braceClose) : Splits comma done frames score ts :=
  ⟨none, .nil, ts, comma, rfl, fun _ => rfl, trivial, hhead, h⟩

theorem Splits.cons {p : Phrase} (hp : p.Valued) {rest : List Token}
    (h : Splits true (p.statement :: done) frames score rest) :
    Splits comma done frames score (p.word ++ rest) := by
  obtain ⟨c, ps, last, comma', rfl, -, hps, hlast, h⟩ := h
  refine ⟨none, .cons p c ps, last, comma', ?_, fun _ => rfl, ⟨hp, hps⟩, hlast, ?_⟩
  · simp [Phrases.word]
  · simpa [Phrases.statements] using h

theorem Splits.body {block : Block} {ts : List Token}
    (h : Splits false [] (⟨block, done⟩ :: frames) score ts) :
    ∃ (body : Phrases) (closing : Leaf .braceClose) (rest : List Token),
      ts = body.word ++ closing.1 :: rest ∧ body.Valued ∧
      (⟨.statement true, block.statement body.statements :: done, frames⟩ : Draft).Accepts
        rest score := by
  obtain ⟨c, body, last, comma', rfl, hc, hbody, hlast, h⟩ := h
  obtain rfl := hc rfl
  cases last with
  | nil => cases (accepts_nil.mp h).1
  | cons t rest =>
    have ht : t.kind = .braceClose := hlast t rfl
    obtain ⟨_, _, hframes, h⟩ := (accepts_braceClose ht).mp h
    cases hframes
    exact ⟨body, ⟨t, ht⟩, rest, rfl, hbody, by simpa using h⟩

theorem isNumeral_of_number {t : Token} (ht : t.IsRead) {n : UInt32} (h : number t = .ok n) :
    t.IsNumeral ∧ n = .ofNat t.value :=
  (number_eq_ok_iff ht.text_ne n).mp h

/-- **What is accepted is derived**, by induction on the number of tokens. -/
theorem splits_of_accepts (n : Nat) : ∀ (ts : List Token), ts.length < n → (∀ t ∈ ts, t.IsRead) →
    ∀ {comma : Bool} {done : List Statement} {frames : List Frame},
      (⟨.statement comma, done, frames⟩ : Draft).Accepts ts score →
      Splits comma done frames score ts := by
  induction n with
  | zero => exact fun ts hts => absurd hts (Nat.not_lt_zero _)
  | succ n ih =>
    intro ts hn hread comma done frames h
    cases ts with
    | nil => exact splits_of_head h (by simp)
    | cons t ts =>
      have hkind := kind_of_accepts h
      simp only [List.mem_cons, List.not_mem_nil, or_false] at hkind
      simp only [List.length_cons] at hn
      rw [List.forall_mem_cons] at hread
      rcases hkind with ht | ht | ht | ht | ht | ht | ht
      · -- a tempo
        obtain ⟨number, rest, bpm, rfl, hkind, hnumber, h⟩ := (accepts_tempo ht).mp h
        rw [List.forall_mem_cons] at hread
        obtain ⟨hvalued, rfl⟩ := isNumeral_of_number hread.2.1 hnumber
        simp only [List.length_cons] at hn
        exact .cons (p := .tempo ⟨t, ht⟩ ⟨number, hkind⟩) hvalued
          (ih rest (by omega) hread.2.2 h)
      · -- a loudness
        obtain ⟨number, rest, percent, rfl, hkind, hnumber, h⟩ := (accepts_volume ht).mp h
        rw [List.forall_mem_cons] at hread
        obtain ⟨hvalued, rfl⟩ := isNumeral_of_number hread.2.1 hnumber
        simp only [List.length_cons] at hn
        exact .cons (p := .volume ⟨t, ht⟩ ⟨number, hkind⟩) hvalued
          (ih rest (by omega) hread.2.2 h)
      · -- a sequence: first its body, then what follows it
        obtain ⟨name, opening, inner, rfl, hname, hopening, h⟩ := (accepts_sequence ht).mp h
        simp only [List.length_cons] at hn
        have hinner := ih inner (by omega) (fun t ht => hread.2 t (by simp [ht])) h
        obtain ⟨body, closing, rest, rfl, hbody, h⟩ := hinner.body
        simp only [List.length_append, List.length_cons] at hn
        have hrest := ih rest (by omega) (fun t ht => hread.2 t (by simp [ht])) h
        have hp : Splits comma done frames score _ := .cons
          (p := .sequence ⟨t, ht⟩ ⟨name, hname⟩ ⟨opening, hopening⟩ body closing) hbody hrest
        simpa [Phrase.word] using hp
      · -- a repetition, likewise
        obtain ⟨left, number, right, opening, inner, count, rfl, hleft, hkind, hnumber, hright,
          hopening, h⟩ := (accepts_repetition ht).mp h
        obtain ⟨hvalued, rfl⟩ := isNumeral_of_number (hread.2 number (by simp)) hnumber
        simp only [List.length_cons] at hn
        have hinner := ih inner (by omega) (fun t ht => hread.2 t (by simp [ht])) h
        obtain ⟨body, closing, rest, rfl, hbody, h⟩ := hinner.body
        simp only [List.length_append, List.length_cons] at hn
        have hrest := ih rest (by omega) (fun t ht => hread.2 t (by simp [ht])) h
        have hp : Splits comma done frames score _ := .cons (p := .repetition ⟨t, ht⟩ ⟨left, hleft⟩
          ⟨number, hkind⟩ ⟨right, hright⟩ ⟨opening, hopening⟩ body closing) ⟨hvalued, hbody⟩ hrest
        simpa [Phrase.word] using hp
      · -- a note
        obtain ⟨s, digits, length, rest, hsplit, rfl, hlength, h⟩ := (accepts_note ht).mp h
        have hpitch : t.IsRead := hread.1
        unfold Token.IsRead at hpitch
        rw [ht] at hpitch
        obtain ⟨hvalued, rfl, hoctave⟩ := (split?_eq_some_iff hpitch s _).mp ⟨digits, hsplit, rfl⟩
        rw [hoctave] at h
        rw [List.forall_mem_cons] at hread
        simp only [List.length_cons] at hn
        exact .cons (p := .note ⟨t, ht⟩ ⟨length, hlength⟩) hvalued
          (ih rest (by omega) hread.2.2 h)
      · exact splits_of_head h (by simpa using ht)
      · -- a comma behind the statement before
        obtain ⟨rfl, hafter⟩ := (accepts_comma ht).mp h
        obtain ⟨c, ps, rest, comma', rfl, hc, hps, hrest, hlast⟩ :=
          ih ts (by omega) hread.2 hafter
        obtain rfl := hc rfl
        exact ⟨some ⟨t, ht⟩, ps, rest, comma', rfl, nofun, hps, hrest, hlast⟩

/-! ## Every derivation of what is accepted -/

mutual

theorem valued_of_accepts_phrase {comma : Bool} {done : List Statement} {frames : List Frame}
    {rest : List Token} : ∀ p : Phrase, (∀ t ∈ p.word, t.IsRead) →
      (⟨.statement comma, done, frames⟩ : Draft).Accepts (p.word ++ rest) score →
      p.Valued ∧ (⟨.statement true, p.statement :: done, frames⟩ : Draft).Accepts rest score
  | .tempo keyword bpm, hread, h => by
    obtain ⟨_, _, _, heq, -, hnumber, h⟩ := (accepts_tempo keyword.2).mp h
    obtain ⟨rfl, rfl⟩ := List.cons.inj heq
    obtain ⟨hvalued, rfl⟩ := isNumeral_of_number (hread bpm.1 (by simp [Phrase.word])) hnumber
    exact ⟨hvalued, h⟩
  | .volume keyword percent, hread, h => by
    obtain ⟨_, _, _, heq, -, hnumber, h⟩ := (accepts_volume keyword.2).mp h
    obtain ⟨rfl, rfl⟩ := List.cons.inj heq
    obtain ⟨hvalued, rfl⟩ := isNumeral_of_number (hread percent.1 (by simp [Phrase.word])) hnumber
    exact ⟨hvalued, h⟩
  | .sequence keyword name opening body closing, hread, h => by
    simp only [Phrase.word, List.cons_append, List.append_assoc, List.mem_cons,
      List.mem_append] at hread h
    obtain ⟨_, _, _, heq, -, -, h⟩ := (accepts_sequence keyword.2).mp h
    cases heq
    obtain ⟨hbody, _, h⟩ := valued_of_accepts_phrases body (fun t ht => hread t (by simp [ht])) h
    obtain ⟨_, _, hframes, h⟩ := (accepts_braceClose closing.2).mp h
    cases hframes
    exact ⟨hbody, by simpa [Block.statement, Phrase.statement] using h⟩
  | .repetition keyword left count right opening body closing, hread, h => by
    simp only [Phrase.word, List.cons_append, List.append_assoc, List.mem_cons,
      List.mem_append] at hread h
    obtain ⟨_, _, _, _, _, _, heq, -, -, hnumber, -, -, h⟩ := (accepts_repetition keyword.2).mp h
    cases heq
    obtain ⟨hvalued, rfl⟩ := isNumeral_of_number (hread count.1 (by simp)) hnumber
    obtain ⟨hbody, _, h⟩ := valued_of_accepts_phrases body (fun t ht => hread t (by simp [ht])) h
    obtain ⟨_, _, hframes, h⟩ := (accepts_braceClose closing.2).mp h
    cases hframes
    exact ⟨⟨hvalued, hbody⟩, by simpa [Block.statement, Phrase.statement] using h⟩
  | .note pitch length, hread, h => by
    obtain ⟨s, digits, _, _, hsplit, heq, -, h⟩ := (accepts_note pitch.2).mp h
    obtain ⟨rfl, rfl⟩ := List.cons.inj heq
    have hpitch : pitch.1.IsRead := hread _ List.mem_cons_self
    unfold Token.IsRead at hpitch
    rw [pitch.2] at hpitch
    obtain ⟨hvalued, rfl, hoctave⟩ := (split?_eq_some_iff hpitch s _).mp ⟨digits, hsplit, rfl⟩
    rw [hoctave] at h
    exact ⟨hvalued, h⟩

theorem valued_of_accepts_phrases {comma : Bool} {done : List Statement} {frames : List Frame}
    {rest : List Token} : ∀ ps : Phrases, (∀ t ∈ ps.word, t.IsRead) →
      (⟨.statement comma, done, frames⟩ : Draft).Accepts (ps.word ++ rest) score →
      ps.Valued ∧ ∃ comma',
        (⟨.statement comma', ps.statements.reverse ++ done, frames⟩ : Draft).Accepts rest score
  | .nil, _, h => ⟨trivial, comma, h⟩
  | .cons head c tail, hread, h => by
    simp only [Phrases.word, List.append_assoc, List.mem_append] at hread h
    obtain ⟨hhead, h⟩ := valued_of_accepts_phrase head (fun t ht => hread t (by simp [ht])) h
    have htail : ∃ comma, (⟨.statement comma, head.statement :: done, frames⟩ : Draft).Accepts
        (tail.word ++ rest) score := by
      cases c with
      | none => exact ⟨true, h⟩
      | some c => exact ⟨false, ((accepts_comma c.2).mp h).2⟩
    obtain ⟨_, htail⟩ := htail
    obtain ⟨hvalued, comma', h⟩ :=
      valued_of_accepts_phrases tail (fun t ht => hread t (by simp [ht])) htail
    exact ⟨⟨hhead, hvalued⟩, comma', by simpa [Phrases.statements] using h⟩

end

/-- **Every derivation of accepted tokens denotes the score.** -/
theorem valued_of_empty_accepts {ps : Phrases} (hread : ∀ t ∈ ps.word, t.IsRead)
    (h : Draft.empty.Accepts ps.word score) :
    ps.Valued ∧ ps.statements = score.statements := by
  rw [← List.append_nil ps.word] at h
  obtain ⟨hvalued, _, h⟩ := valued_of_accepts_phrases ps hread h
  obtain ⟨-, rfl⟩ := accepts_nil.mp h
  exact ⟨hvalued, by simp⟩

theorem empty_accepts_iff {ts : List Token} (hread : ∀ t ∈ ts, t.IsRead) :
    Draft.empty.Accepts ts score ↔
      ∃ ps : Phrases, ts = ps.word ∧ ps.Valued ∧ ps.statements = score.statements := by
  constructor
  · intro h
    obtain ⟨c, ps, rest, comma', hts, hc, hps, hrest, hlast⟩ :=
      splits_of_accepts (ts.length + 1) ts (Nat.lt_succ_self _) hread h
    obtain rfl := hc rfl
    cases rest with
    | nil =>
      obtain ⟨-, rfl⟩ := accepts_nil.mp hlast
      exact ⟨ps, by simpa using hts, hps, by simp⟩
    | cons t rest =>
      obtain ⟨_, _, hframes, -⟩ := (accepts_braceClose (hrest t rfl)).mp hlast
      cases hframes
  · rintro ⟨ps, rfl, hps, hstatements⟩
    have hend : ∀ comma,
        (⟨.statement comma, ps.statements.reverse ++ [], []⟩ : Draft).Accepts [] score :=
      fun comma => accepts_nil.mpr ⟨rfl, by simp [hstatements]⟩
    have h : Draft.empty.Accepts (ps.word ++ []) score := accepts_phrases ps hps hread hend
    rw [List.append_nil] at h
    exact h

/-- The tokens of a text are lexemes of it, so that their characters go with their kinds. -/
theorem isRead_of_mem_tokens {source : String} {ts : List Token}
    (h : (Reading.of source).tokens = .ok ts) : ∀ t ∈ ts, t.IsRead := by
  intro t ht
  obtain ⟨i, hi, rfl⟩ := List.getElem_of_mem ht
  have hforall := mapM_token_eq_ok_iff.mp h
  have hi' : i < (Reading.of source).lexemes.length := by
    rw [hforall.length_eq]
    exact hi
  have htoken := hforall.get hi' hi
  have hshape := (Cursor.ofSource source).shape_of_mem_reading (List.getElem_mem hi')
  simp only [List.get_eq_getElem] at htoken
  obtain ⟨hverdict, htext, -⟩ := Lexeme.token_eq_ok_iff.mp htoken
  rw [Token.IsRead, htext, ← hverdict]
  exact hshape

/-- **A text stands for a score iff the grammar derives it**: all its lexemes are tokens, they have
a derivation up to the end of the text whose numbers are numerals and whose notes have capitals,
and the score is what this derivation denotes. -/
theorem ofSource_eq_ok_iff (source : String) (score : Score) :
    Score.ofSource source = .ok score ↔
      ∃ ps : Phrases, (Reading.of source).tokens = .ok ps.word ∧ ps.Valued ∧
        ps.statements = score.statements := by
  rw [ofSource_eq_ok_iff_accepts]
  constructor
  · rintro ⟨ts, hts, h⟩
    obtain ⟨ps, rfl, hps, hstatements⟩ := (empty_accepts_iff (isRead_of_mem_tokens hts)).mp h
    exact ⟨ps, hts, hps, hstatements⟩
  · rintro ⟨ps, hts, hps, hstatements⟩
    exact ⟨_, hts, (empty_accepts_iff (isRead_of_mem_tokens hts)).mpr
      ⟨ps, rfl, hps, hstatements⟩⟩

end Melody

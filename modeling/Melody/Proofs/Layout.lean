import Melody.Proofs.Derivation
import Melody.Proofs.Scanning
import Melody.Proofs.Unplaced
import Melody.Proofs.Viability

/-!
# Layout carries no meaning

A score can be written anew: with other gaps between its tokens, with other commas between its
statements and with other keywords of the same kinds. The texts stand for the same score up to its
places, so that they sound the same and have the same tune.

* `Token.IsKeyword`; **`Token.legible_of_isKeyword`**: every way to write a keyword is read as one;
* `Phrase.Rewritten`, `Phrases.Rewritten`: a derivation with other commas and keywords;
* `legible_phrases`, `valued_phrases`, `statements_phrases`: what it has in common with the first;
* **`ofSource_rewritten`**: whatever a score is rewritten to, it stays the same up to its places.
-/

namespace Melody

/-- In small letters the characters of the token are a keyword of its kind. -/
def Token.IsKeyword (t : Token) : Prop :=
  (String.ofList (t.text.toList.map Char.toLower), t.kind) ∈ keywords

theorem isPitchLetter_toLower {c : Char} (h : isPitchLetter c = true) :
    isPitchLetter c.toLower = true := by
  have hall : pitchLetters.all (fun c => isPitchLetter c.toLower) = true := by decide
  exact List.all_eq_true.mp hall c ((isPitchLetter_iff c).mp h)

theorem toLower_of_continuesNote {c : Char} (h : continuesNote c = true) : c.toLower = c := by
  simp only [continuesNote, Bool.or_eq_true, beq_iff_eq, isDigit_iff] at h
  rcases h with (rfl | rfl) | hdigit
  · decide
  · decide
  · have hupper : ¬ ('A' ≤ c ∧ c ≤ 'Z') := fun h =>
      absurd (Char.le_trans h.1 hdigit.2) (by decide)
    exact dif_neg hupper

theorem isWordChar_of_toLower {c : Char} (h : isWordChar c.toLower = true) :
    isWordChar c = true := by
  by_cases hupper : 'A' ≤ c ∧ c ≤ 'Z'
  · exact (isWordChar_iff c).mpr (.inl hupper)
  · have hlower : c.toLower = c := dif_neg hupper
    rwa [hlower] at h

theorem word_of_mem_keywords {p : String × TokenKind} (h : p ∈ keywords) :
    p.1.toList ≠ [] ∧ p.1.toList.all isWordChar = true ∧
      ∀ c d cs, p.1.toList = c :: d :: cs → (isPitchLetter c && continuesNote d) = false := by
  simp only [keywords, List.mem_cons, List.not_mem_nil, or_false] at h
  rcases h with rfl | rfl | rfl | rfl | rfl
  all_goals
    refine ⟨by decide, by decide, ?_⟩
    intro c d cs h
    cases h
    decide

/-- **Every way to write a keyword is read as one.** -/
theorem Token.legible_of_isKeyword {t : Token} (h : t.IsKeyword) : t.Legible := by
  obtain ⟨hne, hword, hnote⟩ := word_of_mem_keywords h
  rw [String.toList_ofList] at hne hword hnote
  rw [List.all_eq_true, List.forall_mem_map] at hword
  cases htext : t.text.toList with
  | nil => simp [htext] at hne
  | cons c ds =>
    rw [htext] at hword hnote
    obtain ⟨hc, hds⟩ := List.forall_mem_cons.mp fun d hd => isWordChar_of_toLower (hword d hd)
    have hstarts : (isPitchLetter c && ds.head?.any continuesNote) = false := by
      by_contra hstarts
      rw [Bool.not_eq_false, Bool.and_eq_true, Option.any_eq_true] at hstarts
      obtain ⟨hletter, d, hd, hcontinues⟩ := hstarts
      obtain ⟨es, rfl⟩ := List.head?_eq_some_iff.mp hd
      have hfalse := hnote _ _ _ rfl
      rw [isPitchLetter_toLower hletter, toLower_of_continuesNote hcontinues, hcontinues] at hfalse
      cases hfalse
    have hkind : wordKind (c :: ds) = t.kind := by
      rw [wordKind_eq_iff, ← htext]
      exact .inl h
    refine ⟨c, ds, htext, ?_⟩
    rw [Item.first, if_neg (Bool.eq_false_iff.mp hstarts), if_pos hc, Item.word,
      List.takeWhile_eq_self_iff.mpr hds, List.dropWhile_eq_nil_iff.mpr hds, hkind]

/-! ## Rewritten derivations -/

/-- The same characters. -/
def Leaf.Same {kind : TokenKind} (t t' : Leaf kind) : Prop := t'.1.text = t.1.text

mutual

/-- The same statement, with keywords that may be written otherwise and other commas. -/
inductive Phrase.Rewritten : Phrase → Phrase → Prop
  | tempo {keyword keyword' : Leaf .tempo} {bpm bpm' : Leaf .number} :
    keyword'.1.IsKeyword → bpm.Same bpm' →
    Phrase.Rewritten (.tempo keyword bpm) (.tempo keyword' bpm')
  | volume {keyword keyword' : Leaf .volume} {percent percent' : Leaf .number} :
    keyword'.1.IsKeyword → percent.Same percent' →
    Phrase.Rewritten (.volume keyword percent) (.volume keyword' percent')
  | sequence {keyword keyword' : Leaf .sequence} {name name' : Leaf .ident}
    {opening opening' : Leaf .braceOpen} {body body' : Phrases}
    {closing closing' : Leaf .braceClose} :
    keyword'.1.IsKeyword → name.Same name' → opening.Same opening' → body.Rewritten body' →
    closing.Same closing' → Phrase.Rewritten (.sequence keyword name opening body closing)
      (.sequence keyword' name' opening' body' closing')
  | repetition {keyword keyword' : Leaf .repetition} {left left' : Leaf .parenOpen}
    {count count' : Leaf .number} {right right' : Leaf .parenClose}
    {opening opening' : Leaf .braceOpen} {body body' : Phrases}
    {closing closing' : Leaf .braceClose} :
    keyword'.1.IsKeyword → left.Same left' → count.Same count' → right.Same right' →
    opening.Same opening' → body.Rewritten body' → closing.Same closing' →
    Phrase.Rewritten (.repetition keyword left count right opening body closing)
      (.repetition keyword' left' count' right' opening' body' closing')
  | note {pitch pitch' : Leaf .note} {length length' : Leaf .number} :
    pitch.Same pitch' → length.Same length' →
    Phrase.Rewritten (.note pitch length) (.note pitch' length')

/-- The same statements, each with a comma behind it or without one. -/
inductive Phrases.Rewritten : Phrases → Phrases → Prop
  | nil : Phrases.Rewritten .nil .nil
  | cons {head head' : Phrase} {comma comma' : Option (Leaf .comma)} {tail tail' : Phrases} :
    head.Rewritten head' → (∀ c ∈ comma', c.1.text = ",") → tail.Rewritten tail' →
    Phrases.Rewritten (.cons head comma tail) (.cons head' comma' tail')

end

namespace Leaf.Same

variable {kind : TokenKind} {t t' : Leaf kind}

theorem text_eq (h : t.Same t') : t'.1.text = t.1.text := h

theorem legible (h : t.Same t') (ht : t.1.Legible) : t'.1.Legible := by
  obtain ⟨c, ds, htext, hfirst⟩ := ht
  refine ⟨c, ds, by rw [h.text_eq, htext], ?_⟩
  rw [hfirst, t.2, t'.2]

theorem isNumeral (h : t.Same t') (ht : t.1.IsNumeral) : t'.1.IsNumeral := by
  rwa [Token.IsNumeral, Token.value, h.text_eq]

theorem isCapital (h : t.Same t') (ht : t.1.IsCapital) : t'.1.IsCapital := by
  rwa [Token.IsCapital, h.text_eq]

theorem value_eq (h : t.Same t') : t'.1.value = t.1.value := by
  rw [Token.value, Token.value, h.text_eq]

theorem spelling_eq (h : t.Same t') : t'.1.spelling = t.1.spelling := by
  rw [Token.spelling, Token.spelling, h.text_eq]

theorem octave_eq (h : t.Same t') : t'.1.octave = t.1.octave := by
  rw [Token.octave, Token.octave, h.text_eq]

end Leaf.Same

mutual

theorem legible_phrase {p p' : Phrase} (h : p.Rewritten p') (hp : ∀ t ∈ p.word, t.Legible) :
    ∀ t ∈ p'.word, t.Legible := by
  cases h with
  | tempo hkeyword hbpm =>
    simp only [Phrase.word, List.forall_mem_cons] at hp ⊢
    exact ⟨Token.legible_of_isKeyword hkeyword, hbpm.legible hp.2.1, nofun⟩
  | volume hkeyword hpercent =>
    simp only [Phrase.word, List.forall_mem_cons] at hp ⊢
    exact ⟨Token.legible_of_isKeyword hkeyword, hpercent.legible hp.2.1, nofun⟩
  | sequence hkeyword hname hopening hbody hclosing =>
    simp only [Phrase.word, List.forall_mem_cons, List.forall_mem_append] at hp ⊢
    exact ⟨Token.legible_of_isKeyword hkeyword, hname.legible hp.2.1, hopening.legible hp.2.2.1,
      legible_phrases hbody hp.2.2.2.1, hclosing.legible hp.2.2.2.2.1, nofun⟩
  | repetition hkeyword hleft hcount hright hopening hbody hclosing =>
    simp only [Phrase.word, List.forall_mem_cons, List.forall_mem_append] at hp ⊢
    exact ⟨Token.legible_of_isKeyword hkeyword, hleft.legible hp.2.1, hcount.legible hp.2.2.1,
      hright.legible hp.2.2.2.1, hopening.legible hp.2.2.2.2.1,
      legible_phrases hbody hp.2.2.2.2.2.1, hclosing.legible hp.2.2.2.2.2.2.1, nofun⟩
  | note hpitch hlength =>
    simp only [Phrase.word, List.forall_mem_cons] at hp ⊢
    exact ⟨hpitch.legible hp.1, hlength.legible hp.2.1, nofun⟩

theorem legible_phrases {ps ps' : Phrases} (h : ps.Rewritten ps')
    (hps : ∀ t ∈ ps.word, t.Legible) : ∀ t ∈ ps'.word, t.Legible := by
  cases h with
  | nil => exact nofun
  | @cons _ _ _ comma' _ _ hhead hcomma htail =>
    simp only [Phrases.word, List.forall_mem_append] at hps ⊢
    refine ⟨legible_phrase hhead hps.1, ?_, legible_phrases htail hps.2.2⟩
    cases comma' with
    | none => exact nofun
    | some c =>
      have hc : Leaf.Same ⟨TokenKind.comma.sampleToken, rfl⟩ c := hcomma c rfl
      simpa using hc.legible (TokenKind.legible_sampleToken .comma)

end

mutual

theorem valued_phrase {p p' : Phrase} (h : p.Rewritten p') (hp : p.Valued) : p'.Valued := by
  cases h with
  | tempo _ hbpm => exact hbpm.isNumeral hp
  | volume _ hpercent => exact hpercent.isNumeral hp
  | sequence _ _ _ hbody _ => exact valued_phrases hbody hp
  | repetition _ _ hcount _ _ hbody _ => exact ⟨hcount.isNumeral hp.1, valued_phrases hbody hp.2⟩
  | note hpitch _ => exact hpitch.isCapital hp

theorem valued_phrases {ps ps' : Phrases} (h : ps.Rewritten ps') (hps : ps.Valued) :
    ps'.Valued := by
  cases h with
  | nil => exact trivial
  | cons hhead _ htail => exact ⟨valued_phrase hhead hps.1, valued_phrases htail hps.2⟩

end

mutual

theorem statement_phrase {p p' : Phrase} (h : p.Rewritten p') :
    p'.statement.relocate (fun _ => .start) = p.statement.relocate fun _ => .start := by
  cases h with
  | tempo _ hbpm => simp only [Phrase.statement, Statement.relocate, hbpm.value_eq]
  | volume _ hpercent => simp only [Phrase.statement, Statement.relocate, hpercent.value_eq]
  | sequence _ hname _ hbody _ =>
    simp only [Phrase.statement, Statement.relocate, hname.text_eq, statements_phrases hbody]
  | repetition _ _ hcount _ _ hbody _ =>
    simp only [Phrase.statement, Statement.relocate, hcount.value_eq, statements_phrases hbody]
  | note hpitch hlength =>
    simp only [Phrase.statement, Statement.relocate, Note.relocate, hpitch.spelling_eq,
      hpitch.octave_eq, hlength.text_eq]

/-- **A rewritten derivation denotes the same statements**, up to their places. -/
theorem statements_phrases {ps ps' : Phrases} (h : ps.Rewritten ps') :
    relocateBlock (fun _ => .start) ps'.statements =
      relocateBlock (fun _ => .start) ps.statements := by
  cases h with
  | nil => rfl
  | cons hhead _ htail =>
    rw [Phrases.statements, Phrases.statements, relocateBlock, relocateBlock,
      statement_phrase hhead, statements_phrases htail]

end

/-! ## Rewritten texts -/

theorem legible_of_mem_tokens {source : String} {ts : List Token}
    (h : (Reading.of source).tokens = .ok ts) : ∀ t ∈ ts, t.Legible := by
  intro t ht
  obtain ⟨x, hx, htoken⟩ := exists_of_mem_tokens h ht
  exact Cursor.legible_of_mem_reading _ hx htoken

theorem Token.Legible.isRead {t : Token} (h : t.Legible) : t.IsRead := by
  obtain ⟨c, ds, htext, hfirst⟩ := h
  have hshape := Item.shape_first c ds
  rw [hfirst] at hshape
  rw [Token.IsRead, htext]
  exact hshape

/-- The tokens of a rewritten derivation stand for the same score up to its places, however they
are laid out. -/
theorem exists_score_of_rewritten {source source' : String} {score : Score} {ps ps' : Phrases}
    (htokens : (Reading.of source).tokens = .ok ps.word)
    (haccepts : Draft.empty.Accepts ps.word score)
    (hps : ps.Rewritten ps') (hlaid : Laid false (ps'.word.map Token.text) source'.toList) :
    ∃ score', Score.ofSource source' = .ok score' ∧
      score'.relocate (fun _ => .start) = score.relocate fun _ => .start := by
  have hlegible := legible_phrases hps (legible_of_mem_tokens htokens)
  obtain ⟨hvalued, hstatements⟩ :=
    valued_of_empty_accepts (isRead_of_mem_tokens htokens) haccepts
  have haccepts' : Draft.empty.Accepts ps'.word ⟨ps'.statements⟩ :=
    (empty_accepts_iff fun t ht => (hlegible t ht).isRead).mpr
      ⟨ps', rfl, valued_phrases hps hvalued, rfl⟩
  obtain ⟨ts, hts, hwords⟩ := tokens_laid hlaid hlegible
  obtain ⟨score', hscore', hplaces⟩ := Draft.exists_accepts_of_words hwords haccepts'
  refine ⟨score', ofSource_eq_ok_iff_accepts.mpr ⟨ts, hts, hscore'⟩, hplaces.trans ?_⟩
  rw [Score.relocate, Score.relocate, statements_phrases hps, hstatements]

/-- **Layout carries no meaning.** The tokens of a text that stands for a score have a derivation;
if they are rewritten with other commas and keywords, and laid out with other gaps, then the text
stands for the same score up to its places, with the same tune. Both texts sound the same, or
cannot be played for the same cause. -/
theorem ofSource_rewritten {source : String} {score : Score}
    (h : Score.ofSource source = .ok score) :
    (∃ ps : Phrases, (Reading.of source).tokens = .ok ps.word) ∧
    ∀ (ps ps' : Phrases) (source' : String), (Reading.of source).tokens = .ok ps.word →
      ps.Rewritten ps' → Laid false (ps'.word.map Token.text) source'.toList →
      ∃ score', Score.ofSource source' = .ok score' ∧
        score'.relocate (fun _ => .start) = score.relocate (fun _ => .start) ∧
        score'.tune = score.tune ∧
        ∀ now settings,
          ((Performance.ofSource source' now).voices settings).mapError Fault.cause =
            ((Performance.ofSource source now).voices settings).mapError Fault.cause ∧
          (Performance.ofSource source' now).recital.cues =
            (Performance.ofSource source now).recital.cues := by
  obtain ⟨ts, hts, haccepts⟩ := ofSource_eq_ok_iff_accepts.mp h
  constructor
  · obtain ⟨ps, rfl, -, -⟩ := (empty_accepts_iff (isRead_of_mem_tokens hts)).mp haccepts
    exact ⟨ps, hts⟩
  · intro ps ps' source' hps hrewritten hlaid
    obtain rfl := Except.ok.inj (hts.symm.trans hps)
    obtain ⟨score', hscore', hplaces⟩ := exists_score_of_rewritten hts haccepts hrewritten hlaid
    have htune : score'.tune = score.tune := by
      rw [← Score.tune_relocate fun _ => .start, hplaces, Score.tune_relocate]
    refine ⟨score', hscore', hplaces, htune, fun now settings => ?_⟩
    have hperformance := Performance.relocate_of_eq _ hplaces now
    simp only [Performance.ofSource, h, hscore']
    constructor
    · rw [← Performance.voices_relocate fun _ => .start, hperformance,
        Performance.voices_relocate]
    · rw [← Recital.cues_relocate fun _ => .start]
      exact (congrArg (·.recital.cues) hperformance).trans (Recital.cues_relocate _ _)

/-- A tempo and a note, the tempo with this keyword and maybe a comma. -/
def Phrases.slow (keyword : String) (comma : Option (Leaf .comma)) : Phrases :=
  .cons (.tempo ⟨⟨.tempo, keyword, ⟨1, 1⟩⟩, rfl⟩ ⟨⟨.number, "90", ⟨1, 7⟩⟩, rfl⟩) comma
    (.cons (.note ⟨⟨.note, "C4", ⟨1, 10⟩⟩, rfl⟩ ⟨⟨.number, "1/4", ⟨1, 13⟩⟩, rfl⟩) none .nil)

theorem rewritten_slow : (Phrases.slow "tempo" none).Rewritten
    (.slow "BPM" (some ⟨TokenKind.comma.sampleToken, rfl⟩)) := by
  have hkeyword : Token.IsKeyword ⟨.tempo, "BPM", ⟨1, 1⟩⟩ := by
    unfold Token.IsKeyword
    decide
  have hcomma : ∀ c ∈ some (⟨TokenKind.comma.sampleToken, rfl⟩ : Leaf .comma), c.1.text = "," := by
    intro c hc
    obtain rfl := Option.some.inj hc
    rfl
  exact .cons (.tempo hkeyword rfl) hcomma (.cons (.note rfl rfl) nofun .nil)

theorem laid_slow : Laid false ["BPM", "90", ",", "C4", "1/4"]
    "BPM // slow\n90 ,\tC4 1/4".toList := by
  have hblank : Gap false [' '] := .blank (by decide) .nil
  have htab : Gap false ['\t'] := .blank (by decide) .nil
  have hcomment : Gap false (' ' :: '/' :: '/' :: (" slow".toList ++ '\n' :: [])) :=
    .blank (by decide) (.comment (by decide) .nil)
  have hdetached : ∀ {b : Char} {cs : List Char}, Text.isBlank b = true →
      (b :: cs ≠ [] ∧ Detached (b :: cs)) := fun hb => ⟨nofun, fun c hc => Option.some.inj hc ▸ hb⟩
  exact .word .nil nofun <| .word hcomment (fun _ => hdetached (by decide)) <|
    .word hblank (fun _ => hdetached (by decide)) <| .word htab (fun _ => hdetached (by decide)) <|
    .word hblank (fun _ => hdetached (by decide)) <| .ending .nil fun _ => nofun

theorem ofSource_rewritten_slow :
    Score.ofSource "tempo 90 C4 1/4" =
      .ok ⟨[.tempo ⟨1, 1⟩ 90, .note ⟨⟨1, 10⟩, ⟨.c, .natural⟩, 4, "1/4"⟩]⟩ ∧
    ∃ score', Score.ofSource "BPM // slow\n90 ,\tC4 1/4" = .ok score' ∧
      score'.tune =
        Score.tune ⟨[.tempo ⟨1, 1⟩ 90, .note ⟨⟨1, 10⟩, ⟨.c, .natural⟩, 4, "1/4"⟩]⟩ := by
  have htokens : (Reading.of "tempo 90 C4 1/4").tokens = .ok (Phrases.slow "tempo" none).word := by
    decide +kernel
  have hscore : Score.ofSource "tempo 90 C4 1/4" =
      .ok ⟨[.tempo ⟨1, 1⟩ 90, .note ⟨⟨1, 10⟩, ⟨.c, .natural⟩, 4, "1/4"⟩]⟩ :=
    ofSource_eq_ok_iff_accepts.mpr ⟨_, htokens, _, rfl, rfl⟩
  obtain ⟨score', hscore', -, htune, -⟩ :=
    (ofSource_rewritten hscore).2 _ _ _ htokens rewritten_slow laid_slow
  exact ⟨hscore, score', hscore', htune⟩

end Melody

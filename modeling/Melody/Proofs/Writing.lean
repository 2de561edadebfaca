import Melody.Proofs.Layout

/-!
# Which statements can be written

The names in a score are words that are read as names, and its lengths begin with a digit. Nothing
else is needed: statements of which this holds at every depth have a canonical form, and this text
stands for them.

* `IsName`, `IsLength`; `Token.legible_ident_iff`, `Token.legible_number_iff`,
  `Token.legible_note_iff`: the words that are read as names, as numbers and as notes;
* `Statement.Writable`, `BlockWritable`: statements whose names and lengths are such words;
* `writable_of_ofSource`: what a text stands for is writable;
* `written`: the canonical form; `text_phraseOf`, `legible_phraseOf`, `denotes_phraseOf`: it has a
  derivation that denotes the statements;
* `standsFor_written`: it stands for them;
* **`standsFor_iff_writable`**: statements are those of some text iff they are writable.
-/

namespace Melody

/-- A word of letters and underscores that is no keyword, in capital or small letters, and that
does not begin like a flat note. -/
structure IsName (name : String) : Prop where
  ne_nil : name.toList ≠ []
  word : ∀ c ∈ name.toList, IsWordChar c
  keyword : ∀ p ∈ keywords, String.ofList (name.toList.map Char.toLower) ≠ p.1
  flat : ∀ c ∈ pitchLetters, ¬ [c, 'b'] <+: name.toList

/-- A digit, and any number of digits, slashes and points behind it. -/
def IsLength (text : String) : Prop :=
  ∃ c cs, text.toList = c :: cs ∧ IsDigit c ∧ ∀ d ∈ cs, IsNumberChar d

theorem IsDigit.not_isWordChar {c : Char} (h : IsDigit c) : ¬ IsWordChar c := by
  obtain ⟨-, hhigh⟩ := h
  rintro (⟨hlow, -⟩ | ⟨hlow, -⟩ | rfl)
  · exact absurd (Char.le_trans hlow hhigh) (by decide)
  · exact absurd (Char.le_trans hlow hhigh) (by decide)
  · exact absurd hhigh (by decide)

theorem isWordChar_of_mem_pitchLetters {c : Char} (h : c ∈ pitchLetters) : IsWordChar c := by
  have hall : pitchLetters.all isWordChar = true := by decide
  exact (isWordChar_iff c).mp (List.all_eq_true.mp hall c h)

theorem longest_all {p : Char → Prop} {cs : List Char} (h : ∀ c ∈ cs, p c) :
    Longest (AllIn p) cs cs [] where
  append := (List.append_nil cs).symm
  holds := h
  longest run rest heq _ := by
    rw [heq, List.length_append]
    omega

/-- The characters of a token stand for it iff they are there by a rule. -/
theorem Token.legible_iff_rule {t : Token} :
    t.Legible ↔ ∃ c cs, t.text.toList = c :: cs ∧ Rule c cs ⟨.ok t.kind, c :: cs, []⟩ := by
  constructor
  · rintro ⟨c, cs, htext, hfirst⟩
    exact ⟨c, cs, htext, hfirst ▸ rule_first c cs⟩
  · rintro ⟨c, cs, htext, hrule⟩
    exact ⟨c, cs, htext, hrule.first_eq⟩

/-- In a word only a flat sign makes a note of the pitch letter before it. -/
theorem startsNote_word_iff {c : Char} {cs : List Char} (h : ∀ d ∈ cs, IsWordChar d) :
    StartsNote c cs ↔ c ∈ pitchLetters ∧ ['b'] <+: cs := by
  refine and_congr_right fun _ => ?_
  constructor
  · rintro ⟨d, hd, hcontinues⟩
    obtain ⟨es, rfl⟩ := List.head?_eq_some_iff.mp hd
    have hword := h d List.mem_cons_self
    rcases hcontinues with rfl | rfl | hdigit
    · rw [← isWordChar_iff] at hword
      exact absurd hword (by decide)
    · exact ⟨es, rfl⟩
    · exact absurd hword hdigit.not_isWordChar
  · rintro ⟨es, rfl⟩
    exact ⟨'b', rfl, .inr (.inl rfl)⟩

theorem wordKind_ident_iff (word : List Char) :
    WordKind word .ident ↔ ∀ p ∈ keywords, String.ofList (word.map Char.toLower) ≠ p.1 := by
  constructor
  · rintro (hmem | ⟨-, hnone⟩)
    · simp [keywords] at hmem
    · rintro ⟨keyword, kind⟩ hp rfl
      exact hnone kind hp
  · exact fun h => .inr ⟨rfl, fun kind hkind => h _ hkind rfl⟩

/-- **A word is read as a name iff it is one.** -/
theorem Token.legible_ident_iff {t : Token} (ht : t.kind = .ident) : t.Legible ↔ IsName t.text := by
  rw [legible_iff_rule, ht]
  constructor
  · rintro ⟨c, cs, htext, hrule⟩
    cases hrule with
    | word hnote hc hword hkind =>
      have hchars := hword.holds
      rw [startsNote_word_iff fun d hd => hchars d (List.mem_cons_of_mem _ hd)] at hnote
      refine ⟨by simp [htext], htext ▸ hchars, ?_, ?_⟩
      · rw [htext]
        exact (wordKind_ident_iff _).mp hkind
      · intro letter hletter hfront
        rw [htext, List.cons_prefix_cons] at hfront
        exact hnote ⟨hfront.1 ▸ hletter, hfront.2⟩
    | sign _ _ _ hsign => simp [signs] at hsign
  · rintro ⟨hne, hword, hkeyword, hflat⟩
    obtain ⟨c, cs, htext⟩ := List.exists_cons_of_ne_nil hne
    rw [htext] at hword hkeyword hflat
    have hcs : ∀ d ∈ cs, IsWordChar d := fun d hd => hword d (List.mem_cons_of_mem _ hd)
    have hnote : ¬ StartsNote c cs := by
      rw [startsNote_word_iff hcs]
      exact fun h => hflat c h.1 (List.cons_prefix_cons.mpr ⟨rfl, h.2⟩)
    exact ⟨c, cs, htext, .word hnote (hword c List.mem_cons_self) (longest_all hword)
      ((wordKind_ident_iff _).mpr hkeyword)⟩

/-- **A word is read as a number iff it can be a length.** -/
theorem Token.legible_number_iff {t : Token} (ht : t.kind = .number) :
    t.Legible ↔ IsLength t.text := by
  rw [legible_iff_rule, ht]
  refine exists_congr fun c => exists_congr fun cs => and_congr_right fun _ => ?_
  constructor
  · intro hrule
    cases hrule with
    | word _ _ _ hkind => simp [WordKind, keywords] at hkind
    | number _ _ hdigit hnumber =>
      exact ⟨hdigit, fun d hd => hnumber.holds d (List.mem_cons_of_mem _ hd)⟩
    | sign _ _ _ hsign => simp [signs] at hsign
  · rintro ⟨hdigit, hnumber⟩
    have hword := hdigit.not_isWordChar
    exact .number (fun h => hword (isWordChar_of_mem_pitchLetters h.1)) hword hdigit
      (longest_all (List.forall_mem_cons.mpr ⟨.inl hdigit, hnumber⟩))

/-- **A word is read as a note iff it is a pitch letter, a sign or none, and digits.** -/
theorem Token.legible_note_iff {t : Token} (ht : t.kind = .note) :
    t.Legible ↔ ∃ (c : Char) (a : Accidental) (digits : List Char),
      t.text.toList = c :: (a.symbol ++ digits) ∧ c ∈ pitchLetters ∧ digits ≠ [] ∧
        ∀ d ∈ digits, IsDigit d := by
  constructor
  · rintro ⟨c, cs, htext, hfirst⟩
    have hshape := Item.shape_first c cs
    rw [hfirst, ht] at hshape
    obtain ⟨c', a, digits, hcs, hpitch, hdigits, hne⟩ := hshape.of_note
    exact ⟨c', a, digits, htext.trans hcs, (isPitchLetter_iff c').mp hpitch, hne,
      fun d hd => (isDigit_iff d).mp (hdigits d hd)⟩
  · rintro ⟨c, a, digits, htext, hpitch, hne, hdigits⟩
    rw [legible_iff_rule, ht]
    refine ⟨c, _, htext, .note ⟨hpitch, ?_⟩ ?_ (longest_all hdigits) hne⟩
    · obtain ⟨d, ds, rfl⟩ := List.exists_cons_of_ne_nil hne
      cases a with
      | flat => exact ⟨'b', rfl, .inr (.inl rfl)⟩
      | natural => exact ⟨d, rfl, .inr (.inr (hdigits d List.mem_cons_self))⟩
      | sharp => exact ⟨'#', rfl, .inl rfl⟩
    · have hsign := longest_read (a.symbol ++ digits)
      rw [a.read_symbol_append (fun d hd => (isDigit_iff d).mpr (hdigits d hd)) hne] at hsign
      exact hsign

/-! ## Statements that can be written -/

mutual

/-- Every name is a name and every length is a length, whatever the depth. -/
def Statement.Writable : Statement → Prop
  | .tempo _ _ => True
  | .volume _ _ => True
  | .sequence _ name body => IsName name ∧ BlockWritable body
  | .repetition _ _ body => BlockWritable body
  | .note n => IsLength n.length

/-- So it is for all statements of a block. -/
def BlockWritable : List Statement → Prop
  | [] => True
  | s :: ss => s.Writable ∧ BlockWritable ss

end

/-- The text stands for these statements, wherever they are placed. -/
def StandsFor (source : String) (ss : List Statement) : Prop :=
  ∃ score, Score.ofSource source = .ok score ∧
    relocateBlock (fun _ => .start) score.statements = relocateBlock (fun _ => .start) ss

mutual

theorem writable_relocate (f : Position → Position) :
    ∀ s : Statement, (s.relocate f).Writable ↔ s.Writable
  | .tempo _ _ => Iff.rfl
  | .volume _ _ => Iff.rfl
  | .sequence _ _ body => and_congr_right fun _ => blockWritable_relocate f body
  | .repetition _ _ body => blockWritable_relocate f body
  | .note _ => Iff.rfl

theorem blockWritable_relocate (f : Position → Position) :
    ∀ ss : List Statement, BlockWritable (relocateBlock f ss) ↔ BlockWritable ss
  | [] => Iff.rfl
  | s :: ss => and_congr (writable_relocate f s) (blockWritable_relocate f ss)

end

mutual

theorem writable_phrase : ∀ p : Phrase, (∀ t ∈ p.word, t.Legible) → p.statement.Writable
  | .tempo _ _, _ => trivial
  | .volume _ _, _ => trivial
  | .sequence _ name _ body _, h => by
    simp only [Phrase.word, List.forall_mem_cons, List.forall_mem_append] at h
    exact ⟨(Token.legible_ident_iff name.2).mp h.2.1, writable_phrases body h.2.2.2.1⟩
  | .repetition _ _ _ _ _ body _, h => by
    simp only [Phrase.word, List.forall_mem_cons, List.forall_mem_append] at h
    exact writable_phrases body h.2.2.2.2.2.1
  | .note _ length, h => by
    simp only [Phrase.word, List.forall_mem_cons] at h
    exact (Token.legible_number_iff length.2).mp h.2.1

theorem writable_phrases : ∀ ps : Phrases, (∀ t ∈ ps.word, t.Legible) →
    BlockWritable ps.statements
  | .nil, _ => trivial
  | .cons head _ tail, h => by
    simp only [Phrases.word, List.forall_mem_append] at h
    exact ⟨writable_phrase head h.1, writable_phrases tail h.2.2⟩

end

/-- **What a text stands for can be written.** -/
theorem writable_of_ofSource {source : String} {score : Score}
    (h : Score.ofSource source = .ok score) : BlockWritable score.statements := by
  obtain ⟨ts, hts, haccepts⟩ := ofSource_eq_ok_iff_accepts.mp h
  obtain ⟨ps, rfl, -, hstatements⟩ := (empty_accepts_iff (isRead_of_mem_tokens hts)).mp haccepts
  rw [← hstatements]
  exact writable_phrases ps (legible_of_mem_tokens hts)

/-! ## The canonical form -/

/-- A number in decimal digits. -/
def decimal (n : UInt32) : String := toString n.toNat

mutual

/-- The words of a statement: keywords in small letters, decimal numbers, notes with letter,
accidental and octave, names and lengths as they are. -/
def Statement.words : Statement → List String
  | .tempo _ bpm => ["tempo", decimal bpm]
  | .volume _ percent => ["volume", decimal percent]
  | .sequence _ name body => "sequence" :: name :: "\x7b" :: (blockWords body ++ ["\x7d"])
  | .repetition _ count body =>
    "repeat" :: "(" :: decimal count :: ")" :: "\x7b" :: (blockWords body ++ ["\x7d"])
  | .note n => [n.spelling.text ++ decimal n.octave, n.length]

/-- The words of statements one after the other. -/
def blockWords : List Statement → List String
  | [] => []
  | s :: ss => s.words ++ blockWords ss

end

/-- Statements in canonical form: their words with a blank between any two of them. -/
def written (ss : List Statement) : String := " ".intercalate (blockWords ss)

theorem toList_decimal (n : UInt32) : (decimal n).toList = Nat.toDigits 10 n.toNat :=
  Nat.toList_repr

theorem isDigit_of_mem_decimal {n : UInt32} {c : Char} (h : c ∈ (decimal n).toList) :
    c.isDigit = true := by
  rw [toList_decimal] at h
  exact Nat.isDigit_of_mem_toDigits (by decide) le_rfl h

theorem decimal_ne_nil (n : UInt32) : (decimal n).toList ≠ [] := by
  rw [toList_decimal]
  exact Nat.toDigits_ne_nil

theorem decimal_ne_empty (n : UInt32) : decimal n ≠ "" := fun h =>
  decimal_ne_nil n (congrArg String.toList h)

theorem value_decimal (n : UInt32) : Numeral.value (decimal n).toList = n.toNat := by
  rw [toList_decimal]
  exact Nat.ofDigitChars_ten_toDigits

theorem isLength_decimal (n : UInt32) : IsLength (decimal n) := by
  obtain ⟨c, cs, htext⟩ := List.exists_cons_of_ne_nil (decimal_ne_nil n)
  have hdigits : ∀ d ∈ c :: cs, IsDigit d := fun d hd =>
    (isDigit_iff d).mp (isDigit_of_mem_decimal (htext ▸ hd))
  obtain ⟨hc, hcs⟩ := List.forall_mem_cons.mp hdigits
  exact ⟨c, cs, htext, hc, fun d hd => .inl (hcs d hd)⟩

/-- The token of a kind with these characters. -/
def Leaf.of (kind : TokenKind) (text : String) : Leaf kind := ⟨⟨kind, text, .start⟩, rfl⟩

theorem legible_decimal (n : UInt32) : (Leaf.of .number (decimal n)).1.Legible :=
  (Token.legible_number_iff rfl).mpr (isLength_decimal n)

theorem isNumeral_decimal (n : UInt32) : (Leaf.of .number (decimal n)).1.IsNumeral ∧
    UInt32.ofNat (Leaf.of .number (decimal n)).1.value = n := by
  have hvalue : (Leaf.of .number (decimal n)).1.value = n.toNat := value_decimal n
  refine ⟨⟨decimal_ne_empty n, fun c hc => isDigit_of_mem_decimal hc, ?_⟩, ?_⟩
  · rw [hvalue]
    exact n.toNat_lt_size
  · rw [hvalue, UInt32.ofNat_toNat]

/-- The token of a written note. -/
def Note.leaf (n : Note) : Leaf .note := .of .note (n.spelling.text ++ decimal n.octave)

theorem Note.toList_leaf (n : Note) : n.leaf.1.text.toList =
    n.spelling.letter.toChar :: (n.spelling.accidental.symbol ++ (decimal n.octave).toList) := by
  simp [leaf, Leaf.of, Spelling.text, Letter.text, Accidental.text]

theorem Note.read_leaf (n : Note) :
    Accidental.read (n.spelling.accidental.symbol ++ (decimal n.octave).toList) =
      (n.spelling.accidental, (decimal n.octave).toList) :=
  n.spelling.accidental.read_symbol_append (fun _ => isDigit_of_mem_decimal) (decimal_ne_nil _)

theorem Note.legible_leaf (n : Note) : n.leaf.1.Legible := by
  refine (Token.legible_note_iff rfl).mpr ⟨_, _, _, n.toList_leaf, ?_, decimal_ne_nil _, ?_⟩
  · cases n.spelling.letter <;> decide
  · exact fun d hd => (isDigit_iff d).mp (isDigit_of_mem_decimal hd)

theorem Note.values_leaf (n : Note) : n.leaf.1.IsCapital ∧ n.leaf.1.spelling = n.spelling ∧
    n.leaf.1.octave = n.octave := by
  refine ⟨⟨n.spelling.letter, ?_⟩, ?_, ?_⟩
  · rw [n.toList_leaf, List.head?_cons]
  · simp [Token.spelling, n.toList_leaf, n.read_leaf]
  · have hfilter : n.leaf.1.text.toList.filter Char.isDigit = (decimal n.octave).toList := by
      rw [n.toList_leaf, List.filter_cons_of_neg (by simp [Letter.isDigit_toChar]),
        List.filter_append, Accidental.filter_symbol, List.nil_append, List.filter_eq_self]
      exact fun _ => isDigit_of_mem_decimal
    have hlt : n.octave.toNat < UInt32.size := n.octave.toNat_lt_size
    rw [Token.octave, hfilter, value_decimal, Nat.min_eq_left (by omega), UInt32.ofNat_toNat]

/-! ## The derivation of the canonical form -/

/-- The token of a kind that can be written in one way only. -/
def Leaf.fixed (kind : TokenKind) : Leaf kind := ⟨kind.sampleToken, rfl⟩

mutual

/-- The derivation of a statement in canonical form. -/
def phraseOf : Statement → Phrase
  | .tempo _ bpm => .tempo (.fixed .tempo) (.of .number (decimal bpm))
  | .volume _ percent => .volume (.fixed .volume) (.of .number (decimal percent))
  | .sequence _ name body => .sequence (.fixed .sequence) (.of .ident name) (.fixed .braceOpen)
    (phrasesOf body) (.fixed .braceClose)
  | .repetition _ count body => .repetition (.fixed .repetition) (.fixed .parenOpen)
    (.of .number (decimal count)) (.fixed .parenClose) (.fixed .braceOpen) (phrasesOf body)
    (.fixed .braceClose)
  | .note n => .note n.leaf (.of .number n.length)

/-- The derivation of statements in canonical form; there are no commas. -/
def phrasesOf : List Statement → Phrases
  | [] => .nil
  | s :: ss => .cons (phraseOf s) none (phrasesOf ss)

end

mutual

theorem text_phraseOf : ∀ s : Statement, (phraseOf s).word.map Token.text = s.words
  | .tempo _ _ => rfl
  | .volume _ _ => rfl
  | .sequence _ _ body => by
    simp only [phraseOf, Phrase.word, List.map_cons, List.map_append, text_phrasesOf body]
    rfl
  | .repetition _ _ body => by
    simp only [phraseOf, Phrase.word, List.map_cons, List.map_append, text_phrasesOf body]
    rfl
  | .note _ => rfl

theorem text_phrasesOf : ∀ ss : List Statement,
    (phrasesOf ss).word.map Token.text = blockWords ss
  | [] => rfl
  | s :: ss => by
    simp only [phrasesOf, Phrases.word, commaWord_none, List.nil_append, List.map_append,
      text_phraseOf s, text_phrasesOf ss, blockWords]

end

mutual

theorem legible_phraseOf : ∀ s : Statement, s.Writable → ∀ t ∈ (phraseOf s).word, t.Legible
  | .tempo _ bpm, _ => by
    simp only [phraseOf, Phrase.word, List.forall_mem_cons]
    exact ⟨TokenKind.legible_sampleToken _, legible_decimal bpm, nofun⟩
  | .volume _ percent, _ => by
    simp only [phraseOf, Phrase.word, List.forall_mem_cons]
    exact ⟨TokenKind.legible_sampleToken _, legible_decimal percent, nofun⟩
  | .sequence _ _ body, h => by
    simp only [phraseOf, Phrase.word, List.forall_mem_cons, List.forall_mem_append]
    exact ⟨TokenKind.legible_sampleToken _, (Token.legible_ident_iff rfl).mpr h.1,
      TokenKind.legible_sampleToken _, legible_phrasesOf body h.2,
      TokenKind.legible_sampleToken _, nofun⟩
  | .repetition _ count body, h => by
    simp only [phraseOf, Phrase.word, List.forall_mem_cons, List.forall_mem_append]
    exact ⟨TokenKind.legible_sampleToken _, TokenKind.legible_sampleToken _,
      legible_decimal count, TokenKind.legible_sampleToken _, TokenKind.legible_sampleToken _,
      legible_phrasesOf body h, TokenKind.legible_sampleToken _, nofun⟩
  | .note n, h => by
    simp only [phraseOf, Phrase.word, List.forall_mem_cons]
    exact ⟨n.legible_leaf, (Token.legible_number_iff rfl).mpr h, nofun⟩

theorem legible_phrasesOf : ∀ ss : List Statement, BlockWritable ss →
    ∀ t ∈ (phrasesOf ss).word, t.Legible
  | [], _ => nofun
  | s :: ss, h => by
    simp only [phrasesOf, Phrases.word, commaWord_none, List.nil_append, List.forall_mem_append]
    exact ⟨legible_phraseOf s h.1, legible_phrasesOf ss h.2⟩

end

mutual

theorem denotes_phraseOf : ∀ s : Statement,
    (phraseOf s).Valued ∧ (phraseOf s).statement = s.relocate fun _ => .start
  | .tempo _ bpm => by
    obtain ⟨hnumeral, hvalue⟩ := isNumeral_decimal bpm
    exact ⟨hnumeral, congrArg (Statement.tempo .start) hvalue⟩
  | .volume _ percent => by
    obtain ⟨hnumeral, hvalue⟩ := isNumeral_decimal percent
    exact ⟨hnumeral, congrArg (Statement.volume .start) hvalue⟩
  | .sequence _ name body => by
    obtain ⟨hvalued, hbody⟩ := denotes_phrasesOf body
    exact ⟨hvalued, congrArg (Statement.sequence .start name) hbody⟩
  | .repetition _ count body => by
    obtain ⟨hnumeral, hvalue⟩ := isNumeral_decimal count
    obtain ⟨hvalued, hbody⟩ := denotes_phrasesOf body
    exact ⟨⟨hnumeral, hvalued⟩, congrArg₂ (Statement.repetition .start) hvalue hbody⟩
  | .note n => by
    obtain ⟨hcapital, hspelling, hoctave⟩ := n.values_leaf
    refine ⟨hcapital, ?_⟩
    rw [phraseOf, Phrase.statement, hspelling, hoctave]
    rfl

/-- **The derivation of the canonical form denotes the statements**, up to their places. -/
theorem denotes_phrasesOf : ∀ ss : List Statement,
    (phrasesOf ss).Valued ∧ (phrasesOf ss).statements = relocateBlock (fun _ => .start) ss
  | [] => ⟨trivial, rfl⟩
  | s :: ss => by
    obtain ⟨hvalued, hstatement⟩ := denotes_phraseOf s
    obtain ⟨hvalueds, hstatements⟩ := denotes_phrasesOf ss
    exact ⟨⟨hvalued, hvalueds⟩, congrArg₂ List.cons hstatement hstatements⟩

end

theorem toList_intercalate_text (t : Token) (ts : List Token) :
    (" ".intercalate ((t :: ts).map Token.text)).toList = t.text.toList ++ spaced ts := by
  rw [String.toList_intercalate, List.map_map]
  induction ts generalizing t with
  | nil => simp [spaced]
  | cons u ts ih =>
    rw [List.map_cons, List.map_cons, List.intercalate_cons_cons, ← List.map_cons, ih u]
    simp [spaced]

theorem laid_intercalate (ts : List Token) :
    Laid false (ts.map Token.text) (" ".intercalate (ts.map Token.text)).toList := by
  cases ts with
  | nil => exact .ending .nil nofun
  | cons t ts =>
    rw [toList_intercalate_text]
    exact .word .nil nofun (laid_spaced true ts)

/-- **The canonical form stands for the statements.** -/
theorem standsFor_written {ss : List Statement} (h : BlockWritable ss) :
    StandsFor (written ss) ss := by
  obtain ⟨hvalued, hstatements⟩ := denotes_phrasesOf ss
  have hlegible := legible_phrasesOf ss h
  have haccepts : Draft.empty.Accepts (phrasesOf ss).word ⟨(phrasesOf ss).statements⟩ :=
    (empty_accepts_iff fun t ht => (hlegible t ht).isRead).mpr ⟨_, rfl, hvalued, rfl⟩
  have hlaid : Laid false ((phrasesOf ss).word.map Token.text) (written ss).toList := by
    rw [written, ← text_phrasesOf]
    exact laid_intercalate _
  obtain ⟨ts, hts, hwords⟩ := tokens_laid hlaid hlegible
  obtain ⟨score, hscore, hplaces⟩ := Draft.exists_accepts_of_words hwords haccepts
  refine ⟨score, ofSource_eq_ok_iff_accepts.mpr ⟨ts, hts, hscore⟩, ?_⟩
  rw [Score.relocate, Score.relocate, Score.mk.injEq, hstatements,
    relocateBlock_relocateBlock] at hplaces
  exact hplaces

/-- **Statements are those of some text iff they can be written**, that is, iff at every depth the
names are names and the lengths are lengths; their canonical form is such a text. -/
theorem standsFor_iff_writable (ss : List Statement) :
    ((∃ source, StandsFor source ss) ↔ BlockWritable ss) ∧
      (BlockWritable ss → StandsFor (written ss) ss) := by
  refine ⟨⟨?_, fun h => ⟨written ss, standsFor_written h⟩⟩, standsFor_written⟩
  rintro ⟨source, score, hscore, hplaces⟩
  rw [← blockWritable_relocate fun _ => .start, ← hplaces, blockWritable_relocate]
  exact writable_of_ofSource hscore

/-- A tempo, and a sequence with a note. -/
theorem standsFor_iff_writable_short :
    let ss : List Statement :=
      [.tempo .start 90, .sequence .start "a" [.note ⟨.start, ⟨.c, .sharp⟩, 4, "1/8"⟩]]
    BlockWritable ss ∧ StandsFor "tempo 90 sequence a \x7b C#4 1/8 \x7d" ss := by
  intro ss
  have hword : "a".toList.all isWordChar = true := by decide
  have hname : IsName "a" :=
    { ne_nil := by decide
      word := fun c hc => (isWordChar_iff c).mp (List.all_eq_true.mp hword c hc)
      keyword := by decide
      flat := fun c _ hfront => absurd hfront.length_le (Nat.not_succ_le_self 1) }
  have hnumber : ['/', '8'].all isNumberChar = true := by decide
  have hlength : IsLength "1/8" := ⟨'1', ['/', '8'], rfl, ⟨by decide, by decide⟩,
    fun c hc => (isNumberChar_iff c).mp (List.all_eq_true.mp hnumber c hc)⟩
  have hss : BlockWritable ss := ⟨trivial, ⟨hname, hlength, trivial⟩, trivial⟩
  have htext : written ss = "tempo 90 sequence a \x7b C#4 1/8 \x7d" := by decide +kernel
  exact ⟨hss, htext ▸ (standsFor_iff_writable ss).2 hss⟩

end Melody

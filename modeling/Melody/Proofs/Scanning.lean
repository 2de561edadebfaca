import Melody.Proofs.Spacing

/-!
# The rules for lexemes

What the next lexeme of a text is, said by rules in their order. Each rule takes as many characters
as it can, so that a text has one next lexeme only.

* `Longest`: the longest front of a text with a property; `Longest.unique`;
* `longest_splitGap`, `longest_takeWhile`, `longest_read`: the readers take the longest front;
* `Rule`: the rules for what stands behind a gap; `rule_first`, `Rule.first_eq`;
* `Cursor.Reads`: the next lexeme and what is left behind it;
* **`next_eq_iff`**: a cursor follows the rules.
-/

namespace Melody

/-- `run` is the longest front of `cs` with `P run rest`, where `rest` is what follows it. -/
structure Longest (P : List Char → List Char → Prop) (cs run rest : List Char) : Prop where
  append : cs = run ++ rest
  holds : P run rest
  longest : ∀ run' rest', cs = run' ++ rest' → P run' rest' → run'.length ≤ run.length

theorem Longest.unique {P : List Char → List Char → Prop} {cs run rest run' rest' : List Char}
    (h : Longest P cs run rest) (h' : Longest P cs run' rest') : run = run' ∧ rest = rest' := by
  have hle := h.longest run' rest' h'.append h'.holds
  have hge := h'.longest run rest h.append h.holds
  exact List.append_inj (h.append.symm.trans h'.append) (by omega)

/-- All characters of a front are in a class. -/
def AllIn (p : Char → Prop) (run _rest : List Char) : Prop := ∀ c ∈ run, p c

theorem longest_takeWhile {p : Char → Prop} {q : Char → Bool} (hpq : ∀ c, q c = true ↔ p c)
    (cs : List Char) : Longest (AllIn p) cs (cs.takeWhile q) (cs.dropWhile q) where
  append := (List.takeWhile_append_dropWhile).symm
  holds c hc := (hpq c).mp (List.mem_takeWhile_imp hc)
  longest run rest heq hrun := by
    rw [heq, List.takeWhile_append_of_pos fun c hc => (hpq c).mpr (hrun c hc), List.length_append]
    omega

/-- A gap in front of `rest`; the last one of a text may end within a comment. -/
def GapBefore (gap rest : List Char) : Prop := Gap rest.isEmpty gap

theorem longest_splitGap (cs : List Char) :
    Longest GapBefore cs (splitGap false cs).1 (splitGap false cs).2 where
  append := (splitGap_append false cs).symm
  holds := gap_splitGap cs
  longest gap rest heq hgap := by
    rw [heq, splitGap_gap_append hgap fun h => List.isEmpty_iff.mp h, List.length_append]
    omega

/-- A sharp, a flat, or nothing. -/
def IsSign (run _rest : List Char) : Prop := run ∈ [['#'], ['b'], []]

theorem longest_read (cs : List Char) :
    Longest IsSign cs (Accidental.read cs).1.symbol (Accidental.read cs).2 where
  append := (Accidental.symbol_append_read cs).symm
  holds := by
    cases (Accidental.read cs).1 <;> simp [IsSign, Accidental.symbol]
  longest run rest heq hrun := by
    simp only [IsSign, List.mem_cons, List.not_mem_nil, or_false] at hrun
    rcases hrun with rfl | rfl | rfl <;> simp [heq, Accidental.read, Accidental.symbol]

/-! ## The rules -/

/-- The letters of notes, capital and small. -/
def pitchLetters : List Char :=
  ['A', 'B', 'C', 'D', 'E', 'F', 'G', 'a', 'b', 'c', 'd', 'e', 'f', 'g']

/-- Keywords in small letters. -/
def keywords : List (String × TokenKind) := [("tempo", .tempo), ("bpm", .tempo),
  ("volume", .volume), ("repeat", .repetition), ("sequence", .sequence)]

/-- The signs that are tokens. -/
def signs : List (Char × TokenKind) := [('(', .parenOpen), (')', .parenClose),
  ('\x7b', .braceOpen), ('\x7d', .braceClose), (',', .comma)]

def IsDigit (c : Char) : Prop := '0' ≤ c ∧ c ≤ '9'

def IsWordChar (c : Char) : Prop := 'A' ≤ c ∧ c ≤ 'Z' ∨ 'a' ≤ c ∧ c ≤ 'z' ∨ c = '_'

def IsNumberChar (c : Char) : Prop := IsDigit c ∨ c = '/' ∨ c = '.'

/-- A pitch letter with a sign or a digit behind it. -/
def StartsNote (c : Char) (cs : List Char) : Prop :=
  c ∈ pitchLetters ∧ ∃ d ∈ cs.head?, d = '#' ∨ d = 'b' ∨ IsDigit d

/-- The kind of a word: that of the keyword which it is in small letters, or else a name. -/
def WordKind (word : List Char) (kind : TokenKind) : Prop :=
  (String.ofList (word.map Char.toLower), kind) ∈ keywords ∨
    kind = .ident ∧ ∀ k, (String.ofList (word.map Char.toLower), k) ∉ keywords

/-- The rules for the front of a text `c :: cs`, each where the rules before it do not apply. -/
inductive Rule (c : Char) (cs : List Char) : Item → Prop
  | note {sign digits tail rest : List Char} : StartsNote c cs → Longest IsSign cs sign tail →
    Longest (AllIn IsDigit) tail digits rest → digits ≠ [] →
    Rule c cs ⟨.ok .note, c :: (sign ++ digits), rest⟩
  | missingOctave {sign tail : List Char} : StartsNote c cs → Longest IsSign cs sign tail →
    Longest (AllIn IsDigit) tail [] tail →
    Rule c cs ⟨.error .missingOctave, c :: sign, tail⟩
  | word {word rest : List Char} {kind : TokenKind} : ¬ StartsNote c cs → IsWordChar c →
    Longest (AllIn IsWordChar) (c :: cs) word rest → WordKind word kind →
    Rule c cs ⟨.ok kind, word, rest⟩
  | number {number rest : List Char} : ¬ StartsNote c cs → ¬ IsWordChar c → IsDigit c →
    Longest (AllIn IsNumberChar) (c :: cs) number rest → Rule c cs ⟨.ok .number, number, rest⟩
  | sign {kind : TokenKind} : ¬ StartsNote c cs → ¬ IsWordChar c → ¬ IsDigit c →
    (c, kind) ∈ signs → Rule c cs ⟨.ok kind, [c], cs⟩
  | unrecognized : ¬ StartsNote c cs → ¬ IsWordChar c → ¬ IsDigit c → (∀ kind, (c, kind) ∉ signs) →
    Rule c cs ⟨.error (.unrecognized c), [c], cs⟩

theorem isDigit_iff (c : Char) : c.isDigit = true ↔ IsDigit c := by
  simp only [Char.isDigit, Bool.and_eq_true, decide_eq_true_eq]
  exact Iff.rfl

theorem isWordChar_iff (c : Char) : isWordChar c = true ↔ IsWordChar c := by
  have hranges : c.isAlpha = (decide ('A' ≤ c ∧ c ≤ 'Z') || decide ('a' ≤ c) && decide (c ≤ 'z')) :=
    rfl
  have halpha : c.isAlpha = true ↔ 'A' ≤ c ∧ c ≤ 'Z' ∨ 'a' ≤ c ∧ c ≤ 'z' := by
    simp only [hranges, Bool.or_eq_true, Bool.and_eq_true, decide_eq_true_eq]
  simp [isWordChar, IsWordChar, halpha, or_assoc]

theorem isNumberChar_iff (c : Char) : isNumberChar c = true ↔ IsNumberChar c := by
  simp [isNumberChar, IsNumberChar, isDigit_iff, or_assoc]

theorem isPitchLetter_iff (c : Char) : isPitchLetter c = true ↔ c ∈ pitchLetters := by
  constructor
  · intro h
    have hvisible := visible_of_isPitchLetter h
    have hsmall : ∀ n < 127, isPitchLetter (.ofNat n) = true → Char.ofNat n ∈ pitchLetters := by
      decide
    have hc := hsmall c.toNat (by unfold Visible at hvisible; omega)
    rw [Char.ofNat_toNat] at hc
    exact hc h
  · intro h
    have hall : pitchLetters.all isPitchLetter = true := by decide
    exact List.all_eq_true.mp hall c h

theorem startsNote_iff (c : Char) (cs : List Char) :
    (isPitchLetter c && cs.head?.any continuesNote) = true ↔ StartsNote c cs := by
  rw [Bool.and_eq_true, isPitchLetter_iff, StartsNote, Option.any_eq_true]
  simp [continuesNote, isDigit_iff, or_assoc]

theorem sign?_eq_some_iff (c : Char) (kind : TokenKind) :
    sign? c = some kind ↔ (c, kind) ∈ signs := by
  unfold sign?
  split <;> simp_all [signs, eq_comm]

theorem wordKind_eq_iff (word : List Char) (kind : TokenKind) :
    wordKind word = kind ↔ WordKind word kind := by
  unfold wordKind WordKind
  generalize String.ofList (word.map Char.toLower) = w
  split <;> simp_all [keywords, eq_comm]

theorem longest_cons {p : Char → Bool} {P : Char → Prop} (hp : ∀ c, p c = true ↔ P c) {c : Char}
    (hc : P c) (cs : List Char) :
    Longest (AllIn P) (c :: cs) (c :: cs.takeWhile p) (cs.dropWhile p) := by
  have h := longest_takeWhile hp (c :: cs)
  rw [List.takeWhile_cons_of_pos ((hp c).mpr hc), List.dropWhile_cons_of_pos ((hp c).mpr hc)] at h
  exact h

theorem rule_note {c : Char} {cs : List Char} (h : StartsNote c cs) :
    Rule c cs (Item.note c cs) := by
  have hsign := longest_read cs
  have hdigits := longest_takeWhile isDigit_iff (Accidental.read cs).2
  by_cases hempty : (Accidental.read cs).2.takeWhile Char.isDigit = []
  · have happend := hdigits.append
    rw [hempty, List.nil_append] at happend
    rw [hempty, ← happend] at hdigits
    simp only [Item.note, hempty, List.isEmpty_nil, if_true, List.append_nil, ← happend]
    exact .missingOctave h hsign hdigits
  · simp only [Item.note, List.isEmpty_iff, hempty, if_false]
    exact .note h hsign hdigits hempty

/-- **The item at the front of a text is there by a rule.** -/
theorem rule_first (c : Char) (cs : List Char) : Rule c cs (Item.first c cs) := by
  unfold Item.first
  split
  · rename_i hnote
    exact rule_note ((startsNote_iff c cs).mp hnote)
  · rename_i hnote
    rw [startsNote_iff] at hnote
    split
    · rename_i hword
      rw [isWordChar_iff] at hword
      exact .word hnote hword (longest_cons isWordChar_iff hword cs) ((wordKind_eq_iff _ _).mp rfl)
    · rename_i hword
      rw [isWordChar_iff] at hword
      split
      · rename_i hdigit
        rw [isDigit_iff] at hdigit
        exact .number hnote hword hdigit (longest_cons isNumberChar_iff (.inl hdigit) cs)
      · rename_i hdigit
        rw [isDigit_iff] at hdigit
        unfold Item.sign
        cases hsign : sign? c with
        | some kind => exact .sign hnote hword hdigit ((sign?_eq_some_iff c kind).mp hsign)
        | none =>
          refine .unrecognized hnote hword hdigit fun kind hkind => ?_
          rw [← sign?_eq_some_iff, hsign] at hkind
          cases hkind

/-- **No other item is there by a rule.** -/
theorem Rule.first_eq {c : Char} {cs : List Char} {item : Item} (h : Rule c cs item) :
    Item.first c cs = item := by
  cases h with
  | note hnote hsign hdigits hne =>
    rw [Item.first, if_pos ((startsNote_iff c cs).mpr hnote), Item.note]
    obtain ⟨hsymbol, rfl⟩ := (longest_read cs).unique hsign
    obtain ⟨rfl, rfl⟩ := (longest_takeWhile isDigit_iff _).unique hdigits
    simp [hsymbol, hne]
  | missingOctave hnote hsign hdigits =>
    rw [Item.first, if_pos ((startsNote_iff c cs).mpr hnote), Item.note]
    obtain ⟨hsymbol, rfl⟩ := (longest_read cs).unique hsign
    obtain ⟨htake, hdrop⟩ := (longest_takeWhile isDigit_iff _).unique hdigits
    simp [hsymbol, htake, hdrop]
  | word hnote hc hword hkind =>
    rw [← startsNote_iff] at hnote
    rw [Item.first, if_neg hnote, if_pos ((isWordChar_iff c).mpr hc), Item.word]
    obtain ⟨rfl, rfl⟩ := (longest_cons isWordChar_iff hc cs).unique hword
    simp [(wordKind_eq_iff _ _).mpr hkind]
  | number hnote hword hdigit hnumber =>
    rw [← startsNote_iff] at hnote
    rw [← isWordChar_iff] at hword
    rw [Item.first, if_neg hnote, if_neg hword, if_pos ((isDigit_iff c).mpr hdigit), Item.number]
    obtain ⟨rfl, rfl⟩ := (longest_cons isNumberChar_iff (.inl hdigit) cs).unique hnumber
    rfl
  | sign hnote hword hdigit hsign =>
    rw [← startsNote_iff] at hnote
    rw [← isWordChar_iff] at hword
    rw [← isDigit_iff] at hdigit
    rw [Item.first, if_neg hnote, if_neg hword, if_neg hdigit, Item.sign,
      (sign?_eq_some_iff _ _).mpr hsign]
  | unrecognized hnote hword hdigit hsign =>
    have hnone : sign? c = none := by
      rw [Option.eq_none_iff_forall_ne_some]
      exact fun kind hkind => hsign kind ((sign?_eq_some_iff c kind).mp hkind)
    rw [← startsNote_iff] at hnote
    rw [← isWordChar_iff] at hword
    rw [← isDigit_iff] at hdigit
    rw [Item.first, if_neg hnote, if_neg hword, if_neg hdigit, Item.sign, hnone]

/-! ## The next lexeme -/

/-- What a cursor comes to behind the longest gap: the end of the text, or the item there. -/
inductive Cursor.Reads (c : Cursor) : Option Lexeme × Cursor → Prop
  | ending : Longest GapBefore c.rest c.rest [] → Reads c (none, ⟨[], c.pos.advance c.rest⟩)
  | lexeme {gap : List Char} {ch : Char} {chs : List Char} {item : Item} :
    Longest GapBefore c.rest gap (ch :: chs) → Rule ch chs item →
    Reads c (some ⟨item.verdict, .ofList item.text, c.pos.advance gap⟩,
      ⟨item.rest, (c.pos.advance gap).advance item.text⟩)

theorem Cursor.next_of_splitGap_nil {c : Cursor} {gap : List Char}
    (h : splitGap false c.rest = (gap, [])) : c.next = (none, ⟨[], c.pos.advance gap⟩) := by
  simp only [next, skipGap, h]

theorem Cursor.next_of_splitGap_cons {c : Cursor} {gap : List Char} {ch : Char} {chs : List Char}
    (h : splitGap false c.rest = (gap, ch :: chs)) :
    c.next = (some ⟨(Item.first ch chs).verdict, .ofList (Item.first ch chs).text,
        c.pos.advance gap⟩,
      ⟨(Item.first ch chs).rest, (c.pos.advance gap).advance (Item.first ch chs).text⟩) := by
  simp only [next, skipGap, h]

/-- **A cursor follows the rules**, from whatever place on: behind the longest gap it comes to the
end, or to the one item that the first rule which applies there takes. -/
theorem next_eq_iff (c : Cursor) (r : Option Lexeme × Cursor) : c.next = r ↔ c.Reads r := by
  have hgap := longest_splitGap c.rest
  constructor
  · rintro rfl
    cases hsplit : splitGap false c.rest with
    | mk gap rest =>
      rw [hsplit] at hgap
      cases rest with
      | nil =>
        have happend := hgap.append
        rw [List.append_nil] at happend
        rw [Cursor.next_of_splitGap_nil hsplit]
        dsimp only at happend
        subst happend
        exact .ending hgap
      | cons ch chs =>
        rw [Cursor.next_of_splitGap_cons hsplit]
        exact .lexeme hgap (rule_first ch chs)
  · intro h
    cases h with
    | ending h =>
      obtain ⟨hfront, hrest⟩ := hgap.unique h
      exact Cursor.next_of_splitGap_nil (Prod.ext hfront hrest)
    | lexeme h hrule =>
      obtain ⟨hfront, hrest⟩ := hgap.unique h
      rw [Cursor.next_of_splitGap_cons (Prod.ext hfront hrest), hrule.first_eq]

end Melody

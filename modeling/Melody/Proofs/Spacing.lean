import Melody.Proofs.Literals

/-!
# Tokens can be written again

A token that has been read is read again from its own characters, whatever follows them, as long
as that begins with a blank. So every row of tokens that texts can have is the row of tokens of a
text: write them one after the other, each behind a blank.

* `Visible`: the characters of tokens, none of which is blank;
* **`Item.first_append_of_ok`**: a blank ends a token without changing it;
* `Token.Legible`: a token that its own characters stand for; `legible_of_mem_reading`;
* `Laid`: words with gaps between them; **`tokens_laid`**: tokens can be laid out anew;
* `spaced`, `tokens_spaced`: one blank in each gap.
-/

namespace Melody

/-- The characters that tokens are made of are among the visible ones of ASCII. -/
def Visible (c : Char) : Prop := 33 ≤ c.toNat ∧ c.toNat ≤ 126

instance (c : Char) : Decidable (Visible c) :=
  inferInstanceAs (Decidable (33 ≤ c.toNat ∧ c.toNat ≤ 126))

theorem isBlank_eq_false_of_visible {c : Char} (h : Visible c) : Text.isBlank c = false := by
  obtain ⟨hlow, hhigh⟩ := h
  simp only [Text.isBlank, Text.blankRanges, List.any_cons, List.any_nil, Bool.or_false,
    Bool.or_eq_false_iff, Bool.and_eq_false_iff, decide_eq_false_iff_not]
  omega

theorem visible_of_isDigit {c : Char} (h : c.isDigit = true) : Visible c := by
  simp only [Char.isDigit, Bool.and_eq_true, decide_eq_true_eq, ge_iff_le,
    UInt32.le_iff_toNat_le] at h
  change 48 ≤ c.toNat ∧ c.toNat ≤ 57 at h
  exact ⟨by omega, by omega⟩

theorem visible_of_isWordChar {c : Char} (h : isWordChar c = true) : Visible c := by
  have halpha : c.isAlpha = (decide (65 ≤ c.val ∧ c.val ≤ 90) ||
      decide (97 ≤ c.val) && decide (c.val ≤ 122)) := rfl
  simp only [isWordChar, halpha, Bool.or_eq_true, Bool.and_eq_true, decide_eq_true_eq, beq_iff_eq,
    UInt32.le_iff_toNat_le] at h
  change ((65 ≤ c.toNat ∧ c.toNat ≤ 90) ∨ (97 ≤ c.toNat ∧ c.toNat ≤ 122)) ∨ c = '_' at h
  rcases h with (h | h) | rfl
  · exact ⟨by omega, by omega⟩
  · exact ⟨by omega, by omega⟩
  · decide

theorem visible_of_isNumberChar {c : Char} (h : isNumberChar c = true) : Visible c := by
  simp only [isNumberChar, Bool.or_eq_true, beq_iff_eq] at h
  rcases h with (h | rfl) | rfl
  · exact visible_of_isDigit h
  · decide
  · decide

theorem visible_of_continuesNote {c : Char} (h : continuesNote c = true) : Visible c := by
  simp only [continuesNote, Bool.or_eq_true, beq_iff_eq] at h
  rcases h with (rfl | rfl) | h
  · decide
  · decide
  · exact visible_of_isDigit h

theorem visible_of_isPitchLetter {c : Char} (h : isPitchLetter c = true) : Visible c := by
  obtain ⟨l, hl⟩ := Option.isSome_iff_exists.mp h
  rw [Letter.ofChar?_eq_some_iff] at hl
  unfold Char.toUpper at hl
  split at hl
  · rename_i hlower
    simp only [UInt32.le_iff_toNat_le] at hlower
    change 97 ≤ c.toNat ∧ c.toNat ≤ 122 at hlower
    exact ⟨by omega, by omega⟩
  · rw [hl]
    cases l <;> decide

theorem visible_of_sign? {c : Char} {kind : TokenKind} (h : sign? c = some kind) : Visible c := by
  unfold sign? at h
  split at h
  · decide
  · decide
  · decide
  · decide
  · decide
  · cases h

theorem eq_false_of_isBlank {p : Char → Bool} (hp : ∀ c, p c = true → Visible c) {b : Char}
    (hb : Text.isBlank b = true) : p b = false := by
  by_contra h
  rw [Bool.not_eq_false] at h
  rw [isBlank_eq_false_of_visible (hp b h)] at hb
  cases hb

/-! ## What ends a token -/

/-- The text begins with a blank, or is empty. -/
def Detached (cs : List Char) : Prop := ∀ b ∈ cs.head?, Text.isBlank b = true

theorem Detached.takeWhile {p : Char → Bool} (hp : ∀ c, p c = true → Visible c)
    {ds more : List Char} (hds : ∀ d ∈ ds, p d = true) (hmore : Detached more) :
    (ds ++ more).takeWhile p = ds := by
  rw [List.takeWhile_append_of_pos hds]
  cases more with
  | nil => simp
  | cons b more =>
    have hb := eq_false_of_isBlank hp (hmore b rfl)
    rw [List.takeWhile_cons_of_neg (by simp [hb]), List.append_nil]

theorem Detached.dropWhile {p : Char → Bool} (hp : ∀ c, p c = true → Visible c)
    {ds more : List Char} (hds : ∀ d ∈ ds, p d = true) (hmore : Detached more) :
    (ds ++ more).dropWhile p = more := by
  have happend := List.takeWhile_append_dropWhile (p := p) (l := ds ++ more)
  rw [Detached.takeWhile hp hds hmore] at happend
  exact List.append_cancel_left happend

/-- What follows a pitch letter does not become a note by being cut off before a blank. -/
theorem Detached.not_note {c : Char} {cs ds more : List Char} (hfront : ds <+: cs)
    (hmore : Detached more) (h : (isPitchLetter c && cs.head?.any continuesNote) = false) :
    (isPitchLetter c && (ds ++ more).head?.any continuesNote) = false := by
  cases ds with
  | nil =>
    cases more with
    | nil => simp
    | cons b more =>
      have hb := eq_false_of_isBlank (fun _ => visible_of_continuesNote) (hmore b rfl)
      simp [hb]
  | cons d ds =>
    obtain ⟨es, rfl⟩ := hfront
    exact h

namespace Item

variable {c : Char} {cs ds rest more : List Char} {kind : TokenKind}

theorem note_append (h : note c cs = ⟨.ok kind, c :: ds, rest⟩) (hmore : Detached more) :
    ds.head?.any continuesNote = true ∧ note c (ds ++ more) = ⟨.ok kind, c :: ds, more⟩ := by
  simp only [note, Item.mk.injEq, List.cons.injEq, true_and] at h
  obtain ⟨hverdict, rfl, -⟩ := h
  generalize (Accidental.read cs).1 = a
  have hdigits : ∀ d ∈ (Accidental.read cs).2.takeWhile Char.isDigit, d.isDigit = true :=
    fun d hd => List.mem_takeWhile_imp hd
  generalize (Accidental.read cs).2.takeWhile Char.isDigit = digits at hverdict hdigits
  cases digits with
  | nil => cases hverdict
  | cons d ds =>
    obtain rfl : TokenKind.note = kind := Except.ok.inj hverdict
    have hd := hdigits d List.mem_cons_self
    constructor
    · cases a <;> simp [Accidental.symbol, continuesNote, hd]
    · rw [List.append_assoc, List.cons_append, note, a.read_symbol_cons hd, ← List.cons_append]
      dsimp only
      rw [hmore.takeWhile (fun _ => visible_of_isDigit) hdigits,
        hmore.dropWhile (fun _ => visible_of_isDigit) hdigits]
      rfl

/-- The longest token of characters in the class `p` that begins with `c`, as words and numbers
are. -/
def longest (p : Char → Bool) (f : List Char → TokenKind) (c : Char) (cs : List Char) : Item :=
  ⟨.ok (f (c :: cs.takeWhile p)), c :: cs.takeWhile p, cs.dropWhile p⟩

theorem longest_append {p : Char → Bool} {f : List Char → TokenKind}
    (hp : ∀ c, p c = true → Visible c) (h : longest p f c cs = ⟨.ok kind, c :: ds, rest⟩)
    (hmore : Detached more) : longest p f c (ds ++ more) = ⟨.ok kind, c :: ds, more⟩ := by
  simp only [longest, Item.mk.injEq, List.cons.injEq, true_and, Except.ok.injEq] at h
  obtain ⟨rfl, rfl, -⟩ := h
  have hds : ∀ d ∈ cs.takeWhile p, p d = true := fun d hd => List.mem_takeWhile_imp hd
  rw [longest, hmore.takeWhile hp hds, hmore.dropWhile hp hds]

theorem sign_append (h : sign c cs = ⟨.ok kind, c :: ds, rest⟩) :
    sign c (ds ++ more) = ⟨.ok kind, c :: ds, more⟩ := by
  simp only [sign, Item.mk.injEq, List.cons.injEq, true_and] at h
  obtain ⟨hverdict, rfl, -⟩ := h
  rw [sign, hverdict, List.nil_append]

/-- **A blank ends a token without changing it**, and so does the end of the text. -/
theorem first_append_of_ok (h : first c cs = ⟨.ok kind, c :: ds, rest⟩) (hmore : Detached more) :
    first c (ds ++ more) = ⟨.ok kind, c :: ds, more⟩ := by
  have happend := first_append c cs
  rw [h, List.cons_append, List.cons.injEq] at happend
  have hfront : ds <+: cs := ⟨rest, happend.2⟩
  unfold first at h
  split at h
  · rename_i hnote
    rw [Bool.and_eq_true] at hnote
    obtain ⟨hcontinues, hread⟩ := note_append h hmore
    have hhead : (ds ++ more).head?.any continuesNote = true := by
      cases ds with
      | nil => cases hcontinues
      | cons d ds => exact hcontinues
    rw [first, hnote.1, hhead]
    exact hread
  · rename_i hnote
    have hnote' := hmore.not_note hfront (Bool.eq_false_iff.mpr hnote)
    rw [first, if_neg (Bool.eq_false_iff.mp hnote')]
    split at h
    · rename_i hword
      rw [if_pos hword]
      exact longest_append (p := isWordChar) (f := wordKind)
        (fun _ => visible_of_isWordChar) h hmore
    · rename_i hword
      rw [if_neg hword]
      split at h
      · rename_i hdigit
        rw [if_pos hdigit]
        exact longest_append (p := isNumberChar) (f := fun _ => .number)
          (fun _ => visible_of_isNumberChar) h hmore
      · rename_i hdigit
        rw [if_neg hdigit]
        exact sign_append h

end Item

/-! ## Legible tokens -/

/-- The characters of the token stand for it. -/
def Token.Legible (t : Token) : Prop :=
  ∃ c ds, t.text.toList = c :: ds ∧ Item.first c ds = ⟨.ok t.kind, c :: ds, []⟩

theorem Item.legible_of_first {c : Char} {cs : List Char} {kind : TokenKind}
    (h : (first c cs).verdict = .ok kind) (pos : Position) :
    Token.Legible ⟨kind, .ofList (first c cs).text, pos⟩ := by
  obtain ⟨d, ds, hds⟩ := List.exists_cons_of_ne_nil (first_ne_nil c cs)
  have happend := first_append c cs
  rw [hds, List.cons_append, List.cons.injEq] at happend
  obtain rfl := happend.1
  have hfirst : first d cs = ⟨.ok kind, d :: ds, (first d cs).rest⟩ := by
    rw [← h, ← hds]
  have hend : Detached [] := nofun
  have hread := first_append_of_ok hfirst hend
  rw [List.append_nil] at hread
  exact ⟨d, ds, by simp [hds], hread⟩

theorem Cursor.legible_of_next {c c' : Cursor} {x : Lexeme} {t : Token}
    (h : c.next = (some x, c')) (ht : x.token = .ok t) : t.Legible := by
  unfold next at h
  split at h
  · cases h
  · rename_i ch chs pos _
    simp only [Prod.mk.injEq, Option.some.injEq] at h
    rw [← h.1] at ht
    obtain ⟨hverdict, htext, hpos⟩ := Lexeme.token_eq_ok_iff.mp ht
    obtain ⟨kind, text, place⟩ := t
    cases htext
    exact Item.legible_of_first hverdict place

/-- **The tokens of a text are legible.** -/
theorem Cursor.legible_of_mem_reading (c : Cursor) {x : Lexeme} {t : Token}
    (hx : x ∈ c.reading.lexemes) (ht : x.token = .ok t) : t.Legible := by
  induction c using Cursor.reading.induct with
  | case1 c c' h =>
    rw [reading_of_next_none h] at hx
    cases hx
  | case2 c y c' h ih =>
    rw [reading_of_next_some h, List.mem_cons] at hx
    rcases hx with rfl | hx
    · exact legible_of_next h ht
    · exact ih hx

/-! ## Words with gaps between them -/

/-- A text that consists of words in their order, each behind a gap; a gap between two words begins
with a blank. If the text follows another word, then this holds for its first gap as well. -/
inductive Laid : Bool → List String → List Char → Prop
  | ending {follows : Bool} {gap : List Char} : Gap true gap → (follows = true → Detached gap) →
    Laid follows [] gap
  | word {follows : Bool} {gap rest : List Char} {word : String} {words : List String} :
    Gap false gap → (follows = true → gap ≠ [] ∧ Detached gap) → Laid true words rest →
    Laid follows (word :: words) (gap ++ (word.toList ++ rest))

theorem Laid.detached {words : List String} {cs : List Char} (h : Laid true words cs) :
    Detached cs := by
  cases h with
  | ending _ hdetached => exact hdetached rfl
  | word _ hfollows _ =>
    obtain ⟨hne, hdetached⟩ := hfollows rfl
    obtain ⟨b, gap, rfl⟩ := List.exists_cons_of_ne_nil hne
    exact hdetached

/-- Kind and characters of a token, wherever it stands. -/
def Token.word (t : Token) : TokenKind × String := (t.kind, t.text)

theorem splitGap_of_visible {c : Char} (hc : Visible c) (hslash : c ≠ '/') (cs : List Char) :
    splitGap false (c :: cs) = ([], c :: cs) := by
  have hcomment : opensComment (c :: cs) = false := by
    unfold opensComment
    split
    · rename_i heq
      exact absurd (List.cons.inj heq).1 hslash
    · rfl
  simp [splitGap, isBlank_eq_false_of_visible hc, hcomment]

theorem Item.visible_of_first {c : Char} {cs : List Char} {kind : TokenKind}
    (h : (first c cs).verdict = .ok kind) : Visible c ∧ c ≠ '/' := by
  unfold first at h
  split at h
  · rename_i hnote
    rw [Bool.and_eq_true] at hnote
    exact ⟨visible_of_isPitchLetter hnote.1, fun hc => absurd (hc ▸ hnote.1) (by decide)⟩
  · split at h
    · rename_i hword
      exact ⟨visible_of_isWordChar hword, fun hc => absurd (hc ▸ hword) (by decide)⟩
    · split at h
      · rename_i hdigit
        exact ⟨visible_of_isDigit hdigit, fun hc => absurd (hc ▸ hdigit) (by decide)⟩
      · cases hsign : sign? c with
        | none => simp [sign, hsign] at h
        | some kind =>
          exact ⟨visible_of_sign? hsign, fun hc => absurd (hc ▸ hsign) (by simp [sign?])⟩

namespace Cursor

theorem next_gap_append {t : Token} (ht : t.Legible) {gap more : List Char} (hgap : Gap false gap)
    (hmore : Detached more) (pos : Position) :
    next ⟨gap ++ (t.text.toList ++ more), pos⟩ =
      (some ⟨.ok t.kind, t.text, pos.advance gap⟩,
        ⟨more, (pos.advance gap).advance t.text.toList⟩) := by
  obtain ⟨c, ds, htext, hfirst⟩ := ht
  obtain ⟨hvisible, hslash⟩ := Item.visible_of_first (congrArg Item.verdict hfirst)
  have hsplit : splitGap false (gap ++ (t.text.toList ++ more)) = (gap, c :: (ds ++ more)) := by
    rw [splitGap_gap_append hgap nofun, htext, List.cons_append,
      splitGap_of_visible hvisible hslash, List.append_nil]
  simp only [next, skipGap, hsplit, Item.first_append_of_ok hfirst hmore, ← htext,
    String.ofList_toList]

theorem next_gap {gap : List Char} (hgap : Gap true gap) (pos : Position) :
    next ⟨gap, pos⟩ = (none, ⟨[], pos.advance gap⟩) := by
  have hsplit : splitGap false (gap ++ []) = (gap ++ [], []) :=
    splitGap_gap_append hgap fun _ => rfl
  rw [List.append_nil] at hsplit
  simp only [next, skipGap, hsplit]

theorem tokens_reading_laid {follows : Bool} {words : List String} {cs : List Char}
    (h : Laid follows words cs) {ts : List Token} (hwords : ts.map Token.text = words)
    (hts : ∀ t ∈ ts, t.Legible) (pos : Position) :
    ∃ ts', (reading ⟨cs, pos⟩).tokens = .ok ts' ∧ ts'.map Token.word = ts.map Token.word := by
  induction h generalizing ts pos with
  | ending hgap _ =>
    obtain rfl := List.map_eq_nil_iff.mp hwords
    rw [reading_of_next_none (next_gap hgap pos)]
    exact ⟨[], rfl, rfl⟩
  | @word _ gap rest _ _ hgap _ hrest ih =>
    obtain ⟨t, ts, rfl, rfl, htail⟩ := List.map_eq_cons_iff.mp hwords
    obtain ⟨ht, hts⟩ := List.forall_mem_cons.mp hts
    obtain ⟨ts', htokens, hmap⟩ := ih htail hts ((pos.advance gap).advance t.text.toList)
    refine ⟨⟨t.kind, t.text, pos.advance gap⟩ :: ts', ?_, ?_⟩
    · rw [reading_of_next_some (next_gap_append ht hgap hrest.detached pos)]
      rw [Reading.tokens] at htokens ⊢
      rw [List.mapM_cons, htokens]
      rfl
    · rw [List.map_cons, hmap]
      rfl

end Cursor

/-- **Tokens can be laid out anew**: whatever the gaps between them, they are the same up to their
places. -/
theorem tokens_laid {source : String} {ts : List Token}
    (h : Laid false (ts.map Token.text) source.toList) (hts : ∀ t ∈ ts, t.Legible) :
    ∃ ts', (Reading.of source).tokens = .ok ts' ∧ ts'.map Token.word = ts.map Token.word :=
  Cursor.tokens_reading_laid h rfl hts .start

/-- The characters of tokens one after the other, each behind a blank. -/
def spaced (ts : List Token) : List Char := ts.flatMap fun t => ' ' :: t.text.toList

theorem laid_spaced (follows : Bool) (ts : List Token) :
    Laid follows (ts.map Token.text) (spaced ts) := by
  induction ts generalizing follows with
  | nil => exact .ending .nil fun _ => nofun
  | cons t ts ih =>
    have hblank : Text.isBlank ' ' = true := by decide
    have hdetached : Detached [' '] := fun b hb => Option.some.inj hb ▸ hblank
    exact .word (.blank hblank .nil) (fun _ => ⟨nofun, hdetached⟩) (ih true)

theorem tokens_spaced (ts : List Token) (hts : ∀ t ∈ ts, t.Legible) :
    ∃ ts', (Reading.of (.ofList (spaced ts))).tokens = .ok ts' ∧
      ts'.map Token.word = ts.map Token.word := by
  refine tokens_laid ?_ hts
  rw [String.toList_ofList]
  exact laid_spaced false ts

end Melody

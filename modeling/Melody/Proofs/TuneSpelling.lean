import Melody.Proofs.Defects
import Melody.Proofs.Literals
import Melody.Tune

/-!
# A note of a tune can be read again

A tune spells an octave by the case of the letter and by as many commas or apostrophes as it takes,
and leaves out the length of a quarter. The spelling is still read in one way only: the letter comes
before the marks, and no length begins with a mark.

* `Accidental.readTune`, `readMarks`, `Letter.readTune?`, `tuneLength?`: readers for the parts of a
  note, each the inverse of its writer;
* `readTuneNote?`: the spelling, the octave and the length that a note of a tune says;
  `readTuneNote?_eq_some_iff`: it accepts what is written, and nothing else;
* **`tuneText_unambiguous`**: two notes have the same text iff they agree in letter, accidental,
  octave and length.
-/

namespace Melody

/-- The accidental at the front of a note of a tune, and what follows its sign. -/
def Accidental.readTune : List Char → Accidental × List Char
  | '_' :: cs => (flat, cs)
  | '^' :: cs => (sharp, cs)
  | cs => (natural, cs)

/-- How often a mark stands at the front of a text, and what follows. -/
def readMarks (mark : Char) (cs : List Char) : Nat × List Char :=
  ((cs.takeWhile (· == mark)).length, cs.dropWhile (· == mark))

/-- The letter that a small letter names. -/
def Letter.ofSmall? (small : Char) : Option Letter :=
  [a, b, c, d, e, f, g].find? fun l => l.toChar.toLower == small

/-- The letter and the octave at the front of a note of a tune, and what follows: each comma behind
a capital goes down from the fourth octave, each apostrophe behind a small letter goes up from the
fifth. -/
def Letter.readTune? : List Char → Option (Letter × Nat × List Char)
  | [] => none
  | name :: cs =>
    match ofChar? name with
    | some l =>
      let (marks, rest) := readMarks ',' cs
      if marks ≤ 4 then some (l, 4 - marks, rest) else none
    | none =>
      let (marks, rest) := readMarks '\x27' cs
      (ofSmall? name).map (·, 5 + marks, rest)

/-- The length that a note of a tune ends with. -/
def tuneLength? : List Char → Option String
  | ['4'] => some "1"
  | ['2'] => some "1/2"
  | [] => some "1/4"
  | ['/', '2'] => some "1/8"
  | ['/', '4'] => some "1/16"
  | _ => none

/-- The spelling, the octave and the length of a note of a tune, if the text is one. -/
def readTuneNote? (cs : List Char) : Option (Spelling × UInt32 × String) := do
  let (accidental, cs) := Accidental.readTune cs
  let (letter, octave, cs) ← Letter.readTune? cs
  let length ← tuneLength? cs
  if octave < UInt32.size then some (⟨letter, accidental⟩, .ofNat octave, length) else none

theorem Accidental.tuneSign_append_readTune (cs : List Char) :
    (readTune cs).1.tuneSign ++ (readTune cs).2 = cs := by
  fun_cases readTune cs <;> rfl

theorem Accidental.readTune_cons {c : Char} (hflat : c ≠ '_') (hsharp : c ≠ '^')
    (a : Accidental) (cs : List Char) : readTune (a.tuneSign ++ c :: cs) = (a, c :: cs) := by
  cases a with
  | flat | sharp => rfl
  | natural =>
    rw [tuneSign, List.nil_append]
    unfold readTune
    split
    · rename_i heq
      exact absurd (List.cons.inj heq).1 hflat
    · rename_i heq
      exact absurd (List.cons.inj heq).1 hsharp
    · rfl

theorem replicate_append_readMarks (mark : Char) (cs : List Char) :
    List.replicate (readMarks mark cs).1 mark ++ (readMarks mark cs).2 = cs := by
  have hmarks : cs.takeWhile (· == mark) = List.replicate (readMarks mark cs).1 mark := by
    refine List.eq_replicate_iff.mpr ⟨rfl, fun c hc => ?_⟩
    simpa using List.mem_takeWhile_imp hc
  rw [← hmarks]
  exact List.takeWhile_append_dropWhile

theorem readMarks_replicate_append {mark : Char} {rest : List Char}
    (h : rest.head? ≠ some mark) (n : Nat) :
    readMarks mark (List.replicate n mark ++ rest) = (n, rest) := by
  have hrest : rest.takeWhile (· == mark) = [] ∧ rest.dropWhile (· == mark) = rest := by
    cases rest with
    | nil => exact ⟨rfl, rfl⟩
    | cons c cs =>
      have hc : ¬ (c == mark) = true := fun hc => h (congrArg some (eq_of_beq hc))
      exact ⟨List.takeWhile_cons_of_neg hc, List.dropWhile_cons_of_neg hc⟩
  simp [readMarks, hrest]

/-! ## Letters with their octave -/

theorem Letter.ofSmall?_toLower (l : Letter) : ofSmall? l.toChar.toLower = some l := by
  cases l <;> rfl

theorem Letter.ofChar?_toLower (l : Letter) : ofChar? l.toChar.toLower = none := by
  cases l <;> rfl

/-- **A letter with its marks is read again**, whatever follows that is not a mark. -/
theorem Letter.readTune?_append (l : Letter) (octave : Nat) {rest : List Char}
    (hcomma : rest.head? ≠ some ',') (hapostrophe : rest.head? ≠ some '\x27') :
    readTune? (l.tuneText octave ++ rest) = some (l, octave, rest) := by
  unfold tuneText
  split_ifs with hoctave
  · rw [List.cons_append, readTune?, ofChar?_toChar]
    simp only [readMarks_replicate_append hcomma]
    rw [if_pos (by omega), Nat.sub_sub_self hoctave]
  · rw [List.cons_append, readTune?, ofChar?_toLower]
    simp only [readMarks_replicate_append hapostrophe]
    rw [ofSmall?_toLower, Option.map_some, Nat.add_sub_cancel' (by omega)]

/-- **What is read as a letter with its marks is written so.** -/
theorem Letter.tuneText_append_of_readTune? {cs rest : List Char} {l : Letter} {octave : Nat}
    (h : readTune? cs = some (l, octave, rest)) : l.tuneText octave ++ rest = cs := by
  cases cs with
  | nil => cases h
  | cons c cs =>
    rw [readTune?] at h
    cases hcapital : ofChar? c with
    | some l' =>
      have hmarks := replicate_append_readMarks ',' cs
      rw [hcapital] at h
      generalize readMarks ',' cs = read at h hmarks
      obtain ⟨hle, heq⟩ := Option.ite_none_right_eq_some.mp h
      cases heq
      rw [tuneText, if_pos (Nat.sub_le _ _), Nat.sub_sub_self hle, List.cons_append, hmarks,
        ofChar?_eq_some_iff.mp hcapital]
    | none =>
      have hmarks := replicate_append_readMarks '\x27' cs
      rw [hcapital] at h
      generalize readMarks '\x27' cs = read at h hmarks
      obtain ⟨_, hsmall, heq⟩ := Option.map_eq_some_iff.mp h
      cases heq
      have hc : l.toChar.toLower = c := by simpa using List.find?_some hsmall
      rw [tuneText, if_neg (by omega), Nat.add_sub_cancel_left, List.cons_append, hmarks, hc]

theorem tuneLength?_eq_some_iff {cs : List Char} {length : String} :
    tuneLength? cs = some length ↔ length ∈ lengths ∧ (tuneLength length).toList = cs := by
  constructor
  · intro h
    unfold tuneLength? at h
    split at h <;> cases h <;> decide
  · rintro ⟨hlength, rfl⟩
    revert length
    decide

theorem head?_tuneLength (length : String) {mark : Char} (hmark : mark ∉ ['4', '2', '/']) :
    (tuneLength length).toList.head? ≠ some mark := by
  unfold tuneLength
  split <;> simp_all [eq_comm]

/-! ## Notes -/

theorem Letter.tuneText_eq_cons (l : Letter) (octave : Nat) :
    ∃ name marks, l.tuneText octave = name :: marks ∧ name ≠ '_' ∧ name ≠ '^' := by
  unfold tuneText
  split_ifs
  · exact ⟨_, _, rfl, by cases l <;> decide, by cases l <;> decide⟩
  · exact ⟨_, _, rfl, by cases l <;> decide, by cases l <;> decide⟩

theorem Note.toList_tuneText (n : Note) : n.tuneText.toList = n.spelling.accidental.tuneSign ++
    (n.spelling.letter.tuneText n.octave.toNat ++ (tuneLength n.length).toList) := by
  simp [tuneText]

/-- **A note is read from its text**, and from no other text. -/
theorem readTuneNote?_eq_some_iff (n : Note) (cs : List Char) :
    readTuneNote? cs = some (n.spelling, n.octave, n.length) ↔
      n.length ∈ lengths ∧ n.tuneText.toList = cs := by
  rw [n.toList_tuneText]
  constructor
  · intro h
    obtain ⟨⟨letter, octave, rest⟩, hletter, h⟩ := Option.bind_eq_some_iff.mp h
    obtain ⟨length, hlength, h⟩ := Option.bind_eq_some_iff.mp h
    obtain ⟨hsize, heq⟩ := Option.ite_none_right_eq_some.mp h
    obtain ⟨hspelling, hoctave, rfl⟩ : _ ∧ _ ∧ _ := by simpa using heq
    obtain ⟨hmem, rfl⟩ := tuneLength?_eq_some_iff.mp hlength
    have htext := Letter.tuneText_append_of_readTune? hletter
    have hsign := Accidental.tuneSign_append_readTune cs
    rw [← hspelling, ← hoctave, UInt32.toNat_ofNat_of_lt' hsize, htext]
    exact ⟨hmem, hsign⟩
  · rintro ⟨hlength, rfl⟩
    have hcomma := head?_tuneLength n.length (by decide : ',' ∉ ['4', '2', '/'])
    have hapostrophe := head?_tuneLength n.length (by decide : '\x27' ∉ ['4', '2', '/'])
    have hletter := n.spelling.letter.readTune?_append n.octave.toNat hcomma hapostrophe
    have hsize : n.octave.toNat < UInt32.size := n.octave.toNat_lt
    obtain ⟨name, marks, htext, hflat, hsharp⟩ :=
      n.spelling.letter.tuneText_eq_cons n.octave.toNat
    have hsign := n.spelling.accidental.readTune_cons hflat hsharp
      (marks ++ (tuneLength n.length).toList)
    rw [htext] at hletter ⊢
    rw [List.cons_append] at hletter ⊢
    simp [readTuneNote?, hsign, hletter, tuneLength?_eq_some_iff.mpr ⟨hlength, rfl⟩, hsize]

/-- **Two notes have the same text iff they are the same note**, up to their places in a score: the
same letter and accidental, the same octave and the same length. There is a reader that finds all of
them in the text of a note, and that accepts nothing but texts of notes. -/
theorem tuneText_unambiguous :
    (∀ (n : Note) (cs : List Char), readTuneNote? cs = some (n.spelling, n.octave, n.length) ↔
      n.length ∈ lengths ∧ n.tuneText.toList = cs) ∧
    ∀ m n : Note, m.length ∈ lengths → n.length ∈ lengths →
      (m.tuneText = n.tuneText ↔ m.spelling.letter = n.spelling.letter ∧
        m.spelling.accidental = n.spelling.accidental ∧ m.octave = n.octave ∧
        m.length = n.length) := by
  refine ⟨readTuneNote?_eq_some_iff, fun m n hm hn => ⟨fun h => ?_, ?_⟩⟩
  · have hread := (readTuneNote?_eq_some_iff m _).mpr ⟨hm, rfl⟩
    rw [h, (readTuneNote?_eq_some_iff n _).mpr ⟨hn, rfl⟩] at hread
    obtain ⟨hspelling, hoctave, hlength⟩ : _ ∧ _ ∧ _ := by simpa using hread
    rw [hspelling, hoctave, hlength]
    exact ⟨rfl, rfl, rfl, rfl⟩
  · rintro ⟨hletter, haccidental, hoctave, hlength⟩
    rw [Note.tuneText, Note.tuneText, hletter, haccidental, hoctave, hlength]

/-- A small letter with an apostrophe and half a length, and a capital whose length is not half. -/
theorem tuneText_unambiguous_sharp :
    let m : Note := ⟨.start, ⟨.c, .sharp⟩, 6, "1/8"⟩
    let n : Note := ⟨.start, ⟨.c, .natural⟩, 4, "1/2"⟩
    m.length ∈ lengths ∧ n.length ∈ lengths ∧
      readTuneNote? "^c'/2".toList = some (⟨.c, .sharp⟩, 6, "1/8") ∧ m.tuneText ≠ n.tuneText := by
  intro m n
  have hm : m.length ∈ lengths := by decide
  have hn : n.length ∈ lengths := by decide
  obtain ⟨hread, hinjective⟩ := tuneText_unambiguous
  refine ⟨hm, hn, (hread m _).mpr ⟨hm, by decide⟩, fun h => ?_⟩
  obtain ⟨-, -, hoctave, -⟩ := (hinjective m n hm hn).mp h
  exact absurd hoctave (by decide)

end Melody

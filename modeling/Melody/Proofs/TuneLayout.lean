import Mathlib.Data.List.Basic
import Melody.Proofs.Trace
import Melody.Proofs.TuneSpelling
import Melody.Text.Lines

/-!
# The layout of a tune

The notes of a tune stand in lines of eight with a bar line at the end of each, and the double bar
line at the end of the last one. Nothing but the layout has blanks, bars and line feeds, so that the
notes are found again by splitting the tune where these stand.

* `exists_bars`: notes in lines, of which only the last is shorter;
* `Note.not_mem_tuneText`: what no note is written with;
* `tuneHeaderRows`, `barRow`: the rows of a tune; `exists_lines_tune`: it has no others;
  `splitOn_barRow`: a row is split into its notes and the bar line;
* `markedNote`: a note with what follows it; `toList_tune`: a tune note by note;
* `splitOn_lines_tune`: the notes are found again; `filterMap_note?_unrollBlock`: they are those of
  the trace;
* **`tune_layout`**: the rows of a tune, its notes, and how to find them again.
-/

namespace Melody

/-- All lines have eight notes but for the last one, which has one at least. -/
theorem exists_bars {α : Type} {xs : List α} (h : xs ≠ []) :
    ∃ full last, bars xs = full ++ [last] ∧ (∀ line ∈ full, line.length = 8) ∧
      last ≠ [] ∧ last.length ≤ 8 := by
  fun_induction bars xs with
  | case1 => exact absurd rfl h
  | case2 x xs ih =>
    by_cases hrest : xs.drop 7 = []
    · refine ⟨[], x :: xs.take 7, ?_, List.forall_mem_nil _, List.cons_ne_nil _ _, ?_⟩
      · rw [hrest, bars, List.nil_append]
      · rw [List.length_cons, List.length_take]
        omega
    · obtain ⟨full, last, hbars, hfull, hlast, hle⟩ := ih hrest
      refine ⟨(x :: xs.take 7) :: full, last, ?_, ?_, hlast, hle⟩
      · rw [hbars, List.cons_append]
      · rw [List.drop_eq_nil_iff] at hrest
        rw [List.forall_mem_cons, List.length_cons, List.length_take]
        exact ⟨by omega, hfull⟩

theorem length_flatten_of_forall_mem {α : Type} {full : List (List α)}
    (h : ∀ line ∈ full, line.length = 8) : full.flatten.length = 8 * full.length := by
  induction full with
  | nil => rfl
  | cons line full ih =>
    rw [List.forall_mem_cons] at h
    rw [List.flatten_cons, List.length_append, h.1, ih h.2, List.length_cons]
    omega

/-- The characters that notes of a tune are written with. -/
def tuneSigns : List Char :=
  ['A', 'B', 'C', 'D', 'E', 'F', 'G', 'a', 'b', 'c', 'd', 'e', 'f', 'g', '_', '^', ',', '\x27', '2',
    '4', '/']

theorem Note.forall_mem_tuneText (n : Note) : ∀ c ∈ n.tuneText.toList, c ∈ tuneSigns := by
  have hsign : ∀ c ∈ n.spelling.accidental.tuneSign, c ∈ tuneSigns := by
    cases n.spelling.accidental <;> simp [Accidental.tuneSign, tuneSigns]
  have hname : n.spelling.letter.toChar ∈ tuneSigns ∧
      n.spelling.letter.toChar.toLower ∈ tuneSigns := by
    cases n.spelling.letter <;> simp [Letter.toChar, tuneSigns]
  have hmark : ∀ mark ∈ [',', '\x27'], ∀ k, ∀ c ∈ List.replicate k mark, c ∈ tuneSigns := by
    intro mark hmark k c hc
    rw [List.eq_of_mem_replicate hc]
    have hmarks : [',', '\x27'] ⊆ tuneSigns := by decide
    exact hmarks hmark
  have hletter : ∀ c ∈ n.spelling.letter.tuneText n.octave.toNat, c ∈ tuneSigns := by
    unfold Letter.tuneText
    split_ifs
    · exact List.forall_mem_cons.mpr ⟨hname.1, hmark ',' (by decide) _⟩
    · exact List.forall_mem_cons.mpr ⟨hname.2, hmark '\x27' (by decide) _⟩
  have hlength : ∀ c ∈ (tuneLength n.length).toList, c ∈ tuneSigns := by
    unfold tuneLength
    split <;> simp [tuneSigns]
  rw [n.toList_tuneText, List.forall_mem_append, List.forall_mem_append]
  exact ⟨hsign, hletter, hlength⟩

/-- **No note is written with what separates notes and lines.** -/
theorem Note.not_mem_tuneText (n : Note) : ∀ c ∈ [' ', '|', '\n'], c ∉ n.tuneText.toList := by
  have hseparators : ∀ c ∈ [' ', '|', '\n'], c ∉ tuneSigns := by simp [tuneSigns]
  exact fun c hc hmem => hseparators c hc (n.forall_mem_tuneText c hmem)

theorem toList_barText (line : List Note) :
    (barText line).toList = line.flatMap (·.tuneText.toList ++ [' ']) := by
  simp [barText, List.flatMap_map]

/-! ## Rows -/

/-- The rows above the notes of a tune. -/
def tuneHeaderRows (bpm : UInt32) : List (List Char) :=
  ["X:1", "T:Score", "M:4/4", "L:1/4", "Q:1/4=" ++ toString bpm, "K:C"].map String.toList

/-- A row of notes with a blank behind each of them, and the bar line. -/
def barRow (mark : String) (line : List Note) : List Char :=
  line.flatMap (·.tuneText.toList ++ [' ']) ++ mark.toList

theorem toList_tuneHeader (bpm : UInt32) :
    (tuneHeader bpm).toList = (tuneHeaderRows bpm).flatMap (· ++ ['\n']) := by
  have hheader : tuneHeader bpm =
      "X:1\nT:Score\nM:4/4\nL:1/4\nQ:1/4=" ++ toString bpm ++ "\nK:C\n" := rfl
  rw [hheader, tuneHeaderRows]
  generalize toString bpm = digits
  simp

theorem lineFeed_not_mem_tuneHeaderRows (bpm : UInt32) :
    ∀ row ∈ tuneHeaderRows bpm, '\n' ∉ row := by
  have hdigits : '\n' ∉ (toString bpm).toList := by
    have htext : (toString bpm).toList = Nat.toDigits 10 bpm.toNat := Nat.toList_repr
    rw [htext]
    exact Text.lineFeed_not_mem_toDigits _
  rw [tuneHeaderRows]
  generalize toString bpm = digits at hdigits
  simp [hdigits]

theorem lineFeed_not_mem_barRow {mark : String} (h : '\n' ∉ mark.toList) (line : List Note) :
    '\n' ∉ barRow mark line := by
  have hnote := fun n : Note => n.not_mem_tuneText '\n' (by decide)
  simp [barRow, h, hnote]

/-- The lines of notes as rows: a bar line stands at the end of each but the last. -/
theorem toList_intercalate_bars (full : List (List Note)) (last : List Note) :
    ("|\n".intercalate ((full ++ [last]).map barText) ++ "|]").toList =
      (full.map (barRow "|")).flatMap (· ++ ['\n']) ++ barRow "|]" last := by
  induction full with
  | nil => simp [toList_barText, barRow]
  | cons line full ih =>
    rw [List.cons_append, List.map_cons, String.intercalate_cons_of_ne_nil (by simp)]
    simp only [String.toList_append] at ih ⊢
    rw [List.append_assoc, ih]
    simp [toList_barText, barRow]

theorem splitOn_barRow {mark : String} (h : ' ' ∉ mark.toList) (line : List Note) :
    (barRow mark line).splitOn ' ' = line.map (·.tuneText.toList) ++ [mark.toList] := by
  have hnotes : ∀ text ∈ line.map (·.tuneText.toList), ' ' ∉ text := by
    intro text htext
    obtain ⟨n, -, rfl⟩ := List.mem_map.mp htext
    exact n.not_mem_tuneText ' ' (by decide)
  rw [barRow, ← Text.splitOn_flatMap_append hnotes h, List.flatMap_map]

/-- The note behind `i` others in a tune of `total` notes: a blank follows, and a bar line behind
every eighth note that is not the last one. -/
def markedNote (total i : Nat) (n : Note) : List Char :=
  n.tuneText.toList ++ ' ' :: if (i + 1) % 8 = 0 ∧ i + 1 < total then ['|', '\n'] else []

theorem markedNote_of_not {total i : Nat} (h : ¬ ((i + 1) % 8 = 0 ∧ i + 1 < total)) (n : Note) :
    markedNote total i n = n.tuneText.toList ++ [' '] := by
  rw [markedNote, if_neg h]

theorem flatten_mapIdx_markedNote (total : Nat) {line : List Note}
    (h : ∀ i < line.length, ¬ ((i + 1) % 8 = 0 ∧ i + 1 < total)) :
    (line.mapIdx (markedNote total)).flatten = (barText line).toList := by
  have hmap : line.mapIdx (markedNote total) = line.map (·.tuneText.toList ++ [' ']) := by
    refine List.ext_getElem (by simp) fun i hi hi' => ?_
    rw [List.length_map] at hi'
    rw [List.getElem_mapIdx, List.getElem_map, markedNote_of_not (h i hi')]
  rw [hmap, toList_barText, List.flatMap_def]

theorem flatten_mapIdx_markedNote_of_lt {total : Nat} (htotal : 8 < total) {line : List Note}
    (hline : line.length = 8) :
    (line.mapIdx (markedNote total)).flatten = (barText line).toList ++ ['|', '\n'] := by
  have hne : line ≠ [] := List.ne_nil_of_length_pos (by omega)
  obtain ⟨front, n, rfl⟩ : ∃ front n, line = front ++ [n] :=
    ⟨_, _, (List.dropLast_append_getLast hne).symm⟩
  have hfront : front.length = 7 := by simpa using hline
  have hinside : (front.mapIdx (markedNote total)).flatten = (barText front).toList :=
    flatten_mapIdx_markedNote total (by omega)
  rw [List.mapIdx_append, List.flatten_append, hinside, hfront]
  simp [markedNote, htotal, toList_barText]

/-- **A bar line stands behind every eighth note that is not the last one**, and nowhere else. -/
theorem toList_intercalate_bars_eq (notes : List Note) :
    ("|\n".intercalate ((bars notes).map barText)).toList =
      (notes.mapIdx (markedNote notes.length)).flatten := by
  fun_induction bars notes with
  | case1 => rfl
  | case2 n notes ih =>
    by_cases hrest : notes.drop 7 = []
    · have hlength := List.drop_eq_nil_iff.mp hrest
      have hline : ((n :: notes).mapIdx (markedNote (n :: notes).length)).flatten =
          (barText (n :: notes)).toList :=
        flatten_mapIdx_markedNote _ (by rw [List.length_cons]; omega)
      rw [hrest, bars, List.take_of_length_le hlength, hline]
      simp
    · have hlength : 7 < notes.length := by simpa using hrest
      have hfirst : (n :: notes.take 7).length = 8 := by simp; omega
      have htotal : 8 < (n :: notes).length := Nat.succ_lt_succ hlength
      have hline := flatten_mapIdx_markedNote_of_lt htotal hfirst
      obtain ⟨full, last, hbars, -⟩ := exists_bars hrest
      have hne : (bars (notes.drop 7)).map barText ≠ [] := by simp [hbars]
      -- eight notes further on, bar lines stand behind the same notes
      have hbehind : (fun i => markedNote (n :: notes).length (i + 8)) =
          markedNote (notes.drop 7).length := by
        funext i m
        have hmod : (i + 8 + 1) % 8 = (i + 1) % 8 := by omega
        have hlt : i + 8 + 1 < notes.length + 1 ↔ i + 1 < notes.length - 7 := by omega
        simp only [markedNote, List.length_cons, List.length_drop, hmod, hlt]
      have hsplit : n :: notes = (n :: notes.take 7) ++ notes.drop 7 := by simp
      calc ("|\n".intercalate (((n :: notes.take 7) :: bars (notes.drop 7)).map barText)).toList
          = (barText (n :: notes.take 7)).toList ++ ['|', '\n'] ++
              ("|\n".intercalate ((bars (notes.drop 7)).map barText)).toList := by
            rw [List.map_cons, String.intercalate_cons_of_ne_nil hne, String.toList_append,
              String.toList_append]
            rfl
        _ = ((n :: notes.take 7).mapIdx (markedNote (n :: notes).length)).flatten ++
              ((notes.drop 7).mapIdx fun i => markedNote (n :: notes).length (i + 8)).flatten := by
            rw [hline, ih, hbehind]
        _ = (((n :: notes.take 7) ++ notes.drop 7).mapIdx
              (markedNote (n :: notes).length)).flatten := by
            rw [List.mapIdx_append, List.flatten_append, hfirst]
        _ = ((n :: notes).mapIdx (markedNote (n :: notes).length)).flatten := by
            rw [← hsplit]

/-! ## Tunes -/

/-- The note that a step plays. -/
def Step.note? : Step → Option Note
  | note n => some n
  | _ => none

theorem repeated_eq {α : Type} (n : Nat) (xs : List α) :
    repeated n xs = (List.replicate n xs).flatten := by
  unfold repeated
  cases xs with
  | nil => simp
  | cons x xs => rfl

theorem filterMap_flatten_replicate {α β : Type} (f : α → Option β) (n : Nat) (xs : List α) :
    (List.replicate n xs).flatten.filterMap f = (List.replicate n (xs.filterMap f)).flatten := by
  rw [List.filterMap_flatten, List.map_replicate]

mutual

theorem filterMap_note?_unroll : ∀ s : Statement, s.unroll.filterMap Step.note? = s.notes
  | .tempo pos bpm | .volume pos percent | .note n => rfl
  | .sequence pos name body => by
    rw [Statement.unroll, Statement.notes, List.filterMap_cons, List.filterMap_append,
      filterMap_note?_unrollBlock body]
    exact List.append_nil _
  | .repetition pos count body => by
    rw [Statement.unroll, Statement.notes, filterMap_flatten_replicate, repeated_eq,
      filterMap_note?_unrollBlock body]

/-- **The trace of a score has the notes of its tune.** -/
theorem filterMap_note?_unrollBlock :
    ∀ ss : List Statement, (unrollBlock ss).filterMap Step.note? = blockNotes ss
  | [] => rfl
  | s :: ss => by
    rw [unrollBlock, blockNotes, List.filterMap_append, filterMap_note?_unroll s,
      filterMap_note?_unrollBlock ss]

end

theorem notes_eq_filterMap (score : Score) :
    score.notes = (unrollBlock score.statements).filterMap Step.note? :=
  (filterMap_note?_unrollBlock score.statements).symm

/-- **The text of a tune, note by note.** -/
theorem toList_tune (score : Score) :
    score.tune.toList = (tuneHeaderRows score.tuneTempo).flatMap (· ++ ['\n']) ++
      (score.notes.mapIdx (markedNote score.notes.length)).flatten ++ ['|', ']'] := by
  have hbody := toList_intercalate_bars_eq score.notes
  rw [Score.tune, tuneBody, String.toList_append, String.toList_append, hbody, toList_tuneHeader,
    ← List.append_assoc]
  rfl

theorem lines_tune {score : Score} {full : List (List Note)} {last : List Note}
    (h : tuneBody score.notes = "|\n".intercalate ((full ++ [last]).map barText) ++ "|]") :
    Text.lines score.tune.toList = tuneHeaderRows score.tuneTempo ++ full.map (barRow "|") ++
      [barRow "|]" last] := by
  have hrows : ∀ row ∈ tuneHeaderRows score.tuneTempo ++ full.map (barRow "|"), '\n' ∉ row := by
    rw [List.forall_mem_append, List.forall_mem_map]
    exact ⟨lineFeed_not_mem_tuneHeaderRows _,
      fun line _ => lineFeed_not_mem_barRow (by decide) line⟩
  rw [Score.tune, String.toList_append, h, toList_tuneHeader, toList_intercalate_bars,
    ← List.append_assoc, ← List.flatMap_append, Text.lines,
    Text.splitOn_flatMap_append hrows (lineFeed_not_mem_barRow (by decide) last)]

theorem exists_lines_tune (score : Score) : ∃ (full : List (List Note)) (last : List Note),
    full.flatten ++ last = score.notes ∧ (∀ line ∈ full, line.length = 8) ∧ last.length ≤ 8 ∧
      (last = [] → score.notes = []) ∧
      Text.lines score.tune.toList = tuneHeaderRows score.tuneTempo ++ full.map (barRow "|") ++
        [barRow "|]" last] := by
  by_cases hnotes : score.notes = []
  · -- the body is the double bar line, as it is for one line without notes
    refine ⟨[], [], hnotes.symm, List.forall_mem_nil _, Nat.zero_le _, fun _ => hnotes,
      lines_tune ?_⟩
    simp [hnotes, tuneBody, bars, barText]
  · obtain ⟨full, last, hbars, hfull, hlast, hle⟩ := exists_bars hnotes
    refine ⟨full, last, ?_, hfull, hle, fun h => absurd h hlast, lines_tune ?_⟩
    · rw [← flatten_bars score.notes, hbars, List.flatten_append, List.flatten_singleton]
    · rw [tuneBody, hbars]

/-- **The notes are found again**: they are what is left when the rows below the header are split
at their blanks and the bar lines taken away. -/
theorem splitOn_lines_tune (score : Score) :
    ((Text.lines score.tune.toList).drop 6).flatMap (fun row => (row.splitOn ' ').dropLast) =
      score.notes.map (·.tuneText.toList) := by
  obtain ⟨full, last, hnotes, -, -, -, hlines⟩ := exists_lines_tune score
  have hheader : (tuneHeaderRows score.tuneTempo).length = 6 := rfl
  have hrow : ∀ mark : String, ' ' ∉ mark.toList → ∀ line,
      ((barRow mark line).splitOn ' ').dropLast = line.map (·.tuneText.toList) := by
    intro mark hmark line
    rw [splitOn_barRow hmark, List.dropLast_concat]
  rw [hlines, List.append_assoc, List.drop_left' hheader, List.flatMap_append,
    List.flatMap_map, List.flatMap_singleton]
  simp only [hrow "|" (by decide), hrow "|]" (by decide)]
  rw [← hnotes, List.map_append, List.map_flatten, List.flatMap_def]

/-- **The layout of a tune.** Below six rows for the header, the notes that are played stand in
their order, each with a blank behind it: eight in each row, with a bar line at its end, and the
rest in the last row, which ends with the double bar line and is empty only if there are no notes. A
bar line stands behind the notes whose number is a multiple of eight, except for the last note. No
note is written with blanks, bars or line feeds, and so the notes are what is left when the rows
below the header are split at their blanks and the bar lines taken away. -/
theorem tune_layout (score : Score) :
    let notes := (unrollBlock score.statements).filterMap Step.note?
    (∃ (full : List (List Note)) (last : List Note), full.flatten ++ last = notes ∧
      (∀ line ∈ full, line.length = 8) ∧ last.length ≤ 8 ∧ (last = [] → notes = []) ∧
      full.length = (notes.length + 7) / 8 - 1 ∧
      Text.lines score.tune.toList = tuneHeaderRows score.tuneTempo ++ full.map (barRow "|") ++
        [barRow "|]" last]) ∧
    score.tune.toList = (tuneHeaderRows score.tuneTempo).flatMap (· ++ ['\n']) ++
      (notes.mapIdx (markedNote notes.length)).flatten ++ ['|', ']'] ∧
    (∀ n : Note, ∀ c ∈ [' ', '|', '\n'], c ∉ n.tuneText.toList) ∧
    ((Text.lines score.tune.toList).drop 6).flatMap (fun row => (row.splitOn ' ').dropLast) =
      notes.map (·.tuneText.toList) := by
  intro notes
  have htrace : score.notes = notes := notes_eq_filterMap score
  obtain ⟨full, last, hnotes, hfull, hle, hlast, hlines⟩ := exists_lines_tune score
  rw [htrace] at hnotes hlast
  refine ⟨⟨full, last, hnotes, hfull, hle, hlast, ?_, hlines⟩, htrace ▸ toList_tune score,
    Note.not_mem_tuneText, htrace ▸ splitOn_lines_tune score⟩
  have hlength := congrArg List.length hnotes
  rw [List.length_append, length_flatten_of_forall_mem hfull] at hlength
  have hempty : last.length = 0 → notes.length = 0 := fun h => by
    rw [List.length_eq_zero_iff] at h ⊢
    exact hlast h
  omega

end Melody

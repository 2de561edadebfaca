import Melody.Proofs.Locating

/-!
# Where the caret of an excerpt stands

An excerpt shows the line of a place with its neighbours, each behind its number, and a caret on a
row of its own. The numbers take as much room as they need, but the caret is put behind five blanks
whatever the number above it: it stands under its place as long as the number has at most four
digits.

* `rowsOf`, `rows`: the rows of an excerpt without their line feeds; `lines_excerpt`: it has no
  others;
* `excerptNumbers_eq`: the lines that are shown around a line of the text;
* `length_gutter_eq_five_iff`: the numbers for which the caret leaves enough room;
* `CaretUnder`: the caret stands under its place;
* **`caretUnder_iff`**: it does iff the number of the line is below ten thousand.
-/

namespace Melody.Text

variable {source : String} {place : Position} {n : Nat}

/-- The rows of line `n` in an excerpt at `place`: the line behind its number, and below the line of
`place` the row of the caret. -/
def rowsOf (source : String) (place : Position) (n : Nat) : List (List Char) :=
  ((gutter n).toList ++ (lineAt source n).toList) ::
    if n = place.line then [List.replicate (5 + (place.column - 1)) ' ' ++ ['^']] else []

/-- All rows of an excerpt at `place`. -/
def rows (source : String) (place : Position) : List (List Char) :=
  (excerptNumbers source place.line).flatMap (rowsOf source place)

theorem toList_excerptLine (source : String) (place : Position) (n : Nat) :
    (excerptLine source place .plain n).toList =
      (rowsOf source place n).flatMap (· ++ ['\n']) := by
  unfold excerptLine rowsOf
  split_ifs <;> simp [Marking.on, Marking.off, caretLine, blanks]

theorem toList_excerpt (source : String) (place : Position) :
    (excerpt source place .plain).toList = (rows source place).flatMap (· ++ ['\n']) := by
  simp only [excerpt, rows, String.toList_join, List.flatMap_map, List.flatMap_assoc,
    toList_excerptLine]

theorem mem_and_ne_of_mem_lines {cs line : List Char} (h : line ∈ lines cs) :
    ∀ c ∈ line, c ∈ cs ∧ c ≠ '\n' := by
  induction cs generalizing line with
  | nil => simp_all [lines_nil]
  | cons c cs ih =>
    have hcons : ∀ line ∈ lines cs, ∀ d ∈ line, d ∈ c :: cs ∧ d ≠ '\n' := fun line hline d hd =>
      ⟨List.mem_cons_of_mem _ (ih hline d hd).1, (ih hline d hd).2⟩
    rw [lines_cons] at h
    split_ifs at h with hc
    · rcases List.mem_cons.mp h with rfl | h
      · exact List.forall_mem_nil _
      · exact hcons _ h
    · obtain ⟨first, others, hlines⟩ :=
        List.exists_cons_of_ne_nil (List.splitOn_ne_nil '\n' cs)
      rw [← lines] at hlines
      rw [hlines] at h hcons
      rcases List.mem_cons.mp h with rfl | h
      · exact List.forall_mem_cons.mpr ⟨⟨List.mem_cons_self, hc⟩, hcons _ List.mem_cons_self⟩
      · exact hcons _ (List.mem_cons_of_mem _ h)

theorem mem_and_ne_of_mem_lineAt {c : Char} (h : c ∈ (lineAt source n).toList) :
    c ∈ source.toList ∧ c ≠ '\n' := by
  unfold lineAt at h
  split_ifs at h
  · exact absurd h List.not_mem_nil
  · rw [String.toList_ofList, List.getD_eq_getElem?_getD] at h
    cases hline : (lines source.toList)[n - 1]? with
    | none =>
      rw [hline] at h
      exact absurd h List.not_mem_nil
    | some line =>
      rw [hline] at h
      exact mem_and_ne_of_mem_lines (List.mem_of_getElem? hline) c h

theorem mem_gutter {c : Char} (h : c ∈ (gutter n).toList) : c = ' ' ∨ c.isDigit = true ∨ c = '|' := by
  have hdigits : c ∈ Nat.toDigits 10 n → c.isDigit = true :=
    Nat.isDigit_of_mem_toDigits (by decide) le_rfl
  simp only [gutter, padLeft, blanks, String.toList_append, String.toList_ofList,
    List.mem_append, List.mem_replicate, Nat.toString_eq_repr, Nat.toList_repr] at h
  rcases h with (⟨-, h⟩ | h) | h
  · exact .inl h
  · exact .inr (.inl (hdigits h))
  · exact .inr (.inr (List.mem_singleton.mp h))

theorem lineFeed_not_mem_of_mem_rowsOf {row : List Char} (h : row ∈ rowsOf source place n) :
    '\n' ∉ row := by
  rw [rowsOf, List.mem_cons] at h
  rcases h with h | h
  · rw [h, List.mem_append, not_or]
    exact ⟨fun hmem => absurd (mem_gutter hmem) (by decide),
      fun hmem => (mem_and_ne_of_mem_lineAt hmem).2 rfl⟩
  · split_ifs at h
    · rw [List.mem_singleton.mp h]
      simp
    · exact absurd h List.not_mem_nil

/-- **The rows of an excerpt are its lines**, up to the empty one behind the last line feed. -/
theorem lines_excerpt (source : String) (place : Position) :
    lines (excerpt source place .plain).toList = rows source place ++ [[]] := by
  have hrows : ∀ row ∈ rows source place, '\n' ∉ row := by
    intro row hrow
    obtain ⟨n, -, hrow⟩ := List.mem_flatMap.mp hrow
    exact lineFeed_not_mem_of_mem_rowsOf hrow
  rw [toList_excerpt, lines, ← splitOn_flatMap_append hrows List.not_mem_nil, List.append_nil]

theorem excerptNumbers_eq (hpos : 1 ≤ n) (hle : n ≤ lineCount source) :
    excerptNumbers source n = (if n = 1 then [] else [n - 1]) ++
      n :: if n < lineCount source then [n + 1] else [] := by
  have hrange : List.range' (n - 1) 3 = [n - 1, n, n + 1] := by
    simp [List.range'_succ, Nat.sub_add_cancel hpos]
  have habove : (1 ≤ n - 1 ∧ n - 1 ≤ n + 1 ∧ n - 1 ≤ lineCount source) ↔ n ≠ 1 := by omega
  have hbelow : (1 ≤ n + 1 ∧ n + 1 ≤ n + 1 ∧ n + 1 ≤ lineCount source) ↔ n < lineCount source := by
    omega
  have hline : 1 ≤ n ∧ n ≤ n + 1 ∧ n ≤ lineCount source := by omega
  unfold excerptNumbers
  rw [hrange]
  simp only [List.filter_cons, habove, hline, hbelow, List.filter_nil]
  by_cases hfirst : n = 1 <;> by_cases hlast : n < lineCount source <;> simp [hfirst, hlast]

theorem length_gutter (n : Nat) : (gutter n).length = max 4 (toString n).length + 1 := by
  rw [gutter, String.length_append, length_padLeft]
  rfl

theorem length_gutter_eq_five_iff (n : Nat) : (gutter n).length = 5 ↔ n < 10000 := by
  have hdigits : (toString n).length ≤ 4 ↔ n < 10 ^ 4 := Nat.length_repr_le_iff (by decide)
  rw [length_gutter]
  omega

/-! ## The caret -/

theorem getElem?_rows (h : place.In source) :
    (rows source place)[min 1 (place.line - 1)]? =
        some ((gutter place.line).toList ++ (lineAt source place.line).toList) ∧
      (rows source place)[min 1 (place.line - 1) + 1]? =
        some (List.replicate (5 + (place.column - 1)) ' ' ++ ['^']) := by
  have hother : ∀ n, n ≠ place.line → rowsOf source place n =
      [(gutter n).toList ++ (lineAt source n).toList] := fun n hn => by
    rw [rowsOf, if_neg hn]
  have hline : rowsOf source place place.line =
      [(gutter place.line).toList ++ (lineAt source place.line).toList,
        List.replicate (5 + (place.column - 1)) ' ' ++ ['^']] := by
    rw [rowsOf, if_pos rfl]
  have hpos := h.line_pos
  rw [rows, excerptNumbers_eq hpos h.line_le, List.flatMap_append, List.flatMap_cons, hline]
  by_cases hfirst : place.line = 1
  · simp [hfirst]
  · have hmin : min 1 (place.line - 1) = 1 := by omega
    rw [if_neg hfirst, List.flatMap_singleton, hother _ (by omega), hmin]
    simp

theorem getElem?_caret_iff (k j : Nat) :
    (List.replicate k ' ' ++ ['^'])[j]? = some '^' ↔ j = k := by
  rw [List.getElem?_append, List.length_replicate]
  split_ifs with hlt
  · rw [List.getElem?_replicate, if_pos hlt]
    simp [hlt.ne]
  · rw [List.getElem?_singleton]
    split_ifs with hk <;> simp <;> omega

/-- **The caret stands under its place**: one row below the row that shows the line of `place`,
there is a caret below the character at `place`, or right behind the last one, and nowhere else. -/
def CaretUnder (source : String) (place : Position) : Prop :=
  let output := lines (excerpt source place .plain).toList
  let row := min 1 (place.line - 1)
  ∃ front marker, output[row]? = some (front ++ (lineAt source place.line).toList) ∧
    output[row + 1]? = some marker ∧
      ∀ j, marker[j]? = some '^' ↔ j = front.length + (place.column - 1)

theorem getElem?_lines_excerpt (h : place.In source) :
    (lines (excerpt source place .plain).toList)[min 1 (place.line - 1)]? =
        some ((gutter place.line).toList ++ (lineAt source place.line).toList) ∧
      (lines (excerpt source place .plain).toList)[min 1 (place.line - 1) + 1]? =
        some (List.replicate (5 + (place.column - 1)) ' ' ++ ['^']) := by
  obtain ⟨hline, hcaret⟩ := getElem?_rows h
  rw [lines_excerpt, List.getElem?_append_left (List.getElem?_eq_some_iff.mp hline).1,
    List.getElem?_append_left (List.getElem?_eq_some_iff.mp hcaret).1]
  exact ⟨hline, hcaret⟩

/-- The caret stands under its place iff the number above it takes five characters with its bar. -/
theorem caretUnder_iff_length_gutter (h : place.In source) :
    CaretUnder source place ↔ (gutter place.line).length = 5 := by
  obtain ⟨hline, hcaret⟩ := getElem?_lines_excerpt h
  constructor
  · rintro ⟨front, marker, hfront, hmarker, hunder⟩
    have hfront := Option.some.inj (hline.symm.trans hfront)
    have hgutter := List.append_cancel_right hfront
    obtain rfl := Option.some.inj (hcaret.symm.trans hmarker)
    have hplace := (hunder _).mp ((getElem?_caret_iff _ _).mpr rfl)
    rw [← hgutter, String.length_toList] at hplace
    omega
  · intro hlength
    refine ⟨_, _, hline, hcaret, fun j => ?_⟩
    rw [getElem?_caret_iff, String.length_toList, hlength]

/-- **Where the caret stands.** An excerpt at a place in the text shows the line of the place behind
its number, and in the row below it the caret, behind five blanks and as many as there are columns
before the place. It stands under its place iff the number of the line is below ten thousand. -/
theorem caretUnder_iff (h : place.In source) :
    (lines (excerpt source place .plain).toList)[min 1 (place.line - 1)]? =
        some ((gutter place.line).toList ++ (lineAt source place.line).toList) ∧
      (lines (excerpt source place .plain).toList)[min 1 (place.line - 1) + 1]? =
        some (List.replicate (5 + (place.column - 1)) ' ' ++ ['^']) ∧
      (CaretUnder source place ↔ place.line < 10000) := by
  obtain ⟨hline, hcaret⟩ := getElem?_lines_excerpt h
  exact ⟨hline, hcaret,
    (caretUnder_iff_length_gutter h).trans (length_gutter_eq_five_iff place.line)⟩

/-- A place in the middle of three lines. -/
theorem caretUnder_iff_middle :
    let source := "tempo 90\nC4 1/3\nD4 1/4"
    (lines (excerpt source ⟨2, 4⟩ .plain).toList)[1]? = some "   2|C4 1/3".toList ∧
      (lines (excerpt source ⟨2, 4⟩ .plain).toList)[2]? = some "        ^".toList ∧
      CaretUnder source ⟨2, 4⟩ := by
  intro source
  have htext : source.toList = "tempo 90\nC4 ".toList ++ "1/3\nD4 1/4".toList := by decide
  have hplace : Position.In source ⟨2, 4⟩ := in_after htext
  obtain ⟨hline, hcaret, hunder⟩ := caretUnder_iff hplace
  exact ⟨hline.trans (by decide +kernel), hcaret.trans (by decide +kernel),
    hunder.mpr (by decide)⟩

theorem in_after_replicate (n : Nat) :
    Position.In (String.ofList (List.replicate n '\n' ++ "C4 1/3".toList)) ⟨n + 1, 4⟩ := by
  have hafter : Position.after (List.replicate n '\n' ++ "C4 ".toList) = ⟨n + 1, 4⟩ := by
    simp [Position.after, List.rtakeWhile, Nat.add_comm]
  have htext : (String.ofList (List.replicate n '\n' ++ "C4 1/3".toList)).toList =
      List.replicate n '\n' ++ "C4 ".toList ++ "1/3".toList := by simp
  rw [← hafter]
  exact in_after htext

/-- On line ten thousand the caret is one column too far to the left. -/
theorem caret_left_of_place :
    let source := String.ofList (List.replicate 9999 '\n' ++ "C4 1/3".toList)
    Position.In source ⟨10000, 4⟩ ∧ ¬ CaretUnder source ⟨10000, 4⟩ := by
  intro source
  have hplace : Position.In source ⟨10000, 4⟩ := in_after_replicate 9999
  refine ⟨hplace, fun hunder => ?_⟩
  have hlength := (caretUnder_iff_length_gutter hplace).mp hunder
  exact absurd ((length_gutter_eq_five_iff _).mp hlength) (by decide)

end Melody.Text

import Mathlib.Algebra.Order.Group.Abs
import Mathlib.Algebra.Order.Group.Int
import Melody.Proofs.Excerpts

/-!
# What an excerpt shows

An excerpt is a window on the lines of a text: the line of a place and its neighbours, as far as the
text has them, wherever the place is. Its colours are escape sequences between characters that stay
the same.

* `mem_excerptNumbers_iff`, `pairwise_lt_excerptNumbers`: the lines that are shown, in their order;
* `RightAligned`: a text at the right end of its field; `rightAligned_padLeft`;
* `IsMarker`: blanks and a caret; `toList_excerpt_eq`: the rows of an excerpt;
* `without`: a text without some sequences; `without_append`, `without_on_append`,
  `without_off_append`: the colours go, and all that is no escape stays;
* **`excerpt_window`**: the rows of an excerpt at any place, with and without colours.
-/

namespace Melody.Text

variable {source : String} {place : Position} {k n : Nat}

theorem mem_excerptNumbers_iff :
    k ∈ excerptNumbers source n ↔ (1 ≤ k ∧ k ≤ lineCount source) ∧ |(k : ℤ) - n| ≤ 1 := by
  rw [excerptNumbers, List.mem_filter, List.mem_range'_1, decide_eq_true_eq, abs_le]
  omega

theorem pairwise_lt_excerptNumbers (source : String) (n : Nat) :
    (excerptNumbers source n).Pairwise (· < ·) :=
  (List.pairwise_lt_range' _).filter _

/-- `text` at the right end of a field of `width` characters, or of a wider one if it needs it. -/
def RightAligned (width : Nat) (text field : List Char) : Prop :=
  ∃ n, field = List.replicate n ' ' ++ text ∧ field.length = max width text.length

theorem rightAligned_padLeft (width : Nat) (text : String) :
    RightAligned width text.toList (padLeft width text).toList := by
  refine ⟨width - text.length, by simp [padLeft, blanks], ?_⟩
  rw [String.length_toList, length_padLeft, String.length_toList]

/-- Blanks and a caret behind them. -/
def IsMarker (row : List Char) : Prop := ∃ n, row = List.replicate n ' ' ++ ['^']

theorem toList_excerpt_eq (source : String) (place : Position) :
    (excerpt source place .plain).toList = (excerptNumbers source place.line).flatMap fun k =>
      (padLeft 4 (toString k)).toList ++ '|' :: ((lineAt source k).toList ++ ['\n']) ++
        if k = place.line then List.replicate (5 + (place.column - 1)) ' ' ++ ['^'] ++ ['\n']
        else [] := by
  rw [toList_excerpt, rows, List.flatMap_assoc]
  refine congrArg (List.flatMap · _) (funext fun k => ?_)
  unfold rowsOf gutter
  split_ifs <;> simp

/-! ## Colours -/

/-- A text without some sequences: from left to right, each of them is passed over where it begins.
The first `skip` characters are the rest of one. -/
def without (sequences : List (List Char)) : Nat → List Char → List Char
  | _, [] => []
  | skip + 1, _ :: cs => without sequences skip cs
  | 0, c :: cs =>
    match sequences.find? (·.isPrefixOf (c :: cs)) with
    | some s => without sequences (s.length - 1) cs
    | none => c :: without sequences 0 cs

/-- The sequences that colour an excerpt. -/
def colours : List (List Char) := [Marking.coloured.on.toList, Marking.coloured.off.toList]

theorem without_append {front : List Char} (h : '\x1b' ∉ front) (rest : List Char) :
    without colours 0 (front ++ rest) = front ++ without colours 0 rest := by
  induction front with
  | nil => rfl
  | cons c front ih =>
    rw [List.mem_cons, not_or] at h
    have hnone : colours.find? (·.isPrefixOf (c :: (front ++ rest))) = none := by
      simp [colours, Marking.on, Marking.off, h.1]
    rw [List.cons_append, without, hnone, ih h.2, List.cons_append]

theorem without_on_append (rest : List Char) :
    without colours 0 (Marking.coloured.on.toList ++ rest) = without colours 0 rest := rfl

theorem without_off_append (rest : List Char) :
    without colours 0 (Marking.coloured.off.toList ++ rest) = without colours 0 rest := rfl

theorem escape_not_mem_gutter (n : Nat) : '\x1b' ∉ (gutter n).toList := fun h =>
  absurd (mem_gutter h) (by decide)

theorem without_excerptLine_append (h : '\x1b' ∉ source.toList) (rest : List Char) :
    without colours 0 ((excerptLine source place .coloured n).toList ++ rest) =
      (excerptLine source place .plain n).toList ++ without colours 0 rest := by
  have hline : '\x1b' ∉ (lineAt source n).toList := fun hmem =>
    h (mem_and_ne_of_mem_lineAt hmem).1
  have hfeed : '\x1b' ∉ "\n".toList := by decide
  have hcaret : '\x1b' ∉ "^".toList := by decide
  have hon : Marking.plain.on.toList = [] := rfl
  have hoff : Marking.plain.off.toList = [] := rfl
  have hblanks : '\x1b' ∉ (blanks (5 + (place.column - 1))).toList := by simp [blanks]
  unfold excerptLine caretLine
  split_ifs
  · simp only [String.toList_append, List.append_assoc, without_on_append, without_off_append,
      without_append (escape_not_mem_gutter n), without_append hline, without_append hfeed,
      without_append hblanks, without_append hcaret, hon, hoff, List.nil_append]
  · simp only [String.toList_append, List.append_assoc, without_append (escape_not_mem_gutter n),
      without_append hline, without_append hfeed]

/-- **An excerpt without its colours** is a plain one, if the text has no escapes of its own. -/
theorem without_excerpt (h : '\x1b' ∉ source.toList) (place : Position) :
    without colours 0 (excerpt source place .coloured).toList =
      (excerpt source place .plain).toList := by
  have hlines : ∀ numbers : List Nat,
      without colours 0 (numbers.flatMap fun n => (excerptLine source place .coloured n).toList) =
        numbers.flatMap fun n => (excerptLine source place .plain n).toList := by
    intro numbers
    induction numbers with
    | nil => rfl
    | cons n numbers ih =>
      rw [List.flatMap_cons, without_excerptLine_append h, ih, List.flatMap_cons]
  simp only [excerpt, String.toList_join, List.flatMap_map]
  exact hlines _

/-- **What an excerpt shows.** Wherever the place is, these are the lines of the text at most one
line away from it, in their order: the number of the line at the right end of four characters or
more, a bar, and the line as it is. Behind the line of the place, if the text has it, and nowhere
else, there is a row of blanks with one caret. If the text has no escapes, an excerpt in colours is
the same but for its colours. -/
theorem excerpt_window (source : String) (place : Position) :
    (∃ (numbers : List Nat) (field : Nat → List Char) (marker : List Char),
      numbers.Pairwise (· < ·) ∧
      (∀ k, k ∈ numbers ↔ (1 ≤ k ∧ k ≤ lineCount source) ∧ |(k : ℤ) - place.line| ≤ 1) ∧
      (∀ k, RightAligned 4 (toString k).toList (field k)) ∧ IsMarker marker ∧
      (excerpt source place .plain).toList = numbers.flatMap fun k =>
        field k ++ '|' :: ((lineAt source k).toList ++ ['\n']) ++
          if k = place.line then marker ++ ['\n'] else []) ∧
    ('\x1b' ∉ source.toList → without colours 0 (excerpt source place .coloured).toList =
      (excerpt source place .plain).toList) :=
  ⟨⟨excerptNumbers source place.line, fun k => (padLeft 4 (toString k)).toList,
      List.replicate (5 + (place.column - 1)) ' ' ++ ['^'],
      pairwise_lt_excerptNumbers source place.line, fun _ => mem_excerptNumbers_iff,
      fun k => rightAligned_padLeft 4 (toString k), ⟨_, rfl⟩, toList_excerpt_eq source place⟩,
    fun h => without_excerpt h place⟩

end Melody.Text

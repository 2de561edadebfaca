import Melody.Text.Padding
import Melody.Text.Position

/-!
# The lines of a text

* `lines`: the pieces between line feeds, so a text has one line more than it has line feeds;
* `lineCount`, `lineAt`: how many there are, and one of them by its number;
* `intercalate_lines`: nothing is lost; `splitOn_flatMap_append`: pieces are found again;
* `Marking`, `excerpt`: the lines around a place, numbered, with a caret under the place.
-/

namespace Melody.Text

/-- The pieces of a text between its line feeds; there is always at least one. -/
def lines (cs : List Char) : List (List Char) := cs.splitOn '\n'

/-- How many lines a text has. -/
def lineCount (source : String) : Nat := (lines source.toList).length

/-- Line `n` of a text without its line feed; a line outside the text is empty. -/
def lineAt (source : String) (n : Nat) : String :=
  if n = 0 then "" else String.ofList ((lines source.toList).getD (n - 1) [])

theorem lines_nil : lines [] = [[]] := List.splitOn_nil _

theorem lines_cons (c : Char) (cs : List Char) :
    lines (c :: cs) = if c = '\n' then [] :: lines cs else (lines cs).modifyHead (c :: ·) := by
  simp [lines, List.splitOn, List.splitOnP_cons_eq_if_modifyHead]

theorem intercalate_lines (cs : List Char) : ['\n'].intercalate (lines cs) = cs :=
  List.intercalate_splitOn _

/-- Pieces with a separator behind each of them, and a last one without, are found again where the
separators stand. -/
theorem splitOn_flatMap_append {separator : Char} {pieces : List (List Char)} {last : List Char}
    (hpieces : ∀ piece ∈ pieces, separator ∉ piece) (hlast : separator ∉ last) :
    (pieces.flatMap (· ++ [separator]) ++ last).splitOn separator = pieces ++ [last] := by
  induction pieces with
  | nil => exact List.splitOn_eq_singleton hlast
  | cons piece pieces ih =>
    rw [List.forall_mem_cons] at hpieces
    rw [List.flatMap_cons, List.append_assoc, List.append_assoc, List.singleton_append,
      List.splitOn_append_cons_self_of_not_mem hpieces.1, ih hpieces.2, List.cons_append]

theorem lineFeed_not_mem_toDigits (n : Nat) : '\n' ∉ Nat.toDigits 10 n := fun h =>
  absurd (Nat.isDigit_of_mem_toDigits (by decide) (Nat.le_refl 10) h) (by decide)

/-! ## Excerpts -/

/-- How an excerpt shows its place: by the caret alone, or in bold red as well. -/
inductive Marking
  | plain
  | coloured
deriving DecidableEq

namespace Marking

/-- The escape sequence that starts bold red, where it is wanted. -/
def on : Marking → String
  | plain => ""
  | coloured => "\x1b[31;1m"

/-- The escape sequence that ends bold red, where it is wanted. -/
def off : Marking → String
  | plain => ""
  | coloured => "\x1b[0m"

end Marking

/-- The number of a line, at least four characters wide, and a bar. -/
def gutter (n : Nat) : String := padLeft 4 (toString n) ++ "|"

/-- The caret under a column, on a line of its own. -/
def caretLine (marking : Marking) (column : Nat) : String :=
  blanks (5 + (column - 1)) ++ marking.on ++ "^" ++ marking.off ++ "\n"

/-- Line `n` in an excerpt at `place`; the line of `place` has the caret below it. -/
def excerptLine (source : String) (place : Position) (marking : Marking) (n : Nat) : String :=
  if n = place.line then
    marking.on ++ gutter n ++ marking.off ++ lineAt source n ++ "\n" ++
      caretLine marking place.column
  else
    gutter n ++ lineAt source n ++ "\n"

/-- The lines of an excerpt at line `n`: itself and its neighbours, as far as the text has them. -/
def excerptNumbers (source : String) (n : Nat) : List Nat :=
  (List.range' (n - 1) 3).filter fun k => 1 ≤ k ∧ k ≤ n + 1 ∧ k ≤ lineCount source

/-- The line of `place` with its neighbours, and a caret under `place`. -/
def excerpt (source : String) (place : Position) (marking : Marking) : String :=
  String.join ((excerptNumbers source place.line).map (excerptLine source place marking))

end Melody.Text

import Melody.Text.Padding
import Melody.Text.Quoted

/-!
# Outlines of values

An outline shows a value with the names of its parts, either on one line or on a line for each
part, four blanks deeper than the whole, with a comma after every part.

* `Outline`: a value as a tree of names;
* `Outline.flat`: on one line;
* `Outline.tall`: on many lines.
-/

namespace Melody.Text

/-- A value as a tree of names. -/
inductive Outline
  /-- A value without parts. -/
  | leaf (text : String)
  /-- A value whose parts have names. -/
  | record (name : String) (fields : List (String × Outline))
  /-- A value whose parts have an order. -/
  | tuple (name : String) (items : List Outline)
  /-- Values of the same kind. -/
  | list (items : List Outline)

namespace Outline

/-- A number as an outline. -/
def number (n : Nat) : Outline := leaf (toString n)

/-- A text as an outline. -/
def string (s : String) : Outline := leaf (quoted s)

/-- A truth value as an outline. -/
def bool (b : Bool) : Outline := leaf (if b then "true" else "false")

/-- A value that may be missing. -/
def option : Option Outline → Outline
  | none => leaf "None"
  | some o => tuple "Some" [o]

/-! ## On one line -/

mutual

/-- An outline on one line. -/
def flat : Outline → String
  | leaf text => text
  | record name fields => name ++ " \x7b " ++ ", ".intercalate (flatFields fields) ++ " \x7d"
  | tuple name items => name ++ "(" ++ ", ".intercalate (flatItems items) ++ ")"
  | list items => "[" ++ ", ".intercalate (flatItems items) ++ "]"

/-- The parts of a record on one line. -/
def flatFields : List (String × Outline) → List String
  | [] => []
  | (name, o) :: fields => (name ++ ": " ++ o.flat) :: flatFields fields

/-- The parts of a tuple or a list on one line. -/
def flatItems : List Outline → List String
  | [] => []
  | o :: items => o.flat :: flatItems items

end

/-! ## On many lines -/

/-- A line break and the blanks before a part at `depth`. -/
def lineBreak (depth : Nat) : String := "\n" ++ blanks (4 * depth)

mutual

/-- An outline on many lines, in pieces; its first line continues one at `depth`. -/
def tallAt (depth : Nat) : Outline → List String
  | leaf text => [text]
  | record name fields =>
    (name ++ " \x7b") :: tallFields (depth + 1) fields ++ [lineBreak depth, "\x7d"]
  | tuple name items => (name ++ "(") :: tallItems (depth + 1) items ++ [lineBreak depth, ")"]
  | list [] => ["[]"]
  | list (o :: items) => "[" :: tallItems (depth + 1) (o :: items) ++ [lineBreak depth, "]"]

/-- The parts of a record, each on lines of its own at `depth`. -/
def tallFields (depth : Nat) : List (String × Outline) → List String
  | [] => []
  | (name, o) :: fields =>
    lineBreak depth :: (name ++ ": ") :: o.tallAt depth ++ "," :: tallFields depth fields

/-- The parts of a tuple or a list, each on lines of its own at `depth`. -/
def tallItems (depth : Nat) : List Outline → List String
  | [] => []
  | o :: items => lineBreak depth :: o.tallAt depth ++ "," :: tallItems depth items

end

/-- An outline on many lines. -/
def tall (o : Outline) : String := String.join (o.tallAt 0)

end Outline

end Melody.Text

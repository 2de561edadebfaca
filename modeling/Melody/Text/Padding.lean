/-!
# Texts of a least width

* `padLeft`, `padRight`: blanks before or after a text; a text that is wide enough stays as it is;
* `length_padLeft`: the width of the result is the larger of the two.
-/

namespace Melody.Text

/-- As many blanks. -/
def blanks (n : Nat) : String := String.ofList (List.replicate n ' ')

/-- `text` with blanks before it, up to `width` characters. -/
def padLeft (width : Nat) (text : String) : String := blanks (width - text.length) ++ text

/-- `text` with blanks after it, up to `width` characters. -/
def padRight (width : Nat) (text : String) : String := text ++ blanks (width - text.length)

@[simp] theorem length_blanks (n : Nat) : (blanks n).length = n := by
  simp [blanks]

theorem length_padLeft (width : Nat) (text : String) :
    (padLeft width text).length = max width text.length := by
  rw [padLeft, String.length_append, length_blanks]
  omega

end Melody.Text

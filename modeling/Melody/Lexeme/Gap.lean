import Melody.Text.Blank

/-!
# Gaps between tokens

A gap is made of blanks and of comments; a comment begins with two slashes and ends with its line.

* `splitGap`: the longest gap at the front of a text, and what follows it;
* `splitGap_append`: nothing is lost.
-/

namespace Melody

/-- Whether two slashes stand at the front of a text. -/
def opensComment : List Char → Bool
  | '/' :: '/' :: _ => true
  | _ => false

/-- The longest gap at the front of a text and what follows it; `inComment` says whether the text
begins within a comment. -/
def splitGap (inComment : Bool) : List Char → List Char × List Char
  | [] => ([], [])
  | c :: cs =>
    if inComment then
      let (gap, rest) := splitGap (c != '\n') cs
      (c :: gap, rest)
    else if Text.isBlank c then
      let (gap, rest) := splitGap false cs
      (c :: gap, rest)
    else if opensComment (c :: cs) then
      let (gap, rest) := splitGap true cs
      (c :: gap, rest)
    else ([], c :: cs)

theorem splitGap_append (inComment : Bool) (cs : List Char) :
    (splitGap inComment cs).1 ++ (splitGap inComment cs).2 = cs := by
  fun_induction splitGap inComment cs <;> simp_all

theorem length_splitGap (cs : List Char) : (splitGap false cs).2.length ≤ cs.length := by
  rw [← congrArg List.length (splitGap_append false cs), List.length_append]
  omega

end Melody

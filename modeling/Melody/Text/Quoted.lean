import Melody.Text.Combining
import Melody.Text.Invisible

/-!
# Quoted characters and texts

A quoted text shows every character: the usual ones have a letter after a backslash, the quote
itself and the backslash stand after a backslash, and a character that cannot be seen on its own
is written by its number.

* `standsAlone`: whether a character can be seen on its own;
* `escaped`: one character between quotes;
* `quotedChar`, `quoted`: a character between single quotes, a text between double quotes.
-/

namespace Melody.Text

/-- The letters of Hangul that are drawn as nothing. -/
def fillers : List Char := ['\u115f', '\u1160', '\u3164', '\uffa0']

/-- Whether a character has a picture of its own. -/
def standsAlone (c : Char) : Bool :=
  !(isInvisible c || isCombining c || fillers.contains c)

/-- A character by its number, in base sixteen. -/
def numbered (c : Char) : List Char :=
  ['\\', 'u', '\x7b'] ++ Nat.toDigits 16 c.toNat ++ ['\x7d']

/-- The character `c` between two marks `quote`. -/
def escaped (quote c : Char) : List Char :=
  if c = '\x00' then ['\\', '0']
  else if c = '\t' then ['\\', 't']
  else if c = '\r' then ['\\', 'r']
  else if c = '\n' then ['\\', 'n']
  else if c = '\\' ∨ c = quote then ['\\', c]
  else if standsAlone c then [c]
  else numbered c

/-- A character between single quotes. -/
def quotedChar (c : Char) : String :=
  String.ofList ('\x27' :: escaped '\x27' c ++ ['\x27'])

/-- A text between double quotes. -/
def quoted (s : String) : String :=
  String.ofList ('\x22' :: s.toList.flatMap (escaped '\x22') ++ ['\x22'])

end Melody.Text

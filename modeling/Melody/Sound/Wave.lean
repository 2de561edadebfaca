import Melody.Text.Quoted

/-!
# Waves

* `Wave`: the forms of the oscillation of a tone;
* `Wave.name`, `Wave.ofName?`: their names;
* `Wave.complaint`: what is said about a text that names none.
-/

namespace Melody.Sound

/-- The form of an oscillation. -/
inductive Wave
  | sine
  | square
  | triangle
  | sawtooth
deriving DecidableEq, Inhabited

namespace Wave

/-- The name of a wave. -/
def name : Wave → String
  | sine => "sine"
  | square => "square"
  | triangle => "triangle"
  | sawtooth => "sawtooth"

/-- The wave with a name in capital or small letters. -/
def ofName? (text : String) : Option Wave :=
  match text.toLower with
  | "sine" => some sine
  | "square" => some square
  | "triangle" => some triangle
  | "sawtooth" | "saw" => some sawtooth
  | _ => none

/-- What is said about a text that names no wave. -/
def complaint (text : String) : String := "unknown wave shape " ++ Text.quoted text.toLower

end Wave

end Melody.Sound

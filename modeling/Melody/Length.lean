/-!
# Lengths of notes

* `beats?`: how many beats a written length takes, if it is one.
-/

namespace Melody

/-- The beats of a written length; a quarter note takes one beat. -/
def beats? : String → Option Float
  | "1" => some 4
  | "1/2" => some 2
  | "1/4" => some 1
  | "1/8" => some 0.5
  | "1/16" => some 0.25
  | _ => none

end Melody

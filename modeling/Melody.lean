import Melody.Main
import Melody.Player
import Melody.Proofs.Brackets
import Melody.Proofs.Command.Observers
import Melody.Proofs.Command.Outcome
import Melody.Proofs.Contours
import Melody.Proofs.Controls
import Melody.Proofs.Cuts
import Melody.Proofs.Defects
import Melody.Proofs.Derivation
import Melody.Proofs.Excerpts
import Melody.Proofs.Figures
import Melody.Proofs.Independence
import Melody.Proofs.Interruption
import Melody.Proofs.Layout
import Melody.Proofs.Locating
import Melody.Proofs.Octaves
import Melody.Proofs.Ordering
import Melody.Proofs.Polyline
import Melody.Proofs.Ranges
import Melody.Proofs.Resumption
import Melody.Proofs.Sessions
import Melody.Proofs.Trace
import Melody.Proofs.TuneLayout
import Melody.Proofs.TuneVoices
import Melody.Proofs.Unplaced
import Melody.Proofs.Viability
import Melody.Proofs.Windows

import Melody.Performance

/-!
# Players

A player plays any number of scores, one after the other. Only its settings last: each score finds
the stage as if it were the first.

* `Player`, `Player.new`;
* `Player.adjust`: other settings for the scores to come;
* `Player.execute`: the performance of a score.
-/

namespace Melody

open Sound (Settings)

/-- Settings, and the stage as the last score left it. -/
structure Player where
  settings : Settings
  stage : Stage
deriving Inhabited

namespace Player

/-- A player that has played nothing. -/
def new (settings : Settings) : Player := ⟨settings, .opening 0⟩

/-- Change the settings for all scores to come. -/
def adjust (p : Player) (change : Settings → Settings) : Player :=
  { p with settings := change p.settings }

/-- Play a score with its first note at `now`. -/
def execute (p : Player) (score : Score) (now : Float) : Performance × Player :=
  let performance := Performance.of score now
  (performance, { p with stage := performance.recital.stage })

end Player

end Melody

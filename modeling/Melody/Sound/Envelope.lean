/-!
# Envelopes

The loudness of a note rises during its attack, falls to the sustained level during its decay, is
held, and fades out during its release. A note that is too short for the three phases has them
shortened in proportion. Everything here is stated for any numbers with the four operations and an
order, so that it can be read over floating-point numbers and over a field.

* `Envelope`: the lengths of the phases and the sustained level;
* `Envelope.fit`: the envelope of a note with a given duration; `Envelope.sustain_fit`: only the
  phases are changed;
* `Point`, `Contour`, `Envelope.contour`: the gain of a note as five points in time;
  `Envelope.times_contour`, `Envelope.gains_contour`: what their times and gains depend on;
* `Envelope.gainAt`: the gain at one moment.
-/

namespace Melody.Sound

/-- How the gain of a note changes with time, relative to its peak. -/
structure Envelope (α : Type) where
  /-- From silence to the peak. -/
  attack : α
  /-- From the peak to the sustained level. -/
  decay : α
  /-- The sustained level, as a part of the peak. -/
  sustain : α
  /-- From the sustained level to silence. -/
  release : α
deriving Inhabited

/-- A gain at a time. -/
structure Point (α : Type) where
  time : α
  gain : α
deriving Inhabited

/-- The corners of a gain curve; between them the gain changes evenly. -/
structure Contour (α : Type) where
  /-- The note begins. -/
  onset : Point α
  /-- The attack is over. -/
  peak : Point α
  /-- The decay is over. -/
  settled : Point α
  /-- The release begins. -/
  fading : Point α
  /-- The note is over. -/
  silence : Point α
deriving Inhabited

/-- The corners in the order of the curve. -/
def Contour.toList {α : Type} (c : Contour α) : List (Point α) :=
  [c.onset, c.peak, c.settled, c.fading, c.silence]

section Order

variable {α : Type} [LE α] [LT α] [DecidableLE α] [DecidableLT α]

/-- The smaller of two numbers, or the other one if one of them is not a number. -/
def lower (x y : α) : α := if y < x ∨ ¬ x ≤ x then y else x

/-- The larger of two numbers, or the other one if one of them is not a number. -/
def upper (x y : α) : α := if x < y ∨ ¬ x ≤ x then y else x

end Order

namespace Envelope

variable {α : Type} [Zero α] [Add α] [Sub α] [Mul α] [Div α]
variable [LE α] [LT α] [DecidableLE α] [DecidableLT α]

/-- The time that attack, decay and release take together. -/
def total (e : Envelope α) : α := e.attack + e.decay + e.release

/-- All three phases by the same factor. -/
def scale (e : Envelope α) (factor : α) : Envelope α :=
  { attack := e.attack * factor
    decay := e.decay * factor
    sustain := e.sustain
    release := e.release * factor }

/-- The envelope of a note of `duration`: phases that are longer than the note are shortened so
that they fill it. -/
def fit (e : Envelope α) (duration : α) : Envelope α :=
  if e.total ≤ duration ∨ e.total ≤ 0 then e else e.scale (duration / e.total)

omit [Sub α] [LT α] [DecidableLT α] in
theorem sustain_fit (e : Envelope α) (duration : α) : (e.fit duration).sustain = e.sustain := by
  unfold fit
  split <;> rfl

/-- The gain curve of a note with its first moment at `start`; the release never begins before the
decay is over. -/
def contour (e : Envelope α) (start duration peak : α) : Contour α :=
  let fitted := e.fit duration
  let level := peak * fitted.sustain
  let stop := start + duration
  let decayEnd := lower (start + fitted.attack + fitted.decay) stop
  let releaseStart := upper (stop - fitted.release) decayEnd
  { onset := ⟨start, 0⟩
    peak := ⟨start + fitted.attack, peak⟩
    settled := ⟨decayEnd, level⟩
    fading := ⟨releaseStart, level⟩
    silence := ⟨stop, 0⟩ }

theorem times_contour (e : Envelope α) (start duration peak peak' : α) :
    (e.contour start duration peak).toList.map (·.time) =
      (e.contour start duration peak').toList.map (·.time) := rfl

/-- Only the peak and the sustained level have a part in the gains of the corners. -/
theorem gains_contour (e : Envelope α) (start duration peak : α) :
    (e.contour start duration peak).toList.map (·.gain) =
      [0, peak, peak * e.sustain, peak * e.sustain, 0] := by
  rw [← e.sustain_fit duration]
  rfl

/-- The gain of a note when `time` has passed since its first moment. -/
def gainAt (e : Envelope α) (time duration peak : α) : α :=
  let fitted := e.fit duration
  let level := peak * fitted.sustain
  if time < 0 ∨ duration ≤ time then 0
  else if time < fitted.attack then peak * time / fitted.attack
  else if time < fitted.attack + fitted.decay then
    peak - (time - fitted.attack) / fitted.decay * (peak - level)
  else if time < duration - fitted.release then level
  else level * (duration - time) / fitted.release

end Envelope

end Melody.Sound

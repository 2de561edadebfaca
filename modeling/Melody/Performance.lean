import Melody.Fault
import Melody.Length
import Melody.Score.Draft
import Melody.Sound.Tuning
import Melody.Sound.Voice

/-!
# Performances

A score is played from a moment on: tempo and loudness hold until they are changed, each note
begins where the last one ended, and everything that happens is noted down in its order. The first
statement that cannot be played ends the performance; what happened before it stays.

* `Stage`: tempo, loudness and the moment of the next note;
* `Happening`, `Recital`: what happens while a score is played;
* `Stage.event`: the tone of a note, or why it has none;
* `Statement.play`, `playBlock`: playing statements;
* `Performance`, `Performance.of`: how a score went; `Performance.voices`: its tones with sound;
* `Cue`, `Recital.cues`: what a listener is told.
-/

namespace Melody

open Sound (Event Settings Voice)

/-- What the next note depends on. -/
structure Stage where
  /-- Beats in a minute. -/
  tempo : UInt32
  /-- Percent of the full amplitude. -/
  volume : UInt32
  /-- When the next note begins, in seconds. -/
  cursor : Float
deriving Inhabited

/-- The tempo of a score that sets none. -/
def Stage.standardTempo : UInt32 := 120

/-- The loudness of a score that sets none. -/
def Stage.standardVolume : UInt32 := 80

/-- The stage before the first statement. -/
def Stage.opening (now : Float) : Stage := ⟨standardTempo, standardVolume, now⟩

/-- What a statement does, and when. -/
inductive Happening
  | tempo (bpm : UInt32) (time : Float)
  | volume (percent : UInt32) (time : Float)
  | sequenceStart (name : String) (time : Float)
  | sequenceEnd (name : String) (time : Float)
  | note (note : Note) (event : Event)
deriving Inhabited

/-- What has happened so far. -/
structure Recital where
  stage : Stage
  happenings : Array Happening
deriving Inhabited

namespace Recital

/-- Nothing has happened before `now`. -/
def opening (now : Float) : Recital := ⟨.opening now, #[]⟩

/-- A new tempo, from the next note on. -/
def setTempo (r : Recital) (bpm : UInt32) : Recital :=
  { stage := { r.stage with tempo := bpm }
    happenings := r.happenings.push (.tempo bpm r.stage.cursor) }

/-- A new loudness, from the next note on. -/
def setVolume (r : Recital) (percent : UInt32) : Recital :=
  { stage := { r.stage with volume := percent }
    happenings := r.happenings.push (.volume percent r.stage.cursor) }

/-- A sequence begins. -/
def enter (r : Recital) (name : String) : Recital :=
  { r with happenings := r.happenings.push (.sequenceStart name r.stage.cursor) }

/-- A sequence ends. -/
def leave (r : Recital) (name : String) : Recital :=
  { r with happenings := r.happenings.push (.sequenceEnd name r.stage.cursor) }

/-- A note is played, and the next one begins after it. -/
def sound (r : Recital) (note : Note) (event : Event) : Recital :=
  { stage := { r.stage with cursor := r.stage.cursor + event.duration }
    happenings := r.happenings.push (.note note event) }

end Recital

/-! ## Playing -/

/-- The tone of a note on a stage, or the first reason why it has none: the spelling, the octave,
the length. -/
def Stage.event (stage : Stage) (note : Note) : Except SemanticCause Event :=
  match Sound.baseFrequency? note.spelling with
  | none => .error (.unknownPitch note.spelling)
  | some _ =>
    match Sound.frequency? note.spelling note.octave with
    | none => .error (.unplayableOctave note.octave)
    | some frequency =>
      match beats? note.length with
      | none => .error (.unknownLength note.length)
      | some beats =>
        .ok { frequency
              start := stage.cursor
              duration := beats * 60 / stage.tempo.toFloat
              amplitude := stage.volume.toFloat / 100 }

/-- A part of a performance: it carries a recital on, and may end with a fault. -/
abbrev Play := EStateM Fault Recital Unit

/-- The same part `n` times, one after the other. -/
def Play.times (part : Play) : Nat → Play
  | 0, r => .ok () r
  | n + 1, r =>
    match part r with
    | .ok _ r => part.times n r
    | .error fault r => .error fault r

mutual

/-- Play a statement. -/
def Statement.play : Statement → Play
  | .tempo pos bpm, r =>
    if bpm = 0 then .error ⟨pos, .semantic (.invalidTempo bpm)⟩ r else .ok () (r.setTempo bpm)
  | .volume pos percent, r =>
    if 100 < percent then .error ⟨pos, .semantic (.volumeOutOfRange percent)⟩ r
    else .ok () (r.setVolume percent)
  | .sequence _ name body, r =>
    match playBlock body (r.enter name) with
    | .ok _ r => .ok () (r.leave name)
    | .error fault r => .error fault r
  | .repetition _ count body, r => Play.times (playBlock body) count.toNat r
  | .note note, r =>
    match r.stage.event note with
    | .ok event => .ok () (r.sound note event)
    | .error cause => .error ⟨note.pos, .semantic cause⟩ r

/-- Play statements one after the other. -/
def playBlock : List Statement → Play
  | [], r => .ok () r
  | s :: ss, r =>
    match s.play r with
    | .ok _ r => playBlock ss r
    | .error fault r => .error fault r

end

/-! ## Performances of a score -/

/-- How the performance of a score went. -/
structure Performance where
  /-- What happened, up to the fault if there was one. -/
  recital : Recital
  fault : Option Fault
deriving Inhabited

namespace Performance

/-- The performance of a score with its first note at `now`. -/
def of (score : Score) (now : Float) : Performance :=
  match playBlock score.statements (.opening now) with
  | .ok _ recital => ⟨recital, none⟩
  | .error fault recital => ⟨recital, some fault⟩

/-- The performance of a text with its first note at `now`; without a score, nothing happens. -/
def ofSource (source : String) (now : Float) : Performance :=
  match Score.ofSource source with
  | .ok score => of score now
  | .error fault => ⟨.opening now, some fault⟩

end Performance

/-- The tone of a happening, if it is a note. -/
def Happening.event? : Happening → Option Event
  | note _ event => some event
  | _ => none

/-- All tones in their order. -/
def Recital.events (r : Recital) : List Event := r.happenings.toList.filterMap Happening.event?

/-- All tones with the sound of the settings, unless a fault ended the performance. -/
def Performance.voices (p : Performance) (settings : Settings) : Except Fault (List Voice) :=
  match p.fault with
  | some fault => .error fault
  | none => .ok (p.recital.events.map settings.voice)

/-- What a listener is told, with the moment it is about. -/
inductive Cue
  | noteStart (label : String) (time : Float)
  | noteEnd (label : String) (time : Float)
  | sequenceStart (name : String) (time : Float)
  | sequenceEnd (name : String) (time : Float)
deriving Inhabited

/-- What a listener is told about a happening. -/
def Happening.cues : Happening → List Cue
  | tempo _ _ => []
  | volume _ _ => []
  | sequenceStart name time => [.sequenceStart name time]
  | sequenceEnd name time => [.sequenceEnd name time]
  | note _ event => [.noteStart event.label event.start, .noteEnd event.label event.stop]

/-- All that a listener is told. -/
def Recital.cues (r : Recital) : List Cue := r.happenings.toList.flatMap Happening.cues

end Melody

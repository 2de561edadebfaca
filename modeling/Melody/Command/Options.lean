import Melody.Command.Arguments
import Melody.Decimal.Layout
import Melody.Decimal.Reader
import Melody.Sound.Voice
import Melody.Text.Outline

/-!
# Options of the command

* `Options`: what the arguments ask for;
* `Tally.options`, `Options.ofArguments`: the options that arguments stand for, if they are sound;
* `Options.settings`: the sound that is asked for;
* `Options.outline`: all options with their names.
-/

namespace Melody.Command

open Sound (Settings Wave)
open Text (Outline)

/-- What the arguments ask for. -/
structure Options where
  /-- How often more detail is asked for. -/
  verbose : Nat
  /-- The file of the melody. -/
  source : String
  /-- The file for the timeline. -/
  output : Option String
  /-- The file for the tune. -/
  abc : Option String
  dumpTokens : Bool
  dumpAst : Bool
  /-- The start of the first note. -/
  start : Float
  wave : Option Wave
  attack : Option Float
  decay : Option Float
  sustain : Option Float
  release : Option Float
  cutoff : Option Float
  resonance : Option Float
  noFilter : Bool
deriving Inhabited

namespace Tally

/-- The uses of an option. -/
def usesOf (t : Tally) (name : Name) : List Use := t.uses.filter (·.name = name)

/-- The values of an option; `standard` stands for a value that is not given. -/
def valuesOf (t : Tally) (name : Name) (standard : Option String) : List String :=
  let given := (t.usesOf name).filterMap (·.value)
  if given.isEmpty then standard.toList else given

/-- The value of an option, which has to be readable and to be given once. -/
def value? {α : Type} (t : Tally) (name : Name) (read : String → Option α)
    (standard : Option String) : Except Refusal (Option α) :=
  let values := t.valuesOf name standard
  if values.isEmpty then
    if (t.usesOf name).isEmpty then .ok none else .error .missingValue
  else
    match values.mapM read with
    | none => .error .invalidValue
    | some values =>
      if 1 < (t.usesOf name).length then .error .repeatedOption else .ok values.head?

/-- Whether an option without value is given; it may be given once. -/
def flag (t : Tally) (name : Name) : Except Refusal Bool :=
  match (t.usesOf name).length with
  | 0 => .ok false
  | 1 => .ok true
  | _ => .error .repeatedOption

/-- The start of a melody for which nothing else is wanted. -/
def standardStart : String := "0"

/-- The option that waits for its value at the end of the arguments gets none, and only the start
can do without. -/
def checkPending (t : Tally) : Except Refusal Unit :=
  match t.pending with
  | none => .ok ()
  | some name =>
    if t.source.isNone then .error .missingSource
    else
      let standard := if name = .start then some standardStart else none
      if (t.valuesOf name standard).isEmpty then .error .missingValue else .ok ()

/-- Without a filter, nothing can be said about the filter. -/
def checkFilter (t : Tally) : Except Refusal Unit :=
  if (t.usesOf .noFilter).isEmpty then .ok ()
  else if (t.usesOf .cutoff).isEmpty && (t.usesOf .resonance).isEmpty then .ok ()
  else .error .conflict

/-- The options that arguments stand for. -/
def options (t : Tally) : Except Refusal Options := do
  t.checkPending
  let t := t.settle
  t.checkFilter
  match t.source with
  | none => .error .missingSource
  | some source =>
    return {
      verbose := (t.usesOf .verbose).length
      source
      output := ← t.value? .output some none
      abc := ← t.value? .abc some none
      dumpTokens := ← t.flag .dumpTokens
      dumpAst := ← t.flag .dumpAst
      start := ((← t.value? .start Decimal.read? (some standardStart))).getD 0
      wave := ← t.value? .wave Wave.ofName? none
      attack := ← t.value? .attack Decimal.read? none
      decay := ← t.value? .decay Decimal.read? none
      sustain := ← t.value? .sustain Decimal.read? none
      release := ← t.value? .release Decimal.read? none
      cutoff := ← t.value? .cutoff Decimal.read? none
      resonance := ← t.value? .resonance Decimal.read? none
      noFilter := ← t.flag .noFilter }

end Tally

namespace Options

/-- The options that arguments stand for, or why they are not accepted. -/
def ofArguments (args : List String) : Except Refusal Options := Tally.of args >>= Tally.options

/-! ## What is asked for -/

/-- The standard sound, with all that is asked for. -/
def settings (o : Options) : Settings :=
  let standard := Settings.standard
  { wave := o.wave.getD standard.wave
    envelope :=
      { attack := o.attack.getD standard.envelope.attack
        decay := o.decay.getD standard.envelope.decay
        sustain := o.sustain.getD standard.envelope.sustain
        release := o.release.getD standard.envelope.release }
    filter :=
      if o.noFilter then none
      else standard.filter.map fun f =>
        ⟨o.cutoff.getD f.cutoff, o.resonance.getD f.resonance⟩ }

/-- A number as an outline. -/
def numberOutline (x : Float) : Outline := .leaf (Decimal.Style.explicit.write x)

/-- A wave as an outline. -/
def waveOutline (w : Wave) : Outline := .leaf w.name.capitalize

/-- All options with their names. -/
def outline (o : Options) : Outline :=
  .record "Opt" [("verbose", .number o.verbose), ("source", .string o.source),
    ("output", .option (o.output.map .string)), ("abc", .option (o.abc.map .string)),
    ("dump_tokens", .bool o.dumpTokens), ("dump_ast", .bool o.dumpAst),
    ("start", numberOutline o.start), ("wave", .option (o.wave.map waveOutline)),
    ("attack", .option (o.attack.map numberOutline)),
    ("decay", .option (o.decay.map numberOutline)),
    ("sustain", .option (o.sustain.map numberOutline)),
    ("release", .option (o.release.map numberOutline)),
    ("cutoff", .option (o.cutoff.map numberOutline)),
    ("resonance", .option (o.resonance.map numberOutline)),
    ("no_filter", .bool o.noFilter)]

end Options

end Melody.Command

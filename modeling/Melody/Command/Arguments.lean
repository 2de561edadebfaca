/-!
# Arguments of the command

An argument that begins with a dash names options; any other is the value that the option before it
waits for, or else the source. A short option may stand with others behind one dash, and its value
may follow at once; the value of a long option may follow an equals sign. After two dashes alone
no argument names options.

* `Refusal`: why arguments are not accepted, and its wording;
* `Name`: the options; `Name.ofLong?`, `Name.ofShort?`: how they are written;
* `Tally`, `Tally.feed`: what the arguments so far say;
* `Tally.of`: what all arguments say.
-/

namespace Melody.Command

/-- Why arguments are not accepted, or why nothing is to be done but to answer a question. -/
inductive Refusal
  | missingSource
  | unknownArgument
  | invalidValue
  | missingValue
  | conflict
  | repeatedOption
  | helpWanted
  | versionWanted
deriving DecidableEq, Inhabited

/-- The refusal in words. -/
def Refusal.message : Refusal → String
  | missingSource => "the source is missing"
  | unknownArgument => "there is an argument that has no meaning here"
  | invalidValue => "the value of an option cannot be read"
  | missingValue => "an option has no value"
  | conflict => "two options exclude each other"
  | repeatedOption => "an option is given more than once"
  | helpWanted => "usage: sonoc [options] <source>"
  | versionWanted => "sonoc 0.1.0"

/-- Whether a refusal answers a question. -/
def Refusal.isAnswer : Refusal → Bool
  | helpWanted | versionWanted => true
  | _ => false

/-! ## Options -/

/-- The options of the command. -/
inductive Name
  | verbose
  | output
  | abc
  | dumpTokens
  | dumpAst
  | start
  | wave
  | attack
  | decay
  | sustain
  | release
  | cutoff
  | resonance
  | noFilter
deriving DecidableEq, Inhabited

namespace Name

/-- Whether an option has a value. -/
def takesValue : Name → Bool
  | verbose | dumpTokens | dumpAst | noFilter => false
  | _ => true

/-- The option with a long name. -/
def ofLong? : String → Except Refusal Name
  | "verbose" => .ok verbose
  | "output" => .ok output
  | "abc" => .ok abc
  | "dump-tokens" => .ok dumpTokens
  | "dump-ast" => .ok dumpAst
  | "start" => .ok start
  | "wave" => .ok wave
  | "attack" => .ok attack
  | "decay" => .ok decay
  | "sustain" => .ok sustain
  | "release" => .ok release
  | "cutoff" => .ok cutoff
  | "resonance" => .ok resonance
  | "no-filter" => .ok noFilter
  | "help" => .error .helpWanted
  | "version" => .error .versionWanted
  | _ => .error .unknownArgument

/-- The option with a short name. -/
def ofShort? : Char → Except Refusal Name
  | 'v' => .ok verbose
  | 'o' => .ok output
  | 'h' => .error .helpWanted
  | 'V' => .error .versionWanted
  | _ => .error .unknownArgument

end Name

/-- One use of an option, with its value if it got one. -/
structure Use where
  name : Name
  value : Option String
deriving DecidableEq, Inhabited

/-- What the arguments so far say. -/
structure Tally where
  source : Option String
  /-- The uses of options, the newest first. -/
  uses : List Use
  /-- The option that waits for its value. -/
  pending : Option Name
  /-- Whether no argument names options any more. -/
  verbatim : Bool
deriving Inhabited

namespace Tally

/-- No argument is read yet. -/
def empty : Tally := ⟨none, [], none, false⟩

/-- An option is used. -/
def use (t : Tally) (name : Name) (value : Option String) : Tally :=
  { t with uses := ⟨name, value⟩ :: t.uses, pending := none }

/-- An option that still waits gets no value. -/
def settle (t : Tally) : Tally :=
  match t.pending with
  | some name => t.use name none
  | none => t

/-- The argument is the source; there is only one. -/
def place (t : Tally) (arg : String) : Except Refusal Tally :=
  match t.source with
  | none => .ok { t with source := some arg }
  | some _ => .error .unknownArgument

/-- A value behind an equals sign, or further ones. -/
def afterEquals (cs : List Char) : String := String.ofList (cs.dropWhile (· == '='))

/-- The argument is a long option without its dashes. -/
def feedLong (t : Tally) (cs : List Char) : Except Refusal Tally :=
  let value := cs.dropWhile (· != '=')
  (Name.ofLong? (String.ofList (cs.takeWhile (· != '=')))).map fun name =>
    if !name.takesValue then t.use name none
    else if value.isEmpty then { t with pending := some name }
    else t.use name (some (afterEquals value))

/-- The argument is a row of short options without its dash. -/
def feedShort (t : Tally) : List Char → Except Refusal Tally
  | [] => .ok t
  | c :: cs =>
    match Name.ofShort? c with
    | .error refusal => .error refusal
    | .ok name =>
      if !name.takesValue then (t.use name none).feedShort cs
      else if cs.isEmpty then .ok { t with pending := some name }
      else .ok (t.use name (some (afterEquals cs)))

/-- One more argument. -/
def feed (t : Tally) (arg : String) : Except Refusal Tally :=
  if t.verbatim then t.place arg
  else
    match arg.toList with
    | ['-', '-'] => .ok { t with verbatim := true }
    | '-' :: '-' :: cs => t.settle.feedLong (cs.dropWhile (· == '-'))
    | '-' :: c :: cs => t.settle.feedShort (c :: cs)
    | _ =>
      match t.pending with
      | some name => .ok (t.use name (some arg))
      | none => t.place arg

/-- What all arguments say. -/
def of (args : List String) : Except Refusal Tally := args.foldlM feed empty

end Tally

end Melody.Command

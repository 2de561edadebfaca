import Melody.Command.Script

/-!
# The command line

The script of the command is carried out step by step on the files of the system.
-/

namespace Melody.Command

/-- The number and the words of an error of the system. -/
def errorParts : IO.Error → UInt32 × String
  | .noFileOrDirectory _ code details | .interrupted _ code details
  | .alreadyExists _ code details | .invalidArgument _ code details
  | .permissionDenied _ code details | .resourceExhausted _ code details
  | .inappropriateType _ code details | .noSuchThing _ code details
  | .otherError code details | .resourceBusy code details | .resourceVanished code details
  | .unsupportedOperation code details | .hardwareFault code details
  | .unsatisfiedConstraints code details | .illegalOperation code details
  | .protocolError code details | .timeExpired code details => (code, details)
  | e => (5, toString e)

/-- What an error of the system says about a file; its number may have the opposite sign. -/
def DiskFault.ofError (e : IO.Error) : DiskFault :=
  let (code, details) := errorParts e
  match (if code.toNat < 2147483648 then code else -code).toNat with
  | 2 => notFound
  | 12 => outOfMemory
  | 13 => refused 13 "PermissionDenied" "Permission denied"
  | 20 => notDirectory
  | 21 => isDirectory
  | 28 => noSpace
  | 36 => nameTooLong
  | code => refused code "Uncategorized" details

/-- The text of a file. -/
def readText (path : String) : IO (Except DiskFault String) := do
  try
    let bytes ← IO.FS.readBinFile path
    return match String.fromUTF8? bytes with
      | some text => .ok text
      | none => .error .notText
  catch e => return .error (.ofError e)

/-- Carry a step out, with entries up to the rank `limit`. -/
def Step.carryOut (limit : Nat) : Step → IO (Option DiskFault)
  | .log entry => do
    if entry.level.rank ≤ limit then IO.print entry.line
    return none
  | .print text => do
    IO.print text
    return none
  | .write path text => do
    try
      IO.FS.withFile path .write fun handle => do
        handle.putStr text
        handle.flush
      return none
    catch e => return some (.ofError e)

/-- Carry out steps up to the first one that fails. -/
def carryOut (limit : Nat) (fault : Option Fault) : List Step → IO Ending
  | [] => return fault.elim .success .faulty
  | s :: ss => do
    match ← s.carryOut limit with
    | none => carryOut limit fault ss
    | some e => return .stuck e

/-- Do what the options ask for. -/
def Options.carryOut (o : Options) : IO Ending := do
  match ← readText o.source with
  | .error e => return .stuck e
  | .ok source =>
    let script := o.script source
    Command.carryOut o.logLimit script.fault script.steps

end Melody.Command

open Melody.Command in
/-- The command. -/
def main (args : List String) : IO UInt32 := do
  match Options.ofArguments args with
  | .error refusal =>
    if refusal.isAnswer then
      IO.println refusal.message
      return 0
    else
      IO.eprintln ("error: " ++ refusal.message)
      return 1
  | .ok o =>
    let ending ← o.carryOut
    IO.eprint ending.message
    return UInt32.ofNat ending.exitCode

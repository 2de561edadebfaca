/-!
# Files

The command works in one directory of a tree of directories and files. A path is walked part by
part, and the first part that cannot be walked says what is wrong with it.

* `DiskFault`: why a file cannot be read or written;
* `Location`, `Node`, `Disk`: the tree and the working directory;
* `Path`: a path taken apart;
* `Disk.target`: where a path leads;
* `Disk.read`, `Disk.write`: the files of the tree.
-/

namespace Melody.Command

/-- Why a file cannot be read or written. -/
inductive DiskFault
  /-- The system refuses, for a reason with a number, a name and words. -/
  | refused (code : Nat) (kind : String) (message : String)
  /-- The bytes of a file are not a text. -/
  | notText
deriving DecidableEq, Inhabited

namespace DiskFault

/-- There is no such file. -/
def notFound : DiskFault := refused 2 "NotFound" "No such file or directory"

/-- A directory stands where a file has to be. -/
def isDirectory : DiskFault := refused 21 "IsADirectory" "Is a directory"

/-- A file stands where a directory has to be. -/
def notDirectory : DiskFault := refused 20 "NotADirectory" "Not a directory"

/-- A path or a part of it has too many bytes. -/
def nameTooLong : DiskFault := refused 36 "InvalidFilename" "File name too long"

/-- There is no room for more bytes. -/
def noSpace : DiskFault := refused 28 "StorageFull" "No space left on device"

/-- There is no room for what is read. -/
def outOfMemory : DiskFault := refused 12 "OutOfMemory" "Cannot allocate memory"

end DiskFault

/-- A place in the tree: the names that lead to it from the root on. -/
abbrev Location := List String

/-- What stands at a location. -/
inductive Node
  | folder
  | file (bytes : ByteArray)
  /-- A device that holds nothing and takes everything. -/
  | sink
  /-- A device that holds zeros without end and takes nothing. -/
  | full
deriving Inhabited

/-- The tree, seen from the working directory. -/
structure Disk where
  /-- The working directory. -/
  here : Location
  /-- What stands at a location, if anything does. -/
  get? : Location → Option Node

namespace Disk

/-- The directories below the root of a system. -/
def systemFolders : List String :=
  ["bin", "boot", "dev", "etc", "home", "lib", "lib64", "media", "mnt", "opt", "proc", "root",
    "run", "sbin", "srv", "sys", "tmp", "usr", "var"]

/-- A system with an empty working directory, no other file and two devices. -/
def empty : Disk where
  here := ["tmp", "melody"]
  get?
    | [] => some .folder
    | ["tmp", "melody"] => some .folder
    | ["dev", "null"] => some .sink
    | ["dev", "full"] => some .full
    | [name] => if name ∈ systemFolders then some .folder else none
    | _ => none

/-- The tree with a file of these bytes at a location. -/
def put (d : Disk) (location : Location) (bytes : ByteArray) : Disk :=
  { d with get? := fun other => if other = location then some (.file bytes) else d.get? other }

@[simp] theorem get?_put (d : Disk) (location other : Location) (bytes : ByteArray) :
    (d.put location bytes).get? other =
      if other = location then some (.file bytes) else d.get? other := rfl

/-- The tree with a file in the working directory. -/
def withFile (d : Disk) (name : String) (bytes : ByteArray) : Disk :=
  d.put (d.here ++ [name]) bytes

end Disk

/-! ## Paths -/

/-- A path taken apart. -/
structure Path where
  /-- Whether it starts at the root. -/
  rooted : Bool
  /-- The parts between slashes that are not empty. -/
  parts : List String
  /-- Whether it ends with a slash. -/
  slash : Bool
deriving DecidableEq, Inhabited

/-- A text as a path. -/
def Path.of (text : String) : Path :=
  let pieces := text.toList.splitOn '/'
  { rooted := pieces.head? == some []
    parts := (pieces.filter fun p => !p.isEmpty).map String.ofList
    slash := pieces.getLast? == some [] }

/-- Where a path leads. -/
inductive Target
  /-- To a directory, by way of dots or because there is nothing but slashes. -/
  | folder
  /-- To a name in a directory; `slash` says whether the path insists on a directory. -/
  | entry (folder : Location) (name : String) (slash : Bool)
deriving DecidableEq, Inhabited

/-- Whether a part of a path is one of the dots, which are directories at any place. -/
def isDots (part : String) : Bool := part == "." || part == ".."

namespace Disk

/-- What stands under a name in a directory. -/
def look (d : Disk) (folder : Location) (name : String) : Except DiskFault (Option Node) :=
  if 255 < name.utf8ByteSize then .error .nameTooLong else .ok (d.get? (folder ++ [name]))

/-- The directory that a part of a path leads to; the root is its own parent. -/
def enter (d : Disk) (folder : Location) (part : String) : Except DiskFault Location :=
  if part = "." then .ok folder
  else if part = ".." then .ok folder.dropLast
  else do
    match ← d.look folder part with
    | some .folder => return folder ++ [part]
    | some _ => throw .notDirectory
    | none => throw .notFound

/-- Where the parts of a path lead from a directory. -/
def walk (d : Disk) (slash : Bool) (folder : Location) : List String → Except DiskFault Target
  | [] => .ok .folder
  | [part] => .ok (if isDots part then .folder else .entry folder part slash)
  | part :: parts => do d.walk slash (← d.enter folder part) parts

/-- Where a path leads. -/
def target (d : Disk) (text : String) : Except DiskFault Target :=
  if text = "" then .error .notFound
  else if 4096 ≤ text.utf8ByteSize then .error .nameTooLong
  else
    let path := Path.of text
    d.walk path.slash (if path.rooted then [] else d.here) path.parts

/-- The text of the file at a path. -/
def read (d : Disk) (path : String) : Except DiskFault String := do
  match ← d.target path with
  | .folder => throw .isDirectory
  | .entry folder name slash =>
    match ← d.look folder name, slash with
    | none, _ => throw .notFound
    | some .folder, _ => throw .isDirectory
    | some _, true => throw .notDirectory
    | some .sink, false => return ""
    | some .full, false => throw .outOfMemory
    | some (.file bytes), false =>
      match String.fromUTF8? bytes with
      | some text => return text
      | none => throw .notText

/-- The tree with the text in the file at a path; what was in it is gone. -/
def write (d : Disk) (path : String) (text : String) : Except DiskFault Disk := do
  match ← d.target path with
  | .folder => throw .isDirectory
  | .entry _ _ true => throw .isDirectory
  | .entry folder name false =>
    match ← d.look folder name with
    | some .folder => throw .isDirectory
    | some .sink => return d
    | some .full => throw .noSpace
    | some (.file _) | none => return d.put (folder ++ [name]) text.toUTF8

end Disk

end Melody.Command

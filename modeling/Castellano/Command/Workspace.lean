import Castellano.Attempt
import Castellano.Text.Utf8

/-!
# Files and directories

The files that the program reads and writes, as a tree of names. A directory exists if it was made
or if something lies in it. Of what lies outside the directory that the program works in, only the
directories above it and the root are known.

* `FileError` — why a file cannot be read or written.
* `Workspace.read`, `Workspace.write`, `Workspace.save` — the operations.
* `Workspace.changes` — the files of one workspace that another does not have, or has otherwise.
-/

namespace Castellano.Command

/-- Why a file or directory cannot be used. -/
inductive FileFault where
  | missing
  | alreadyExists
  | notDirectory
  | isDirectory
  | nameTooLong
deriving DecidableEq, Repr

namespace FileFault

/-- The number of a fault. -/
def number : FileFault → Nat
  | missing => 2
  | alreadyExists => 17
  | notDirectory => 20
  | isDirectory => 21
  | nameTooLong => 36

/-- The wording of a fault. -/
def message : FileFault → String
  | missing => "No such file or directory"
  | alreadyExists => "File exists"
  | notDirectory => "Not a directory"
  | isDirectory => "Is a directory"
  | nameTooLong => "File name too long"

end FileFault

/-- What is wrong with a path. -/
inductive FileError where
  /-- The files do not allow what was asked for at this path. -/
  | refused (fault : FileFault) (path : String)
  /-- The path holds a null character, and so is none. -/
  | notPath
deriving DecidableEq, Repr

/-- The wording of the error. -/
def FileError.message : FileError → String
  | refused fault path => s!"[Errno {fault.number}] {fault.message}: {Text.quoted path}"
  | notPath => "embedded null byte"

/-! ## Places -/

/-- Where the names on the way to a file start. -/
inductive Base where
  /-- So many directories above the one that the program works in. -/
  | above (levels : Nat)
  | root
deriving DecidableEq, Repr

/-- The names on the way to a file. -/
structure Location where
  base : Base := .above 0
  names : List String := []
deriving DecidableEq, Repr, Inhabited

/-- Where one step of a path leads. -/
def Location.step (here : Location) (name : String) : Location :=
  if name = "" || name = "." then here
  else if name = ".." then
    match here.base, here.names with
    | .above levels, [] => ⟨.above (levels + 1), []⟩
    | .root, [] => here
    | base, names => ⟨base, names.dropLast⟩
  else { here with names := here.names ++ [name] }

/-- What a path leads to. -/
inductive Entry where
  | file (content : List UInt8)
  | directory
deriving DecidableEq, Repr

/-- Files and directories by their locations. -/
structure Workspace where
  entries : List (Location × Entry) := []
deriving DecidableEq, Repr, Inhabited

namespace Workspace

/-- What lies at a location. -/
def find? (files : Workspace) (location : Location) : Option Entry :=
  match files.entries.lookup location with
  | some entry => some entry
  | none =>
    let holds := fun (other : Location) =>
      other.base = location.base && location.names.isPrefixOf other.names
    if location.names.isEmpty || files.entries.any fun (other, _) => holds other then
      some .directory
    else none

/-- Puts an entry at a location, in place of what was there. -/
def insert (files : Workspace) (location : Location) (entry : Entry) : Workspace :=
  ⟨(files.entries.filter fun (other, _) => other ≠ location) ++ [(location, entry)]⟩

/-- Where a path leads. A path that ends in a slash is meant to lead to a directory. -/
inductive Place where
  | directory
  | file (location : Location) (content : List UInt8) (slash : Bool)
  /-- A free name in a directory. -/
  | vacant (location : Location) (slash : Bool)
  /-- A name in a directory that is too long for any file. -/
  | tooLong (slash : Bool)

/-- The greatest number of bytes in a name. -/
def nameLimit : Nat := 255

/-- The greatest number of bytes in a path. -/
def pathLimit : Nat := 4095

/-- Follows the steps of a path from a directory. -/
def follow (files : Workspace) (here : Location) : List String → Except FileFault Place
  | [] => .ok .directory
  | name :: steps =>
    let next := here.step name
    let slash := !steps.isEmpty
    let isLast := steps.all (· = "")
    if nameLimit < name.utf8ByteSize then
      if isLast then .ok (.tooLong slash) else .error .nameTooLong
    else
      match files.find? next with
      | some .directory => follow files next steps
      | some (.file content) =>
        if isLast then .ok (.file next content slash) else .error .notDirectory
      | none => if isLast then .ok (.vacant next slash) else .error .missing

/-- Follows a path, from the root if it starts with a slash. -/
def resolve (files : Workspace) (path : String) : Except FileFault Place :=
  if path = "" then .error .missing
  else if pathLimit < path.utf8ByteSize then .error .nameTooLong
  else files.follow (if path.startsWith "/" then { base := .root } else {}) (path.splitOn "/")

/-- Follows what may be a path. -/
def locate (files : Workspace) (path : String) : Except FileError Place :=
  if path.toList.contains '\x00' then .error .notPath
  else (files.resolve path).mapError fun fault => .refused fault path

/-! ## Operations -/

/-- The content of a file. -/
def read (files : Workspace) (path : String) : Except FileError (List UInt8) := do
  match ← files.locate path with
  | .file _ content false => return content
  | .file _ _ true => throw (.refused .notDirectory path)
  | .directory => throw (.refused .isDirectory path)
  | .vacant _ _ => throw (.refused .missing path)
  | .tooLong _ => throw (.refused .nameTooLong path)

/-- Where a path leads now. -/
def place (path : String) : Attempt FileError Workspace Place := do
  match (← Attempt.state).locate path with
  | .ok place => return place
  | .error e => Attempt.fail e

/-- Writes a text to a file, which is made if the directory it is to lie in exists. A path that ends
    in a slash is never written to, whatever it leads to. -/
def write (path text : String) : Attempt FileError Workspace Unit := do
  match ← place path with
  | .file location _ false | .vacant location false =>
    Attempt.update fun files => files.insert location (.file text.toUTF8.toList)
  | .tooLong false => Attempt.fail (.refused .nameTooLong path)
  | _ => Attempt.fail (.refused .isDirectory path)

/-- Makes a directory, unless it is there. -/
def makeDirectory (path : String) : Attempt FileError Workspace Unit := do
  match ← place path with
  | .directory => return ()
  | .file .. => Attempt.fail (.refused .alreadyExists path)
  | .vacant location _ => Attempt.update fun files => files.insert location .directory
  | .tooLong _ => Attempt.fail (.refused .nameTooLong path)

/-- The path leads to a file or a directory. -/
def reaches (files : Workspace) (path : String) : Bool :=
  match files.locate path with
  | .ok .directory | .ok (.file ..) => true
  | _ => false

/-- Does what it is told, and takes it for done if a file stands where a directory was to be made.
    What cannot be made in that place is found out later. -/
def tolerant (work : Attempt FileError Workspace Unit) : Attempt FileError Workspace Unit :=
  ⟨fun files =>
    match work.run files with
    | .error (.refused .alreadyExists _) reached => .ok () reached
    | result => result⟩

/-- The path with the given steps, of which the last comes first. -/
def pathBack (steps : List String) : String := "/".intercalate steps.reverse

/-- Makes the directory with the given steps, of which the last comes first. If the path without its
    last step leads nowhere, the directories on it are made before, and then a last step that stays
    where it is needs nothing more. -/
def makeDirectories : (steps : List String) → Attempt FileError Workspace Unit
  | [] => return ()
  | name :: above => do
    let parent := above.dropWhile (· = "")
    let parentReached := parent.isEmpty || (← Attempt.state).reaches (pathBack parent)
    if name = "" then makeDirectories above
    else if parentReached then makeDirectory (pathBack (name :: above))
    else
      tolerant (makeDirectories above)
      if name = "." then return ()
      else makeDirectory (pathBack (name :: above))

/-- Writes a text to a file in directories that are made where they are missing. -/
def save (path text : String) : Attempt FileError Workspace Unit := do
  makeDirectories (path.splitOn "/").reverse.tail
  write path text

/-- The files in the directory that the program works in that were made or changed since `old`, with
    their texts. -/
def changes (old new : Workspace) : List (String × String) :=
  new.entries.filterMap fun (location, entry) =>
    match location.base, entry with
    | .above 0, .file content =>
      if old.entries.lookup location = some entry then none
      else
        match Text.Utf8.decode content with
        | .ok cs => some ("/".intercalate location.names, String.ofList cs)
        | .error _ => none
    | _, _ => none

end Workspace

end Castellano.Command

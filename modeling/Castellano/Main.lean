import Castellano.Command.Run

/-!
# The command line

The program on real files and on the terminal. Everything it says is worded elsewhere; here it is
only read and printed.
-/

namespace Castellano.Command

/-- The wording of an error of the file system. -/
def describeError (path : String) (e : IO.Error) : String :=
  let fault : Option FileFault :=
    match e with
    | .noFileOrDirectory .. => some .missing
    | .alreadyExists .. => some .alreadyExists
    | .inappropriateType _ code _ => some (if code = 20 then .notDirectory else .isDirectory)
    | _ => none
  match fault with
  | some fault => (FileError.refused fault path).message
  | none => toString e

/-- Carries out a step; the answer is whether to go on. -/
def carryOut : Step → IO Bool
  | .say line => do
    IO.println line
    return true
  | .dump path json => do
    try
      IO.FS.writeFile path (json.getD "")
      if json.isSome then IO.println (dumpSuccess path)
      return json.isSome
    catch e =>
      IO.println (dumpFailure path (describeError path e))
      return true
  | .draw path dot => do
    try
      let directory := "/".intercalate (path.splitOn "/").dropLast
      if directory ≠ "" then IO.FS.createDirAll directory
      IO.FS.writeFile path dot
      IO.println (drawFailure path drawerMissing)
    catch e => IO.println (drawFailure path (describeError path e))
    return true
  | .giveUp => return false

/-- Carries out steps up to the first that gives up. -/
def carryOutAll : List Step → IO UInt32
  | [] => return 0
  | step :: steps => do if ← carryOut step then carryOutAll steps else return 1

/-- Works on a source file. -/
def workOnFile (limits : Limits) (settings : Settings) : IO UInt32 := do
  let content ← (IO.FS.readBinFile settings.file).toBaseIO
  match content with
  | .error e =>
    IO.println (readFailure settings.file (describeError settings.file e))
    return 1
  | .ok bytes =>
    match decodeSource bytes.toList with
    | .error fault =>
      IO.eprintln fault.message
      return 1
    | .ok source => carryOutAll (plan limits settings source)

/-- Holds a dialogue on the terminal. -/
partial def converse (limits : Limits) (settings : Settings) (buffer : List String) :
    IO UInt32 := do
  IO.print Dialogue.prompt
  (← IO.getStdout).flush
  let line ← (← IO.getStdin).getLine
  if line.isEmpty then
    IO.println ""
    return 0
  let text := (Text.linesBy (· = '\n') (Text.unifyNewlines line.toList)).headD []
  match Dialogue.turn limits settings.showErrors buffer (String.ofList text) with
  | none => return 0
  | some (buffer, printed) =>
    printed.forM IO.println
    converse limits settings buffer

end Castellano.Command

open Castellano Castellano.Command in
/-- Does what the arguments ask for. -/
def main (arguments : List String) : IO UInt32 := do
  match Settings.read arguments with
  | .error fault =>
    IO.eprint fault.report
    return 2
  | .ok .help =>
    IO.print help
    return 0
  | .ok (.run settings) =>
    if settings.file = "" then converse {} settings [] else workOnFile {} settings

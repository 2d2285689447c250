import Castellano.Command.Plan
import Castellano.Command.Workspace
import Castellano.Dialogue
import Castellano.Text.Blank

/-!
# The program as a whole

What the program prints, writes and answers, given its arguments, the files at hand and the text on
its standard input.

* `Ending` — how the program ends.
* `perform` — the effect of one step.
* `run` — the whole program.
-/

namespace Castellano.Command

/-- How the program ends. -/
inductive Ending where
  | exit (code : Nat)
  /-- The source file is not UTF-8. -/
  | undecodable (fault : Text.Utf8.Fault)
  /-- A tree to be shown nests too deeply. -/
  | tooDeep
  /-- What was given as a path is none. -/
  | notPath
deriving DecidableEq, Repr

/-- What the program leaves behind. -/
structure Outcome where
  ending : Ending
  output : String := ""
  errors : String := ""
  files : Workspace
deriving Repr

/-- The line for a source file that cannot be read. -/
def readFailure (path reason : String) : String := s!"Failed to read file {path}: {reason}"

/-- The line for a JSON file that cannot be written. -/
def dumpFailure (path reason : String) : String :=
  s!"Failed to write AST JSON to {path}: {reason}"

/-- The line for a JSON file that was written. -/
def dumpSuccess (path : String) : String := s!"Wrote AST JSON to {path}"

/-- The text of a source file: strict UTF-8, with every line break read as a newline. -/
def decodeSource (content : List UInt8) : Except Text.Utf8.Fault String :=
  (Text.Utf8.decode content).map fun cs => String.ofList (Text.unifyNewlines cs)

/-- The effect of a step: the line it prints and the files behind it, or how the program ends there
    and the files it leaves. A JSON file is opened before the tree is found to nest too deeply, so
    that an empty file stays. -/
def perform (files : Workspace) : Step → Except (Ending × Workspace) (String × Workspace)
  | .say line => .ok (line, files)
  | .dump path json =>
    match (Workspace.write path (json.getD "")).run files with
    | .error .notPath files => .error (.notPath, files)
    | .error e files => .ok (dumpFailure path e.message, files)
    | .ok () files =>
      if json.isSome then .ok (dumpSuccess path, files) else .error (.tooDeep, files)
  | .draw path dot =>
    match (Workspace.save path dot).run files with
    | .error e files => .ok (drawFailure path e.message, files)
    | .ok () files => .ok (drawFailure path drawerMissing, files)
  | .giveUp => .error (.tooDeep, files)

/-- The effect of steps in order; `output` is what was printed before. -/
def performAll (files : Workspace) (output : String) : List Step → Outcome
  | [] => { ending := .exit 0, output, files }
  | step :: steps =>
    match perform files step with
    | .ok (line, files) => performAll files (output ++ line ++ "\n") steps
    | .error (ending, files) => { ending, output, files }

/-- What is done with a source file. -/
def runFile (limits : Limits) (settings : Settings) (files : Workspace) : Outcome :=
  match files.read settings.file with
  | .error .notPath => { ending := .notPath, files }
  | .error e =>
    { ending := .exit 1, output := readFailure settings.file e.message ++ "\n", files }
  | .ok content =>
    match decodeSource content with
    | .error fault => { ending := .undecodable fault, files }
    | .ok source => performAll files "" (plan limits settings source)

/-- What a dialogue prints when the lines come from a text. -/
def runDialogue (limits : Limits) (settings : Settings) (input : String) : String :=
  let lines := Text.linesBy (· = '\n') (Text.unifyNewlines input.toList)
  String.join ((Dialogue.transcript limits settings.showErrors [] (lines.map String.ofList)).map
    (Dialogue.prompt ++ ·))

/-- The whole program. Without a source file it holds a dialogue. -/
def run (limits : Limits) (arguments : List String) (files : Workspace) (input : String) :
    Outcome :=
  match Settings.read arguments with
  | .error fault => { ending := .exit 2, errors := fault.report, files }
  | .ok .help => { ending := .exit 0, output := help, files }
  | .ok (.run settings) =>
    if settings.file = "" then
      { ending := .exit 0, output := runDialogue limits settings input, files }
    else runFile limits settings files

end Castellano.Command

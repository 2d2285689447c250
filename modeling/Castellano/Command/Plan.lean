import Castellano.Command.Settings
import Castellano.Evaluation.Run
import Castellano.Node.Graph
import Castellano.Node.Json
import Castellano.Node.Outline
import Castellano.Text.Lowercase

/-!
# What is done with a source file

The steps that a source and the settings ask for, in order: the tokens and the tree are printed, the
tree is written as JSON and as a graph, the program is run, its diagnostics and its value are
printed. Each of the first four only if it is wanted.

* `Step` — the steps.
* `plan` — the steps for a source.
-/

namespace Castellano.Command

/-- A step of the program. -/
inductive Step where
  /-- Prints a line. -/
  | say (line : String)
  /-- Writes the JSON of the tree to a file; there is none if the tree nests too deeply. -/
  | dump (path : String) (json : Option String)
  /-- Writes the graph of the tree to a file. -/
  | draw (path : String) (dot : String)
  /-- Gives up, because the tree nests too deeply. -/
  | giveUp
deriving DecidableEq, Repr

/-- The number in a column of three characters. -/
def column (n : Nat) : String :=
  let digits := toString n
  String.ofList (List.replicate (3 - digits.length) ' ') ++ digits

/-- How many tokens are listed. -/
def tokenLines : Nat := 50

/-- The listing of the tokens of a source. -/
def listTokens (source : String) : List Step :=
  let tokens := tokenize source
  let lines := (tokens.take tokenLines).zipIdx.map fun (t, i) => s!"  {column i}: {t.describe}"
  let more :=
    if tokenLines < tokens.length then [s!"  ... and {tokens.length - tokenLines} more"] else []
  (s!"Tokens ({tokens.length}):" :: lines ++ more).map .say

/-- The steps that print the outline of a tree. -/
def listTree (limits : Limits) (tree : Node) : List Step :=
  .say "AST:" :: match tree.outline? limits.depth 0 "" with
    | some text => [.say text]
    | none => [.giveUp]

/-- The formats that a graph can be drawn in. -/
def formats : List String :=
  ["bmp", "canon", "cgimage", "cmap", "cmapx", "cmapx_np", "dot", "dot_json", "eps", "exr", "fig",
   "gd", "gd2", "gif", "gtk", "gv", "ico", "imap", "imap_np", "ismap", "jp2", "jpe", "jpeg", "jpg",
   "json", "json0", "pct", "pdf", "pic", "pict", "plain", "plain-ext", "png", "pov", "ps", "ps2",
   "psd", "sgi", "svg", "svg_inline", "svgz", "tga", "tif", "tiff", "tk", "vml", "vmlz", "vrml",
   "wbmp", "webp", "x11", "xdot", "xdot1.2", "xdot1.4", "xdot_json", "xlib"]

/-- The line for a graph that could not be drawn. -/
def drawFailure (path reason : String) : String :=
  s!"Failed to render AST visualization to {path}: {reason}"

/-- Why a format cannot be used. -/
def unknownFormat (format : String) : String :=
  let known := ", ".intercalate (formats.map Text.quoted)
  s!"unknown format: {Text.quoted format} (must be one of [{known}])"

/-- Why a graph that was written is not drawn: drawing is the work of another program. -/
def drawerMissing : String :=
  "failed to execute PosixPath('dot'), make sure the Graphviz executables are on your systems' PATH"

/-- Why nothing is drawn without a format. -/
def formatMissing : String := "'list' object has no attribute 'lower'"

/-- The step that writes the graph of a tree, unless its format is missing or not known. A format is
    taken, and shown, in small letters. -/
def drawTree (tree : Node) (path : String) (format : Option String) : Step :=
  match format.map Text.lowercase with
  | none => .say (drawFailure path formatMissing)
  | some format =>
    if formats.contains format then .draw path tree.dot
    else .say (drawFailure path (unknownFormat format))

/-- The steps for a source. -/
def plan (limits : Limits) (settings : Settings) (source : String) : List Step :=
  let tree := (parseSource limits source).1.toNode
  (if settings.printTokens then listTokens source else []) ++
  (if settings.printTree then listTree limits tree else []) ++
  (if settings.dumpTree = "" then []
    else [.dump settings.dumpTree ((tree.toJson? limits.depth).map Json.indented)]) ++
  (if settings.drawTree = "" then []
    else [drawTree tree settings.drawTree settings.drawFormat]) ++
  ((runSource limits source).report settings.showErrors).map .say

end Castellano.Command

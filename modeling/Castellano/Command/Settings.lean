import Castellano.Text.Digit
import Castellano.Text.Quoted

/-!
# Command line options

What the arguments of the program say. An option may be given by a unique beginning of its long
name, its value in the next argument or behind `=`; short options may be joined, and a value may
stand right behind a short option. Arguments are sorted into options and other words first, then
taken in order.

* `Switch` — the options; `Switch.spellings` their names.
* `UsageFault` — what can be wrong with the arguments.
* `Argument.sort` — the sorting of one argument.
* `Settings.read` — the settings that a list of arguments asks for.
-/

namespace Castellano.Command

/-- The options of the program. -/
inductive Switch where
  | help
  | file
  | interactive
  | printTokens
  | printTree
  | showErrors
  | dumpTree
  | drawTree
  | drawFormat
deriving DecidableEq, Repr

namespace Switch

/-- The names of the options, in the order in which they are searched. -/
def spellings : List (String × Switch) :=
  [("-h", help), ("--help", help), ("--file", file), ("-f", file), ("--interactive", interactive),
   ("-i", interactive), ("--print-tokens", printTokens), ("--print-ast", printTree),
   ("--show-errors", showErrors), ("--dump-ast", dumpTree), ("--viz-ast", drawTree),
   ("--viz-format", drawFormat)]

/-- The option with exactly this name. -/
def named? (name : String) : Option Switch := spellings.lookup name

/-- The option needs a value. -/
def takesValue : Switch → Bool
  | file | dumpTree | drawTree | drawFormat => true
  | _ => false

/-- All names of an option, as messages show them. -/
def label (s : Switch) : String :=
  "/".intercalate ((spellings.filter fun (_, t) => t = s).map Prod.fst)

/-- The option that cannot be given together with this one. -/
def rival : Switch → Option Switch
  | file => some interactive
  | interactive => some file
  | _ => none

end Switch

/-- What can be wrong with the arguments. -/
inductive UsageFault where
  | ambiguous (argument : String) (candidates : List String)
  | missingValue (s : Switch)
  | ignoredValue (s : Switch) (value : String)
  | conflict (later earlier : Switch)
  | unrecognized (arguments : List String)
deriving DecidableEq, Repr

/-- The wording of a fault. -/
def UsageFault.message : UsageFault → String
  | ambiguous argument candidates =>
    s!"ambiguous option: {argument} could match " ++ ", ".intercalate candidates
  | missingValue s => s!"argument {s.label}: expected one argument"
  | ignoredValue s value => s!"argument {s.label}: ignored explicit argument {Text.quoted value}"
  | conflict later earlier => s!"argument {later.label}: not allowed with argument {earlier.label}"
  | unrecognized arguments => "unrecognized arguments: " ++ " ".intercalate arguments

/-! ## Sorting arguments -/

/-- An argument, sorted. -/
inductive Argument where
  /-- A word that is no option; it may be the value of the option before it. -/
  | word (text : String)
  /-- An option, whether its name is short, and the value attached to it. -/
  | option (s : Switch) (short : Bool) (value : Option (List Char))
  /-- What looks like an option and is none. -/
  | unknown (text : String)
deriving DecidableEq, Repr

namespace Argument

/-- The text in front of the first equals sign, and the text behind it if there is one. -/
def splitEquals (cs : List Char) : List Char × Option (List Char) :=
  (cs.takeWhile (· ≠ '='), (cs.dropWhile (· ≠ '=')).tail?)

/-- The text is a negative number: a minus and digits, or a minus, possibly digits, a point and
    digits. A line break at the end does not count. -/
def isNegativeNumber (cs : List Char) : Bool :=
  let cs := if cs.getLast? = some '\n' then cs.dropLast else cs
  match cs with
  | '-' :: cs =>
    let whole := cs.takeWhile Text.isDecimalDigit
    match cs.dropWhile Text.isDecimalDigit with
    | [] => !whole.isEmpty
    | '.' :: fraction => !fraction.isEmpty && fraction.all Text.isDecimalDigit
    | _ => false
  | _ => false

/-- The options that the argument can mean, each with its name. Behind two dashes the part before
    an equals sign is the beginning of a name; behind one dash stands a short name with its value
    attached, or the beginning of a name. -/
def candidates (cs : List Char) : List (String × Argument) :=
  match cs with
  | '-' :: '-' :: _ =>
    let (start, value) := splitEquals cs
    Switch.spellings.filterMap fun (name, s) =>
      if start.isPrefixOf name.toList then
        some (name, .option s false value)
      else none
  | dash :: letter :: rest =>
    Switch.spellings.filterMap fun (name, s) =>
      if name.toList = [dash, letter] then some (name, .option s true (some rest))
      else if cs.isPrefixOf name.toList then some (name, .option s false none)
      else none
  | _ => []

/-- Whether the name of an option is short: one dash and a letter. -/
def isShort (name : List Char) : Bool := name[1]? ≠ some '-'

/-- The option whose whole name stands in front of an equals sign. -/
def exactWithValue? (cs : List Char) : Option Argument :=
  match splitEquals cs with
  | (name, some value) => (Switch.named? (String.ofList name)).map fun s =>
      .option s (isShort name) (some value)
  | (_, none) => none

/-- Sorts an argument that starts with a dash and has more than that. -/
def sortDashed (argument : String) : Except UsageFault Argument :=
  let cs := argument.toList
  match exactWithValue? cs with
  | some sorted => .ok sorted
  | none =>
    match candidates cs with
    | [(_, sorted)] => .ok sorted
    | [] =>
      if isNegativeNumber cs || cs.contains ' ' then .ok (.word argument)
      else .ok (.unknown argument)
    | several => .error (.ambiguous argument (several.map Prod.fst))

/-- Sorts an argument. -/
def sort (argument : String) : Except UsageFault Argument :=
  match argument.toList with
  | '-' :: rest =>
    match Switch.named? argument with
    | some s => .ok (.option s (isShort ('-' :: rest)) none)
    | none => if rest = [] then .ok (.word argument) else sortDashed argument
  | _ => .ok (.word argument)

end Argument

/-- Everything from this argument on is no option. -/
def separator : String := "--"

/-- Sorts the arguments before the separator, and returns the others as they are. -/
def sortAll : List String → Except UsageFault (List Argument × List String)
  | [] => .ok ([], [])
  | argument :: arguments =>
    if argument = separator then .ok ([], argument :: arguments)
    else do
      let sorted ← Argument.sort argument
      let (others, rest) ← sortAll arguments
      return (sorted :: others, rest)

/-! ## Taking options -/

/-- What the program is asked to do. -/
structure Settings where
  file : String := ""
  printTokens : Bool := false
  printTree : Bool := false
  showErrors : Bool := false
  dumpTree : String := ""
  drawTree : String := ""
  /-- No format if the option stood without a value. -/
  drawFormat : Option String := some "svg"
deriving DecidableEq, Repr

/-- An option with its value, if it has one. -/
structure Taken where
  switch : Switch
  value : Option String := none
deriving DecidableEq, Repr

/-- What one argument holds: options, and whether the next word was used as a value. -/
structure Unjoined where
  taken : List Taken
  usesNext : Bool := false
deriving DecidableEq, Repr

/-- An option with a value attached to it. The separator is dropped even there, so that the option
    stands without a value. -/
def withValue (s : Switch) (text : List Char) : Unjoined :=
  let value := String.ofList text
  { taken := [⟨s, if value = separator then none else some value⟩] }

/-- An option without a value attached to it; `next` is the argument behind, if it is a word. -/
def standing (next : Option String) (s : Switch) : Except UsageFault Unjoined :=
  match s.takesValue, next with
  | false, _ => .ok { taken := [⟨s, none⟩] }
  | true, some value => .ok { taken := [⟨s, some value⟩], usesNext := true }
  | true, none => .error (.missingValue s)

/-- Takes apart the text behind the name of a short option. It is the value of an option that takes
    one; otherwise it has to start with the letter of the next short option. -/
def joined (next : Option String) (s : Switch) : List Char → Except UsageFault Unjoined
  | [] => standing next s
  | letter :: rest =>
    if s.takesValue then .ok (withValue s (letter :: rest))
    else
      match Switch.named? (String.ofList ['-', letter]) with
      | none => .error (.ignoredValue s (String.ofList (letter :: rest)))
      | some t => do
        let others ← joined next t rest
        return { others with taken := ⟨s, none⟩ :: others.taken }

/-- Takes apart the argument of the option `s`, to which `value` may be attached. Only behind a
    short name can the attached text hold more options; an equals sign in between does not
    matter. -/
def unjoin (next : Option String) (s : Switch) (short : Bool) :
    (value : Option (List Char)) → Except UsageFault Unjoined
  | none => standing next s
  | some text =>
    if s.takesValue then .ok (withValue s text)
    else if short && !text.isEmpty then joined next s text
    else .error (.ignoredValue s (String.ofList text))

/-- What taking an option leads to: help ends everything. -/
inductive Request where
  | help
  | run (settings : Settings)
deriving DecidableEq, Repr

/-- The settings with one more option. -/
def Settings.set (settings : Settings) (taken : Taken) : Settings :=
  match taken.switch with
  | .file => { settings with file := taken.value.getD "" }
  | .printTokens => { settings with printTokens := true }
  | .printTree => { settings with printTree := true }
  | .showErrors => { settings with showErrors := true }
  | .dumpTree => { settings with dumpTree := taken.value.getD "" }
  | .drawTree => { settings with drawTree := taken.value.getD "" }
  | .drawFormat => { settings with drawFormat := taken.value }
  | .help | .interactive => settings

/-- What was taken so far: the settings, the options in order, and what was no option. -/
structure Reading where
  settings : Settings := {}
  seen : List Switch := []
  unrecognized : List String := []
deriving DecidableEq, Repr

/-- Takes options in order. Help ends the reading, `none`; a rival of an earlier option is a
    fault. -/
def Reading.take (reading : Reading) : List Taken → Except UsageFault (Option Reading)
  | [] => .ok (some reading)
  | taken :: more =>
    match taken.switch.rival with
    | some rival =>
      if reading.seen.contains rival then .error (.conflict taken.switch rival)
      else
        take { reading with
          settings := reading.settings.set taken, seen := taken.switch :: reading.seen } more
    | none =>
      if taken.switch = .help then .ok none
      else take { reading with settings := reading.settings.set taken } more

/-- Takes the sorted arguments in order. -/
def Reading.takeAll (reading : Reading) : List Argument → Except UsageFault (Option Reading)
  | [] => .ok (some reading)
  | .word text :: arguments | .unknown text :: arguments =>
    takeAll { reading with unrecognized := reading.unrecognized ++ [text] } arguments
  | .option s short value :: arguments => do
    let next := match arguments with
      | .word text :: _ => some text
      | _ => none
    let unjoined ← unjoin next s short value
    match ← reading.take unjoined.taken with
    | none => return none
    | some reading =>
      match unjoined.usesNext, arguments with
      | true, _ :: arguments => takeAll reading arguments
      | _, arguments => takeAll reading arguments

/-- What a list of arguments asks for. Arguments that were not recognized are a fault only when all
    others could be taken. -/
def Settings.read (arguments : List String) : Except UsageFault Request := do
  let (sorted, rest) ← sortAll arguments
  match ← Reading.takeAll {} sorted with
  | none => return .help
  | some reading =>
    match reading.unrecognized ++ rest with
    | [] => return .run reading.settings
    | unrecognized => throw (.unrecognized unrecognized)

/-! ## Texts -/

/-- How the program is called. -/
def usage : String :=
  "usage: palabra [-h] [--file FILE | --interactive] [--print-tokens]\n" ++
  "               [--print-ast] [--show-errors] [--dump-ast DUMP_AST]\n" ++
  "               [--viz-ast VIZ_AST] [--viz-format VIZ_FORMAT]\n"

/-- What the options mean. -/
def help : String :=
  usage ++ "\n" ++
  "Evaluate a program from a file or interactively from stdin\n" ++
  "\n" ++
  "options:\n" ++
  "  -h, --help            show this help message and exit\n" ++
  "  --file FILE, -f FILE  Path to source file to evaluate\n" ++
  "  --interactive, -i     Start interactive REPL mode (the default without\n" ++
  "                        --file)\n" ++
  "  --print-tokens        Print tokens\n" ++
  "  --print-ast           Print the AST\n" ++
  "  --show-errors         Print lexical, syntactic and semantic diagnostics\n" ++
  "  --dump-ast DUMP_AST   Path to write the AST as JSON\n" ++
  "  --viz-ast VIZ_AST     Path (without extension) to write Graphviz\n" ++
  "                        visualization of the AST\n" ++
  "  --viz-format VIZ_FORMAT\n" ++
  "                        Format for Graphviz output (svg, png, pdf, etc)\n"

/-- What is printed for a fault: the usage, and the fault under the name of the program. -/
def UsageFault.report (fault : UsageFault) : String :=
  usage ++ "palabra: error: " ++ fault.message ++ "\n"

end Castellano.Command

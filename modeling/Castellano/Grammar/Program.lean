import Castellano.Grammar.Rules
import Castellano.Limits
import Castellano.Token.Window

/-!
# Parsing programs

A program is parsed form by form up to the end of the input or the first failure, which becomes the
program's only diagnostic; the forms before it are kept.

* `Grammar.program`, `parseSource` — the program of a row of tokens and of a source text.
* `Parser.Call`, `Parser.perform` — every rule as data, for any sequence of them.
-/

namespace Castellano

namespace Grammar

variable {σ : Type} [TokenView σ]

/-- The forms up to the end of the input or the first failure, the diagnostic of that failure, and
    where it stopped. Nesting that is too deep is reported at the first token of its form. -/
def forms (sub : Nested σ) (s : σ) : List Node × Option Diagnostic × σ :=
  let start := TokenView.skipPoints s
  if (TokenView.current start).kind = .endOfInput then ([], none, start)
  else
    match (form sub).run start with
    | .error (.error e) s' => ([], some e.diagnostic, s')
    | .error .tooDeep s' =>
      ([], some ⟨.grammar .nestedTooDeeply, (TokenView.current start).position⟩, s')
    | .ok f s' =>
      if TokenView.remaining s' < TokenView.remaining s then
        let (fs, diagnostic, s'') := forms sub s'
        (f :: fs, diagnostic, s'')
      else ([f], none, s')
termination_by TokenView.remaining s

/-- The program in front, the diagnostic of its first failure, and where parsing stopped. The
    program stands at its first token, even if that is a point. -/
def program (limit : Nat) (s : σ) : Program × Option Diagnostic × σ :=
  let (fs, diagnostic, s') := forms (nested limit) s
  (⟨fs, (TokenView.current s).position⟩, diagnostic, s')

end Grammar

/-- The program of a source text, and its diagnostics: at most one. -/
def parseSource (limits : Limits) (source : String) : Program × List Diagnostic :=
  let (program, diagnostic, _) := Grammar.program limits.depth (Window.ofSource source)
  (program, diagnostic.toList)

/-! ## Rules as data -/

/-- A source text that is being parsed: the window on it, and the diagnostics so far. -/
structure Parser where
  window : Window
  diagnostics : List Diagnostic := []
deriving Inhabited

namespace Parser

/-- The parser of a source text. -/
def ofSource (source : String) : Parser := { window := .ofSource source }

/-- The steps that a parser can make. -/
inductive Call where
  | advance
  | skipPoints
  | accept (kind : TokenKind)
  | expect (kind : TokenKind) (message : String)
  | program
  | form
  | block
  | primary
  | assignment
  | conditional
  | loop
  | function
  | expression (level : Precedence)
  /-- An operator and its right operand, behind the given left operand. -/
  | binary (left : Node)
  /-- The arguments of a call, behind the given callee. -/
  | call (callee : Node)

/-- What a step answers. -/
inductive Reply where
  | nothing
  | token (t : Token)
  | truth (b : Bool)
  | node (n : Node)

/-- A step on the window alone. -/
def lift {α : Type} (p : Parser) (step : Parse Window α) (reply : α → Reply) :
    Except Failure Reply × Parser :=
  match step.run p.window with
  | .ok a w => (.ok (reply a), { p with window := w })
  | .error e w => (.error e, { p with window := w })

/-- Makes one step. Only a whole program records diagnostics; the other rules fail. -/
def perform (limits : Limits) (p : Parser) (call : Call) : Except Failure Reply × Parser :=
  let sub : Grammar.Nested Window := Grammar.nested limits.depth
  match call with
  | .advance => p.lift (do Parse.advance; Parse.current) .token
  | .skipPoints => p.lift Parse.skipPoints fun _ => .nothing
  | .accept kind => p.lift (Parse.accept kind) .truth
  | .expect kind message => p.lift (Parse.expectWorded kind message) .token
  | .program =>
    let (program, diagnostic, w) := Grammar.program limits.depth p.window
    (.ok (.node program.toNode), ⟨w, p.diagnostics ++ diagnostic.toList⟩)
  | .form => p.lift (Grammar.form sub) .node
  | .block => p.lift (Grammar.block sub) fun b => .node (.block b)
  | .primary => p.lift (Grammar.primary sub) .node
  | .assignment => p.lift (Grammar.assignment sub) .node
  | .conditional => p.lift (Grammar.conditional sub) .node
  | .loop => p.lift (Grammar.loop sub) .node
  | .function => p.lift (Grammar.function sub) .node
  | .expression level => p.lift (sub.expression level) .node
  | .binary left => p.lift (Grammar.binary sub left) .node
  | .call callee => p.lift (Grammar.call sub callee) .node

end Parser

end Castellano

/-!
# Positions

A position is a line, counted from one, and a column, counted from zero in code points. Trees and
diagnostics that are not made from a source may carry any two integers.
-/

namespace Castellano

/-- A place in a source text. -/
structure Position where
  line : Int := 0
  column : Int := 0
deriving DecidableEq, Repr, Inhabited

namespace Position

/-- Where every source starts. -/
def start : Position := ⟨1, 0⟩

/-- The position behind the character `c`, when `c` stands at `p`: a newline starts the next line,
    any other character moves one column on. -/
def after (p : Position) (c : Char) : Position :=
  if c = '\n' then ⟨p.line + 1, 0⟩ else ⟨p.line, p.column + 1⟩

/-- The position behind the text `cs`, when it starts at `p`. -/
def afterAll (p : Position) (cs : List Char) : Position := cs.foldl after p

end Position

end Castellano

import Castellano.Node.Basic

/-!
# Values and environments

What an expression evaluates to, and the scope it is evaluated in. An expression may also have no
value; names can be bound to that too, so a binding holds an `Option Value`.

* `Value` — integers, truth values and functions.
* `render` — the text of a result, empty for no value.
* `Environment` — bindings in the order in which their names were first bound.
-/

namespace Castellano

/-- The kinds of values. -/
inductive ValueKind where
  | integer
  | boolean
  | function
deriving DecidableEq, Repr, Inhabited

/-- The name of a kind of values in messages. -/
def ValueKind.label : ValueKind → String
  | integer => "integer"
  | boolean => "boolean"
  | function => "function"

/-- A value. A function is the literal that made it; it holds no scope of its own. -/
inductive Value where
  | integer (n : Int)
  | boolean (b : Bool)
  | function (position : Position) (parameters : List Parameter) (body : Block Node)
deriving Inhabited

namespace Value

/-- The kind of a value. -/
def kind : Value → ValueKind
  | integer _ => .integer
  | boolean _ => .boolean
  | function .. => .function

/-- The number that a value holds: a truth value counts as one or as zero, a function holds none. -/
def content? : Value → Option Int
  | integer n => some n
  | boolean b => some (if b then 1 else 0)
  | function .. => none

/-- The text of a value. -/
def toText : Value → String
  | integer n => toString n
  | boolean true => "verdadero"
  | boolean false => "falso"
  | function .. => "Objeto de tipo función"

end Value

/-- The text of a result: nothing is shown for no value. -/
def render (result : Option Value) : String := (result.map Value.toText).getD ""

/-- The text of a result in a listing, where no value is shown too. -/
def renderListed (result : Option Value) : String := (result.map Value.toText).getD "None"

/-- A flat scope: its bindings, in the order in which the names were first bound. -/
structure Environment where
  bindings : List (String × Option Value) := []
deriving Inhabited

namespace Environment

/-- The scope without bindings. -/
def empty : Environment := {}

/-- What a name is bound to: `none` if it is not bound, `some none` if it is bound to no value. -/
def find? (env : Environment) (name : String) : Option (Option Value) := env.bindings.lookup name

/-- The name is bound. -/
def contains (env : Environment) (name : String) : Bool := (env.find? name).isSome

/-- The value of a name; none if it is not bound or bound to no value. -/
def get (env : Environment) (name : String) : Option Value := (env.find? name).join

/-- The bindings with the name bound anew: a name that is bound keeps its place, another comes
    last. -/
def insertInto (name : String) (value : Option Value) :
    List (String × Option Value) → List (String × Option Value)
  | [] => [(name, value)]
  | (n, v) :: rest =>
    if n = name then (name, value) :: rest else (n, v) :: insertInto name value rest

/-- Binds a name. -/
def set (env : Environment) (name : String) (value : Option Value) : Environment :=
  ⟨insertInto name value env.bindings⟩

theorem lookup_cons_eq_ite (name other : String) (value : Option Value)
    (bindings : List (String × Option Value)) :
    ((name, value) :: bindings).lookup other =
      if other = name then some value else bindings.lookup other := by
  by_cases h : other = name
  · simp [h]
  · have : (other == name) = false := by simpa using h
    simp [List.lookup_cons, this, h]

theorem lookup_insertInto (name other : String) (value : Option Value)
    (bindings : List (String × Option Value)) :
    (insertInto name value bindings).lookup other =
      if other = name then some value else bindings.lookup other := by
  induction bindings with
  | nil => exact lookup_cons_eq_ite name other value []
  | cons b rest ih =>
    obtain ⟨n, v⟩ := b
    unfold insertInto
    by_cases hn : n = name
    · simp only [hn, ite_true, lookup_cons_eq_ite]
      split <;> rfl
    · simp only [hn, ite_false, lookup_cons_eq_ite, ih]
      by_cases ho : other = n
      · simp [ho, hn]
      · simp [ho]

/-- A name that was bound has its new value, every other name its old one. -/
@[simp]
theorem find?_set (env : Environment) (name other : String) (value : Option Value) :
    (env.set name value).find? other = if other = name then some value else env.find? other :=
  lookup_insertInto name other value env.bindings

@[simp]
theorem find?_empty (name : String) : empty.find? name = none := rfl

/-- Binds the names in turn. -/
def ofList (bindings : List (String × Option Value)) : Environment :=
  bindings.foldl (fun env (name, value) => env.set name value) empty

/-- The bindings sorted by name. -/
def sorted (env : Environment) : List (String × Option Value) :=
  env.bindings.mergeSort fun a b => a.1 ≤ b.1

end Environment

end Castellano

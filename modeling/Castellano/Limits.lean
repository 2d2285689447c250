/-!
# Limits

Trees can nest arbitrarily deep and loops can run forever. Everything that follows a tree down, and
every loop, therefore works under a limit, and says so when the limit is too small.
-/

namespace Castellano

/-- How far parsing, showing and running may go. -/
structure Limits where
  /-- How many constructs may stand inside each other. -/
  depth : Nat := 395
  /-- How many rounds a loop may make. -/
  rounds : Nat := 1000000000000000
deriving DecidableEq, Repr, Inhabited

end Castellano

import Castellano.Evaluation.Run
import Castellano.Text.Blank

/-!
# Dialogue

Programs entered line by line. Every line joins a buffer, and the whole buffer is run again in a
scope of its own.

* `Dialogue.turn` — what one line does.
* `Dialogue.transcript` — what is printed after each line read, up to the end of the dialogue.
-/

namespace Castellano.Dialogue

/-- What is shown before a line is read. -/
def prompt : String := ">>> "

/-- The line that ends the dialogue. -/
def exitCommand : String := "salir"

/-- The buffer after a line, and the lines printed for it; nothing if the line ends the dialogue. A
    blank line is left out of the buffer. -/
def turn (limits : Limits) (showErrors : Bool) (buffer : List String) (line : String) :
    Option (List String × List String) :=
  let command := Text.trim line
  if command = exitCommand then none
  else if command = "" then some (buffer, [])
  else
    let buffer := buffer ++ [line]
    some (buffer, (runSource limits ("\n".intercalate buffer)).report showErrors)

/-- What is printed after each line that is read. When the lines run out, a line break is. -/
def transcript (limits : Limits) (showErrors : Bool) (buffer : List String) :
    List String → List String
  | [] => ["\n"]
  | line :: lines =>
    match turn limits showErrors buffer line with
    | none => [""]
    | some (buffer, printed) =>
      String.join (printed.map (· ++ "\n")) :: transcript limits showErrors buffer lines

end Castellano.Dialogue

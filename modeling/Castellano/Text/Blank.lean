/-!
# Blank characters and lines

* `isBlank` — the white space of Unicode, with the four information separators.
* `trim` — a text without the blanks at both ends.
* `unifyNewlines` — carriage returns, alone or before a newline, read as newlines.
* `linesBy`, `lines` — the lines of a text, without what ends them.
-/

namespace Castellano.Text

/-- The inclusive ranges of the blank code points. -/
def blankRanges : List (Nat × Nat) :=
  [(0x9, 0xd), (0x1c, 0x20), (0x85, 0x85), (0xa0, 0xa0), (0x1680, 0x1680), (0x2000, 0x200a),
   (0x2028, 0x2029), (0x202f, 0x202f), (0x205f, 0x205f), (0x3000, 0x3000)]

/-- The character is white space or an information separator. -/
def isBlank (c : Char) : Bool :=
  blankRanges.any fun (first, last) => first ≤ c.toNat && c.toNat ≤ last

/-- The text without the blanks at its start and at its end. -/
def trim (text : String) : String :=
  String.ofList ((text.toList.dropWhile isBlank).reverse.dropWhile isBlank).reverse

/-- Every line break written as carriage return, alone or followed by a newline, becomes one
    newline. -/
def unifyNewlines : List Char → List Char
  | [] => []
  | '\r' :: '\n' :: cs => '\n' :: unifyNewlines cs
  | '\r' :: cs => '\n' :: unifyNewlines cs
  | c :: cs => c :: unifyNewlines cs

/-- The character ends a line: newline, vertical tab, form feed, carriage return, the file, group
    and record separators, next line, or one of the two Unicode separators. -/
def isLineBreak (c : Char) : Bool :=
  [0xa, 0xb, 0xc, 0xd, 0x1c, 0x1d, 0x1e, 0x85, 0x2028, 0x2029].contains c.toNat

/-- The lines of a text, each without the break that ends it; the last line need not have one. -/
def linesBy (isBreak : Char → Bool) : List Char → List (List Char)
  | [] => []
  | c :: cs =>
    if isBreak c then [] :: linesBy isBreak cs
    else
      match linesBy isBreak cs with
      | [] => [[c]]
      | line :: rest => (c :: line) :: rest

/-- The lines of a text under all line breaks; a carriage return before a newline counts with it
    as one. -/
def lines (text : List Char) : List (List Char) := linesBy isLineBreak (unifyNewlines text)

end Castellano.Text

import Castellano.Text.Printable

/-!
# Quoted text

How a piece of source text is shown inside a message: between quotes, with escapes for what cannot
be shown. Single quotes are used, unless the text has a single quote and no double one.

* `quoteMark` — which quote is used.
* `escape` — how one character is written between quotes.
* `quoted` — the whole text.
-/

namespace Castellano.Text

/-- `n` in lower-case hexadecimal digits, padded with zeros to the given width. -/
def hexPadded (width n : Nat) : List Char :=
  let digits := Nat.toDigits 16 n
  List.replicate (width - digits.length) '0' ++ digits

/-- The quote that surrounds the text. -/
def quoteMark (text : List Char) : Char :=
  if text.contains '\'' && !text.contains '"' then '"' else '\''

/-- How a character is written between the given quotes: the quote and the backslash behind a
    backslash, tab, newline and carriage return by their letters, any other character that is not
    printable by its code point in two, four or eight digits. -/
def escape (mark c : Char) : List Char :=
  if c = mark || c = '\\' then ['\\', c]
  else if c = '\t' then ['\\', 't']
  else if c = '\n' then ['\\', 'n']
  else if c = '\r' then ['\\', 'r']
  else if isPrintable c then [c]
  else if c.toNat < 0x100 then '\\' :: 'x' :: hexPadded 2 c.toNat
  else if c.toNat < 0x10000 then '\\' :: 'u' :: hexPadded 4 c.toNat
  else '\\' :: 'U' :: hexPadded 8 c.toNat

/-- The text between quotes. -/
def quoted (text : String) : String :=
  let cs := text.toList
  let mark := quoteMark cs
  String.ofList (mark :: cs.flatMap (escape mark) ++ [mark])

end Castellano.Text

import Castellano.Position
import Castellano.Text.Quoted

/-!
# Tokens

The words and signs of the language. A token has a kind, the text it was read from and the position
of its first character; the end of the input is a token with an empty text.

* `TokenKind` — the kinds; `TokenKind.label` is the name a kind has in messages.
* `Token.lexeme` — the text of a token, or the name of its kind if it has no text.
* `isSpacing`, `isLetter`, `isDigit` — the classes of characters that tokens are made of.
* `ofWord`, `ofSign` — the kind of a word and of a single sign.
-/

namespace Castellano

/-- The kinds of tokens. Keywords are named by their own spelling. -/
inductive TokenKind where
  | endOfInput
  | illegal
  | integer
  | identifier
  | assign
  | equals
  | plus
  | minus
  | times
  | divide
  | comma
  | point
  | semicolon
  | openParen
  | closeParen
  | openBrace
  | closeBrace
  | y
  | hacer
  | sino
  | falso
  | para
  | funcion
  | si
  | no
  | o
  | entonces
  | verdadero
  | mientras
deriving DecidableEq, Repr, Inhabited

namespace TokenKind

/-- All kinds, each once. -/
def all : List TokenKind :=
  [endOfInput, illegal, integer, identifier, assign, equals, plus, minus, times, divide, comma,
   point, semicolon, openParen, closeParen, openBrace, closeBrace, y, hacer, sino, falso, para,
   funcion, si, no, o, entonces, verdadero, mientras]

/-- The name of a kind in messages and listings. -/
def label : TokenKind → String
  | endOfInput => "EOF"
  | illegal => "ILLEGAL"
  | integer => "INT"
  | identifier => "IDENT"
  | assign => "ASSIGN"
  | equals => "EQUALS"
  | plus => "PLUS"
  | minus => "MINUS"
  | times => "MULTIPLICATION"
  | divide => "DIVISION"
  | comma => "COMMA"
  | point => "POINT"
  | semicolon => "SEMICOLON"
  | openParen => "LPAREN"
  | closeParen => "RPAREN"
  | openBrace => "LBRACE"
  | closeBrace => "RBRACE"
  | y => "AND"
  | hacer => "DO"
  | sino => "ELSE"
  | falso => "FALSE"
  | para => "FOR"
  | funcion => "FUNCTION"
  | si => "IF"
  | no => "NOT"
  | o => "OR"
  | entonces => "THEN"
  | verdadero => "TRUE"
  | mientras => "WHILE"

/-- The kind with the given name. -/
def ofLabel? (name : String) : Option TokenKind := all.find? fun kind => kind.label == name

/-- The reserved words. -/
def keywords : List (String × TokenKind) :=
  [("verdadero", verdadero), ("falso", falso), ("si", si), ("sino", sino), ("entonces", entonces),
   ("para", para), ("mientras", mientras), ("hacer", hacer), ("y", y), ("o", o), ("no", no),
   ("función", funcion)]

/-- The kind of a word: a keyword's own, and `identifier` for every other word. -/
def ofWord (word : String) : TokenKind := (keywords.lookup word).getD identifier

/-- The kind of a sign that stands alone; a character that is no sign is `illegal`. -/
def ofSign : Char → TokenKind
  | '(' => openParen
  | ')' => closeParen
  | '{' => openBrace
  | '}' => closeBrace
  | '+' => plus
  | '-' => minus
  | '.' => point
  | '*' => times
  | '/' => divide
  | '=' => equals
  | ';' => semicolon
  | _ => illegal

/-- No word is the end of the input. -/
theorem ofWord_ne_endOfInput (word : String) : ofWord word ≠ endOfInput := by
  have hall : ∀ entry ∈ keywords, entry.2 ≠ endOfInput := by decide
  rw [ofWord]
  cases h : keywords.lookup word with
  | none => simp
  | some kind =>
    obtain ⟨before, behind, hsplit, -⟩ := List.lookup_eq_some_iff.1 h
    exact hall (word, kind) (by simp [hsplit])

/-- No sign is the end of the input. -/
theorem ofSign_ne_endOfInput (c : Char) : ofSign c ≠ endOfInput := by
  unfold ofSign
  split <;> simp

end TokenKind

/-- A token: its kind, its text and the position of its first character. -/
structure Token where
  kind : TokenKind
  literal : String
  position : Position := Position.start
deriving DecidableEq, Repr, Inhabited

namespace Token

/-- The text of the token, or the name of its kind if the text is empty. -/
def lexeme (t : Token) : String := if t.literal = "" then t.kind.label else t.literal

/-- The listing of a token: its kind, its quoted text and its position. -/
def describe (t : Token) : String :=
  s!"Token({t.kind.label}, {Text.quoted t.literal}, {t.position.line}:{t.position.column})"

/-- The token at the end of the input. -/
def atEnd (p : Position) : Token := ⟨.endOfInput, "", p⟩

/-! ## Character classes -/

/-- Characters that only separate tokens. -/
def isSpacing (c : Char) : Bool := c = ' ' || c = '\n' || c = '\t'

/-- The decimal digits of ASCII. -/
def isDigit (c : Char) : Bool := '0' ≤ c && c ≤ '9'

/-- The accented letters that words may hold. -/
def accented : List Char := "áéíóúàèìòùâêîôûäëïöüñçÁÉÍÓÚÀÈÌÒÙÂÊÎÔÛÄËÏÖÜÑÇ".toList

/-- The letters of words: ASCII letters, the underscore and the accented letters. -/
def isLetter (c : Char) : Bool :=
  ('a' ≤ c && c ≤ 'z') || ('A' ≤ c && c ≤ 'Z') || c = '_' || accented.contains c

/-- The characters that continue a word. -/
def isWordChar (c : Char) : Bool := isLetter c || isDigit c

end Token

end Castellano

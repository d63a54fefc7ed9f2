import ClassScript.Text.Quoted

/-!
# Tokens

The lexical classes of the language, literal values, and tokens with their place in the source.
-/

namespace ClassScript

/-- A constant written in the source. -/
inductive Literal where
  /-- The value `nil`. -/
  | nil
  /-- A truth value. -/
  | bool (b : Bool)
  /-- A 64-bit integer. -/
  | int (n : Int64)
  /-- A 64-bit floating-point number. -/
  | float (x : Float)
  /-- A text. -/
  | string (s : String)
deriving Inhabited

namespace Token

/-- The lexical class of a token. -/
inductive Kind where
  | eof | illegal
  | identifier | integer | float | string
  | leftParen | rightParen | leftBrace | rightBrace | leftBracket | rightBracket
  | comma | dot | ellipsis | semicolon | colon
  | plus | minus | star | slash | percent
  | bang | bangEqual | equal | equalEqual | greater | greaterEqual | less | lessEqual
  | andWord | classWord | elseWord | falseWord | forWord | funWord | ifWord | inWord | nilWord
  | orWord | returnWord | selfWord | superWord | trueWord | varWord | whileWord
deriving DecidableEq, Inhabited

namespace Kind

/-- Every kind, in numbering order. -/
def all : List Kind :=
  [eof, illegal, identifier, integer, float, string, leftParen, rightParen, leftBrace, rightBrace,
   leftBracket, rightBracket, comma, dot, ellipsis, semicolon, colon, plus, minus, star, slash,
   percent, bang, bangEqual, equal, equalEqual, greater, greaterEqual, less, lessEqual, andWord,
   classWord, elseWord, falseWord, forWord, funWord, ifWord, inWord, nilWord, orWord, returnWord,
   selfWord, superWord, trueWord, varWord, whileWord]

/-- The name of a kind: the symbol or word itself where there is only one. -/
def name : Kind → String
  | eof => "EOF"
  | illegal => "ILLEGAL"
  | identifier => "IDENTIFIER"
  | integer => "INTEGER"
  | float => "FLOAT"
  | string => "STRING"
  | leftParen => "("
  | rightParen => ")"
  | leftBrace => "\x7b"
  | rightBrace => "\x7d"
  | leftBracket => "["
  | rightBracket => "]"
  | comma => ","
  | dot => "."
  | ellipsis => "..."
  | semicolon => ";"
  | colon => ":"
  | plus => "+"
  | minus => "-"
  | star => "*"
  | slash => "/"
  | percent => "%"
  | bang => "!"
  | bangEqual => "!="
  | equal => "="
  | equalEqual => "=="
  | greater => ">"
  | greaterEqual => ">="
  | less => "<"
  | lessEqual => "<="
  | andWord => "and"
  | classWord => "class"
  | elseWord => "else"
  | falseWord => "false"
  | forWord => "for"
  | funWord => "fun"
  | ifWord => "if"
  | inWord => "in"
  | nilWord => "nil"
  | orWord => "or"
  | returnWord => "return"
  | selfWord => "self"
  | superWord => "super"
  | trueWord => "true"
  | varWord => "var"
  | whileWord => "while"

/-- The name of the kind with a number; a number without a kind is shown as it is. -/
def nameOfNumber (n : Int) : String :=
  match n with
  | .ofNat i => (all[i]?.map name).getD s!"Token({n})"
  | .negSucc _ => s!"Token({n})"

/-- The reserved words, in alphabetical order. -/
def keywords : List Kind :=
  [andWord, classWord, elseWord, falseWord, forWord, funWord, ifWord, inWord, nilWord, orWord,
   returnWord, selfWord, superWord, trueWord, varWord, whileWord]

/-- The kind of a word: its own if it is reserved, an identifier otherwise. -/
def ofWord (word : String) : Kind :=
  (keywords.find? fun k => k.name = word).getD identifier

end Kind

end Token

/-- A lexical token. -/
structure Token where
  /-- The lexical class. -/
  kind : Token.Kind
  /-- The source text, or the complaint about it when the token is illegal. -/
  lexeme : String
  /-- The glyphs of the lexeme, with the stray bytes that a text cannot hold. -/
  spelling : List Glyph
  /-- The value of an integer, float or string token. -/
  literal : Option Literal := none
  /-- The line, counted from 1; 0 for a token that does not come from a source. -/
  line : Nat := 0
  /-- The column, counted in glyphs from 1; 0 for a token that does not come from a source. -/
  column : Nat := 0
deriving Inhabited

namespace Token

/-- A token with the given glyphs. -/
def ofSpelling (kind : Kind) (spelling : List Glyph) : Token :=
  { kind, lexeme := Glyph.text spelling, spelling }

/-- An identifier that does not come from a source, such as the name of an implied type. -/
def synthetic (name : String) : Token :=
  { kind := .identifier, lexeme := name, spelling := Glyph.ofString name }

/-- The token that stands for no place in particular. -/
def absent : Token := { kind := .eof, lexeme := "", spelling := [] }

/-- The name of a kind with the quoted spelling. -/
def describe (kindName : String) (spelling : List Glyph) : String :=
  kindName ++ "(" ++ Text.quoteGlyphs spelling ++ ")"

/-- The token as a text: its kind and quoted lexeme. -/
def text (t : Token) : String :=
  if t.kind = .eof then t.kind.name else describe t.kind.name t.spelling

end Token

end ClassScript

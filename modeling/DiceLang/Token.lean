import DiceLang.Source
import DiceLang.Text.Quoted

/-!
# Tokens

The words of the language.  A token records its kind, the text it was cut from and where that text
stands.  Cutting never fails: a character that no kind accounts for becomes a token of kind
`illegal`, and it is the reader of tokens that refuses it.
-/

namespace DiceLang

/-- The kinds of token. -/
inductive Kind
  /-- A run of decimal digits. -/
  | number
  /-- A run of ASCII letters. -/
  | identifier
  | plus
  | minus
  | star
  | slash
  /-- Equality, written with one or two equals signs. -/
  | eq
  /-- Inequality, in either spelling. -/
  | ne
  | lt
  | le
  | gt
  | ge
  | lparen
  | rparen
  | comma
  /-- The double quote that marks a parameter in a definition. -/
  | quote
  /-- The arrow between the pattern and the body of a definition. -/
  | arrow
  /-- One or more line breaks, with the blanks around them. -/
  | separator
  /-- A character that belongs to no other kind. -/
  | illegal
  /-- The end of the text. -/
  | eof
deriving DecidableEq

namespace Kind

/-- The name of a kind in listings of tokens. -/
def name : Kind → String
  | number => "NUMBER"
  | identifier => "IDENTIFIER"
  | plus => "PLUS"
  | minus => "MINUS"
  | star => "STAR"
  | slash => "SLASH"
  | eq => "EQ"
  | ne => "NE"
  | lt => "LT"
  | le => "LE"
  | gt => "GT"
  | ge => "GE"
  | lparen => "LPAREN"
  | rparen => "RPAREN"
  | comma => "COMMA"
  | quote => "DOUBLE_QUOTE"
  | arrow => "ARROW"
  | separator => "SEPARATOR"
  | illegal => "ILLEGAL"
  | eof => "EOF"

/-- All kinds, in the order of their declaration. -/
def all : List Kind :=
  [number, identifier, plus, minus, star, slash, eq, ne, lt, le, gt, ge,
    lparen, rparen, comma, quote, arrow, separator, illegal, eof]

/-- The kind that bears a given name. -/
def ofName? (name : String) : Option Kind :=
  all.find? fun kind => kind.name == name

/-- How messages speak of a kind.  Operators go by their names in lower case. -/
def describe : Kind → String
  | number => "number"
  | identifier => "identifier"
  | plus => "plus"
  | minus => "minus"
  | star => "star"
  | slash => "slash"
  | eq => "eq"
  | ne => "ne"
  | lt => "lt"
  | le => "le"
  | gt => "gt"
  | ge => "ge"
  | lparen => "'('"
  | rparen => "')'"
  | comma => "','"
  | quote => "'\"'"
  | arrow => "'=>'"
  | separator => "newline"
  | illegal => "illegal character"
  | eof => "end of input"

end Kind

/-- A word of a text: its kind, the text it was cut from and where that text stands. -/
structure Token where
  kind : Kind
  lexeme : String
  span : Span
deriving DecidableEq

namespace Token

/-- What a token says: its lexeme, except that every run of line breaks says the same as one
newline, and the end of the text says nothing. -/
def value? (token : Token) : Option String :=
  match token.kind with
  | .eof => none
  | .separator => some "\n"
  | _ => some token.lexeme

/-- The listed form of a token: the name of its kind, with the lexeme where the kind does not
determine it. -/
def text (token : Token) : String :=
  match token.kind with
  | .number | .identifier | .illegal =>
    token.kind.name ++ "(" ++ Text.quoted token.lexeme ++ ")"
  | kind => kind.name

/-- How messages speak of a token that stands in the wrong place. -/
def describe (token : Token) : String :=
  match token.kind with
  | .number | .identifier => token.kind.describe ++ " '" ++ token.lexeme ++ "'"
  | .plus | .minus | .star | .slash | .eq | .ne | .lt | .le | .gt | .ge =>
    "'" ++ token.lexeme ++ "'"
  | kind => kind.describe

end Token

end DiceLang

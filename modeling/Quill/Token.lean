import Quill.Number.Layout

/-!
# Tokens

A token is a piece of source text with its kind and its line. The kind of a text or number literal
carries the literal's value. Characters that belong to no kind, and a text without its closing
quote, are tokens of the kind `unknown`: reading the source never fails, and whoever uses the tokens
reports them.
-/

namespace Quill

/-! ## Kinds -/

/-- Punctuation and operators. -/
inductive Symbol where
  | leftParen
  | rightParen
  | leftBrace
  | rightBrace
  | comma
  | dot
  | semicolon
  | minus
  | plus
  | slash
  | star
  | bang
  | bangEqual
  | equal
  | equalEqual
  | greater
  | greaterEqual
  | less
  | lessEqual
deriving DecidableEq

namespace Symbol

/-- The name of a symbol in listings. -/
def name : Symbol → String
  | leftParen => "LEFT_PAREN"
  | rightParen => "RIGHT_PAREN"
  | leftBrace => "LEFT_BRACE"
  | rightBrace => "RIGHT_BRACE"
  | comma => "COMMA"
  | dot => "DOT"
  | semicolon => "SEMICOLON"
  | minus => "MINUS"
  | plus => "PLUS"
  | slash => "SLASH"
  | star => "STAR"
  | bang => "BANG"
  | bangEqual => "BANG_EQUAL"
  | equal => "EQUAL"
  | equalEqual => "EQUAL_EQUAL"
  | greater => "GREATER"
  | greaterEqual => "GREATER_EQUAL"
  | less => "LESS"
  | lessEqual => "LESS_EQUAL"

/-- The symbol that a character is by itself. -/
def ofChar? (c : Char) : Option Symbol :=
  match c with
  | '(' => some leftParen
  | ')' => some rightParen
  | '\x7b' => some leftBrace
  | '\x7d' => some rightBrace
  | ',' => some comma
  | '.' => some dot
  | ';' => some semicolon
  | '-' => some minus
  | '+' => some plus
  | '/' => some slash
  | '*' => some star
  | '!' => some bang
  | '=' => some equal
  | '>' => some greater
  | '<' => some less
  | _ => none

/-- The symbol that a symbol and a directly following `=` are together. -/
def withEqual? : Symbol → Option Symbol
  | bang => some bangEqual
  | equal => some equalEqual
  | greater => some greaterEqual
  | less => some lessEqual
  | _ => none

end Symbol

/-- Reserved words. -/
inductive Keyword where
  | classWord
  | elseWord
  | falseWord
  | fnWord
  | ifWord
  | letWord
  | nilWord
  | printWord
  | returnWord
  | thisWord
  | trueWord
  | whileWord
deriving DecidableEq

namespace Keyword

/-- The spelling of a reserved word. -/
def text : Keyword → String
  | classWord => "class"
  | elseWord => "else"
  | falseWord => "false"
  | fnWord => "fn"
  | ifWord => "if"
  | letWord => "let"
  | nilWord => "nil"
  | printWord => "print"
  | returnWord => "return"
  | thisWord => "this"
  | trueWord => "true"
  | whileWord => "while"

/-- The name of a reserved word in listings. -/
def name : Keyword → String
  | classWord => "CLASS"
  | elseWord => "ELSE"
  | falseWord => "FALSE"
  | fnWord => "FN"
  | ifWord => "IF"
  | letWord => "LET"
  | nilWord => "NIL"
  | printWord => "PRINT"
  | returnWord => "RETURN"
  | thisWord => "THIS"
  | trueWord => "TRUE"
  | whileWord => "WHILE"

/-- All reserved words. -/
def all : List Keyword :=
  [classWord, elseWord, falseWord, fnWord, ifWord, letWord, nilWord, printWord, returnWord,
    thisWord, trueWord, whileWord]

/-- The reserved word with a spelling. -/
def ofText? (s : String) : Option Keyword :=
  all.find? fun k => k.text == s

end Keyword

/-- What a token is. -/
inductive Kind where
  /-- Punctuation or an operator. -/
  | symbol (s : Symbol)
  /-- A reserved word. -/
  | keyword (k : Keyword)
  /-- A name. -/
  | identifier
  /-- A text literal, with what stands between its quotes. -/
  | string (contents : String)
  /-- A number literal, with its value. -/
  | number (value : Number)
  /-- A stray character, or a text without its closing quote. -/
  | unknown
  /-- The end of the source. -/
  | eof
deriving DecidableEq

namespace Kind

/-- The name of a kind in listings, without the value of a literal. -/
def name : Kind → String
  | symbol s => s.name
  | keyword k => k.name
  | identifier => "IDENTIFIER"
  | string _ => "STRING"
  | number _ => "NUMBER"
  | unknown => "UNKNOWN"
  | eof => "EOF"

/-- A word is the reserved word with its spelling, or else a name. -/
def ofWord (s : String) : Kind :=
  match Keyword.ofText? s with
  | some k => keyword k
  | none => identifier

end Kind

/-! ## Tokens -/

/-- A piece of source text. -/
structure Token where
  /-- What it is. -/
  kind : Kind
  /-- The exact text; a text literal keeps its quotes, an unclosed one has no text at all. -/
  lexeme : String
  /-- The line on which the text ends, counted from one. -/
  line : Nat
deriving DecidableEq

namespace Token

/-- The token is of the kind that marks a fault. -/
def isUnknown (t : Token) : Bool :=
  t.kind == .unknown

/-- The token ends the source. -/
def isEof (t : Token) : Bool :=
  t.kind == .eof

/-- The literal of a token in a listing. -/
def literalText (t : Token) : String :=
  match t.kind with
  | .string contents => contents
  | .number value => value.tokenText
  | _ => "null"

/-- The line of a token in a listing: kind, text, literal. -/
def listing (t : Token) : String :=
  t.kind.name ++ " " ++ t.lexeme ++ " " ++ t.literalText

end Token

end Quill

import Quill.Token

/-!
# What can be wrong with a source

Problems that are found before a program runs are reported in one form, with the line first. A source
is refused for lexical faults and for faults of the grammar. Both are causes with a line; their
wording is in one place each.
-/

namespace Quill

/-- A message about a line of the source. -/
def located (line : Nat) (message : String) : String :=
  s!"[line {line}] Error: {message}"

/-! ## Lexical faults -/

/-- Why a piece of source text is no token of the language. -/
inductive LexicalCause where
  /-- A character that no token starts with. -/
  | unexpected (lexeme : String)
  /-- A text without its closing quote. -/
  | unterminated
deriving DecidableEq

/-- A piece of source text that is no token of the language, with its line. -/
structure LexicalFault where
  /-- What is wrong. -/
  cause : LexicalCause
  /-- The line of the token. -/
  line : Nat
deriving DecidableEq

namespace LexicalCause

/-- The fault in words. -/
def message : LexicalCause → String
  | unexpected lexeme => "Unexpected character: " ++ lexeme
  | unterminated => "Unterminated string."

end LexicalCause

namespace LexicalFault

/-- The fault in words, with its line. -/
def report (fault : LexicalFault) : String :=
  located fault.line fault.cause.message

end LexicalFault

/-- The fault that a token marks for whoever reads a program: an empty text is an unclosed text
literal. -/
def Token.fault? (t : Token) : Option LexicalFault :=
  if t.isUnknown then
    some ⟨if t.lexeme = "" then .unterminated else .unexpected t.lexeme, t.line⟩
  else none

/-! ## Faults of the grammar -/

/-- What the grammar asks for at some place. -/
inductive Expectation where
  | className
  | classOpen
  | classClose
  | functionName
  | parametersOpen
  | parameterName
  | parametersClose
  | bodyOpen
  | variableName
  | declarationEnd
  | printEnd
  | expressionEnd
  | ifOpen
  | ifClose
  | whileOpen
  | whileClose
  | returnEnd
  | blockClose
  | propertyName
  | argumentsClose
  | groupClose
  | expression
deriving DecidableEq

namespace Expectation

/-- The expectation in words. -/
def message : Expectation → String
  | className => "Expect class name."
  | classOpen => "Expect '\x7b' before class body."
  | classClose => "Expect '\x7d' after class body."
  | functionName => "Expect function name."
  | parametersOpen => "Expect '(' after function name."
  | parameterName => "Expect parameter name."
  | parametersClose => "Expect ')' after parameters."
  | bodyOpen => "Expect '\x7b' before function body."
  | variableName => "Expect variable name."
  | declarationEnd => "Expect ';' after variable declaration."
  | printEnd => "Expect ';' after value."
  | expressionEnd => "Expect ';' after expression."
  | ifOpen => "Expect '(' after 'if'."
  | ifClose => "Expect ')' after if condition."
  | whileOpen => "Expect '(' after 'while'."
  | whileClose => "Expect ')' after condition."
  | returnEnd => "Expect ';' after return value."
  | blockClose => "Expect '\x7d' after block."
  | propertyName => "Expect property name after '.'."
  | argumentsClose => "Expect ')' after arguments."
  | groupClose => "Expect ')' after expression."
  | expression => "Expect expression."

end Expectation

/-- Why a source does not follow the grammar. What was found is the text of a token, or nothing at
the end of the source. -/
inductive GrammarCause where
  /-- Something else stands where the grammar asks for something. -/
  | expected (what : Expectation) (found : Option String)
  /-- Statements, functions and expressions nest too deeply. -/
  | tooDeep (found : Option String)
  /-- A function has too many parameters. -/
  | tooManyParameters
  /-- A call has too many arguments. -/
  | tooManyArguments
  /-- The left side of an assignment is neither a variable nor a property. -/
  | invalidTarget
deriving DecidableEq

namespace GrammarCause

/-- The place of a fault, by what was found there. -/
def place : Option String → String
  | none => "at end"
  | some lexeme => "at '" ++ lexeme ++ "'"

/-- The fault in words. -/
def message : GrammarCause → String
  | expected what found => place found ++ ": " ++ what.message
  | tooDeep found => place found ++ ": Too much nesting."
  | tooManyParameters => "Can't have more than 255 parameters."
  | tooManyArguments => "Can't have more than 255 arguments."
  | invalidTarget => "Invalid assignment target."

end GrammarCause

/-- A fault of the grammar, with its line. -/
structure GrammarFault where
  /-- What is wrong. -/
  cause : GrammarCause
  /-- The line of the token at which it shows. -/
  line : Nat
deriving DecidableEq

/-! ## Problems -/

/-- Something for which a source is refused. -/
inductive Problem where
  /-- A piece of text that is no token. -/
  | lexical (fault : LexicalFault)
  /-- A token out of place. -/
  | grammatical (fault : GrammarFault)
deriving DecidableEq

namespace Problem

/-- The line of a problem. -/
def line : Problem → Nat
  | lexical fault => fault.line
  | grammatical fault => fault.line

/-- The problem in words, with its line. -/
def report : Problem → String
  | lexical fault => fault.report
  | grammatical fault => located fault.line fault.cause.message

end Problem

end Quill

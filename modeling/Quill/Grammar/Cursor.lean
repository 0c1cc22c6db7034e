import Quill.Diagnostic
import Quill.Token.Lexer
import Quill.Tree

/-!
# A cursor over tokens

The rules of the grammar look at one token ahead. A `Cursor` holds the tokens that are left, without
those that mark lexical faults: such a fault is kept with the token before it and is recorded when
that token is passed, so problems come in the order of the source and never disturb the rules.

`Parse α` is a rule: it moves the cursor and yields an `α` or a fault of the grammar. A fault keeps
the cursor where it was found.
-/

namespace Quill

/-! ## Tokens with the faults behind them -/

/-- A token that the grammar can use, with the lexical faults between it and the next one. -/
structure Lexed where
  /-- The token. -/
  token : Token
  /-- The faults behind it. -/
  faults : List LexicalFault
deriving DecidableEq

/-- Tokens sorted into those that the grammar can use and the faults around them. -/
structure Lexing where
  /-- The faults in front of the first token. -/
  leading : List LexicalFault
  /-- The tokens in order, without the end of the source. -/
  tokens : List Lexed
deriving DecidableEq

namespace Lexing

/-- Sorts tokens; the end of the source is dropped. -/
def ofTokens : List Token → Lexing
  | [] => ⟨[], []⟩
  | t :: rest =>
    let after := ofTokens rest
    match t.fault? with
    | some fault => ⟨fault :: after.leading, after.tokens⟩
    | none => if t.isEof then after else ⟨[], ⟨t, after.leading⟩ :: after.tokens⟩

end Lexing

/-! ## The cursor -/

/-- How far the rules have come, and what has been found wrong so far. -/
structure Cursor where
  /-- The tokens that are left. -/
  upcoming : List Lexed
  /-- The line of the end of the source. -/
  endLine : Nat
  /-- The problems found, in order. -/
  problems : Array Problem
  /-- The number of levels of nesting that are open. -/
  depth : Nat

namespace Cursor

/-- Records lexical faults. -/
def recordFaults (c : Cursor) (faults : List LexicalFault) : Cursor :=
  { c with problems := c.problems ++ (faults.map Problem.lexical).toArray }

/-- Records a fault of the grammar. -/
def recordFault (c : Cursor) (fault : GrammarFault) : Cursor :=
  { c with problems := c.problems.push (.grammatical fault) }

/-- The line of the end of the source, by its last token. -/
def lastLine (line : Nat) (tokens : List Token) : Nat :=
  (tokens.getLast?.map Token.line).getD line

/-- The cursor at the front of what a lexer has left. -/
def ofLexer (l : Lexer) : Cursor :=
  let tokens := l.tokens
  let lexing := Lexing.ofTokens tokens
  Cursor.recordFaults ⟨lexing.tokens, lastLine l.line tokens, #[], 0⟩ lexing.leading

/-- The next token. -/
def current? (c : Cursor) : Option Token :=
  c.upcoming.head?.map Lexed.token

/-- The line of the next token or of the end. -/
def line (c : Cursor) : Nat :=
  (c.current?.map Token.line).getD c.endLine

/-- Passes the next token. At the end there is nothing to pass. -/
def advance (c : Cursor) : Cursor :=
  match c.upcoming with
  | [] => c
  | passed :: rest => Cursor.recordFaults { c with upcoming := rest } passed.faults

end Cursor

/-! ## Rules -/

/-- A rule of the grammar. -/
abbrev Parse (α : Type) := EStateM GrammarFault Cursor α

namespace Parse

/-- The kind of the next token. -/
def kind? : Parse (Option Kind) := do
  return (← get).current?.map Token.kind

/-- The next token is of a kind. -/
def sees (kind : Kind) : Parse Bool := do
  return (← kind?) == some kind

/-- No token is left. -/
def atEnd : Parse Bool := do
  return (← get).upcoming.isEmpty

/-- The line of the next token or of the end. -/
def line : Parse Nat := do
  return (← get).line

/-- Passes the next token. -/
def advance : Parse Unit :=
  modify Cursor.advance

/-- Passes the next token if it satisfies a test. -/
def acceptIf? (test : Kind → Bool) : Parse (Option Token) := do
  match (← get).current? with
  | some t => if test t.kind then do advance; return some t else return none
  | none => return none

/-- Passes the next token if it is of a kind. -/
def accept (kind : Kind) : Parse Bool := do
  return (← acceptIf? (· == kind)).isSome

/-- Fails at the next token, for a cause that has no place in its wording. -/
def failWith {α : Type} (cause : GrammarCause) : Parse α := do
  throw ⟨cause, ← line⟩

/-- Fails at the next token, for a cause that names it. -/
def failAt {α : Type} (cause : Option String → GrammarCause) : Parse α := do
  let found := (← get).current?.map Token.lexeme
  failWith (cause found)

/-- Passes the next token, which has to be of a kind. -/
def expect (kind : Kind) (what : Expectation) : Parse Token := do
  match ← acceptIf? (· == kind) with
  | some t => return t
  | none => failAt (.expected what)

/-- Passes a name. -/
def expectName (what : Expectation) : Parse Name := do
  let t ← expect .identifier what
  return ⟨t.lexeme, t.line⟩

end Parse

end Quill

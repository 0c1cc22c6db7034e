import Quill.Grammar.Cursor

/-!
# The rules of the grammar

```text
declaration → "class" name "{" ( "fn" function | other )* "}"
            | "fn" function | "let" name ( "=" expression )? ";" | statement
function    → name "(" ( name ( "," name )* )? ")" "{" declaration* "}"
statement   → "if" "(" expression ")" statement ( "else" statement )?
            | "while" "(" expression ")" statement | "return" expression? ";"
            | "{" declaration* "}" | "print" expression ";" | expression ";"
expression  → ( call "." )? name "=" expression | equality
equality    → comparison ( ( "!=" | "==" ) comparison )*
comparison  → term ( ( ">" | ">=" | "<" | "<=" ) term )*
term        → factor ( ( "-" | "+" ) factor )*
factor      → unary ( ( "/" | "*" ) unary )*
unary       → ( "!" | "-" ) unary | call
call        → primary ( "(" ( expression ( "," expression )* )? ")" | "." name )*
primary     → number | text | "true" | "false" | "nil" | "this" | name | "(" expression ")"
```

Statements, functions, expressions and operands of a unary operator may nest `maxNesting` deep. The
four rules that count as a level are the fields of `Rules`; each rule is written over the rules one
level further in. `Grammar.nested` counts the levels that are open and refuses to open too many, and
`Rules.unfolded` writes the recursion out more often than that, so it needs no other bound.
Repetitions on one level pass at least one token a round, so the number of tokens of the source,
`Rules.rounds`, is a bound for all of them.
-/

namespace Quill

/-- The greatest number of parameters and of arguments. -/
def maxArity : Nat := 255

/-- The greatest number of nested statements, functions, expressions and unary operands. -/
def maxNesting : Nat := 200

/-- The rules that count as a level of nesting. -/
structure Rules where
  /-- A number of repetitions that is never reached: more than there are tokens. -/
  rounds : Nat
  /-- A statement. -/
  statement : Parse Stmt
  /-- A function behind its word. -/
  function : Parse FunctionDecl
  /-- An expression. -/
  expression : Parse Expr
  /-- The operand of a unary operator. -/
  unary : Parse Expr

namespace Grammar

open Parse

/-! ## Expressions -/

/-- Items with commas between them, at least one. Before each item the number of those already there
is held against the greatest number. -/
def separatedAtFuel {α : Type} (item : Parse α) (tooMany : GrammarCause) :
    (fuel count : Nat) → Parse (List α)
  | 0, _ => return []
  | fuel + 1, count => do
    if maxArity ≤ count then failWith tooMany
    else
      let first ← item
      if ← accept (.symbol .comma) then
        let rest ← separatedAtFuel item tooMany fuel (count + 1)
        return first :: rest
      else return [first]

/-- Items with commas between them up to a closing parenthesis, perhaps none. -/
def separated {α : Type} (rounds : Nat) (item : Parse α) (tooMany : GrammarCause) :
    Parse (List α) := do
  if ← sees (.symbol .rightParen) then return []
  else separatedAtFuel item tooMany rounds 0

/-- The constant that a token is. -/
def literal? : Kind → Option Literal
  | .keyword .falseWord => some (.boolean false)
  | .keyword .trueWord => some (.boolean true)
  | .keyword .nilWord => some .nil
  | .number value => some (.number value)
  | .string contents => some (.string contents)
  | _ => none

/-- A constant, a name, the receiver, or an expression in parentheses. -/
def primary (inner : Rules) : Parse Expr := do
  match (← get).current? with
  | none => failAt (.expected .expression)
  | some t =>
    match literal? t.kind with
    | some value => do
      advance
      return .literal value t.line
    | none =>
      match t.kind with
      | .identifier => do
        advance
        return .reference ⟨t.lexeme, t.line⟩
      | .keyword .thisWord => do
        advance
        return .this t.line
      | .symbol .leftParen => do
        advance
        let e ← inner.expression
        let _ ← expect (.symbol .rightParen) .groupClose
        return .group e
      | _ => failAt (.expected .expression)

/-- The calls and properties behind an expression. -/
def accessesAtFuel (inner : Rules) : (fuel : Nat) → Expr → Parse Expr
  | 0, e => return e
  | fuel + 1, e => do
    if ← accept (.symbol .leftParen) then
      let arguments ← separated inner.rounds inner.expression .tooManyArguments
      let close ← expect (.symbol .rightParen) .argumentsClose
      accessesAtFuel inner fuel (.call e arguments close.line)
    else if ← accept (.symbol .dot) then
      let property ← expectName .propertyName
      accessesAtFuel inner fuel (.get e property)
    else return e

/-- A primary expression with calls and properties. -/
def call (inner : Rules) : Parse Expr := do
  let e ← primary inner
  accessesAtFuel inner inner.rounds e

/-- The operators that stand before their operand. -/
def isUnaryOperator : Kind → Bool
  | .symbol .bang => true
  | .symbol .minus => true
  | _ => false

/-- A unary operator with its operand, or a call. -/
def unary (inner : Rules) : Parse Expr := do
  match ← acceptIf? isUnaryOperator with
  | some operator => do
    let operand ← inner.unary
    return .unary operator operand
  | none => call inner

/-- The operators and right operands behind a left operand, grouped to the left. -/
def chainAtFuel (isOperator : Kind → Bool) (operand : Parse Expr) : (fuel : Nat) → Expr → Parse Expr
  | 0, left => return left
  | fuel + 1, left => do
    match ← acceptIf? isOperator with
    | some operator => do
      let right ← operand
      chainAtFuel isOperator operand fuel (.binary left operator right)
    | none => return left

/-- Operands of one level of precedence, grouped to the left. -/
def chain (rounds : Nat) (isOperator : Kind → Bool) (operand : Parse Expr) : Parse Expr := do
  let first ← operand
  chainAtFuel isOperator operand rounds first

/-- The operators of products. -/
def isFactorOperator : Kind → Bool
  | .symbol .slash => true
  | .symbol .star => true
  | _ => false

/-- The operators of sums. -/
def isTermOperator : Kind → Bool
  | .symbol .minus => true
  | .symbol .plus => true
  | _ => false

/-- The operators that compare sizes. -/
def isComparisonOperator : Kind → Bool
  | .symbol .greater => true
  | .symbol .greaterEqual => true
  | .symbol .less => true
  | .symbol .lessEqual => true
  | _ => false

/-- The operators that compare values. -/
def isEqualityOperator : Kind → Bool
  | .symbol .bangEqual => true
  | .symbol .equalEqual => true
  | _ => false

/-- Products. -/
def factor (inner : Rules) : Parse Expr :=
  chain inner.rounds isFactorOperator (unary inner)

/-- Sums. -/
def term (inner : Rules) : Parse Expr :=
  chain inner.rounds isTermOperator (factor inner)

/-- Comparisons of sizes. -/
def comparison (inner : Rules) : Parse Expr :=
  chain inner.rounds isComparisonOperator (term inner)

/-- Comparisons of values. -/
def equality (inner : Rules) : Parse Expr :=
  chain inner.rounds isEqualityOperator (comparison inner)

/-- The assignment to what stands on its left side, if that can be assigned to. -/
def assignmentTo? (target value : Expr) : Option Expr :=
  match target with
  | .reference name => some (.assign name value)
  | .get object property => some (.set object property value)
  | _ => none

/-- An expression: assignments group to the right, and their left side is checked last. -/
def expression (inner : Rules) : Parse Expr := do
  let left ← equality inner
  match ← acceptIf? (· == .symbol .equal) with
  | none => return left
  | some equal => do
    let value ← inner.expression
    match assignmentTo? left value with
    | some e => return e
    | none => throw ⟨.invalidTarget, equal.line⟩

/-! ## Recovery -/

/-- The token ends a statement. -/
def endsStatement (t : Lexed) : Bool :=
  t.token.kind == .symbol .semicolon

/-- The token starts a declaration or statement. -/
def startsStatement (t : Lexed) : Bool :=
  match t.token.kind with
  | .keyword .classWord => true
  | .keyword .fnWord => true
  | .keyword .letWord => true
  | .keyword .ifWord => true
  | .keyword .whileWord => true
  | .keyword .printWord => true
  | .keyword .returnWord => true
  | _ => false

/-- The tokens to pass, after `passed`, up to the next boundary of statements: behind a semicolon,
or before a token that starts one. -/
def toBoundary (passed : Lexed) : List Lexed → List Lexed × List Lexed
  | [] => ([], [])
  | t :: rest =>
    if endsStatement passed || startsStatement t then ([], t :: rest)
    else
      let (more, left) := toBoundary t rest
      (t :: more, left)

/-- Passes at least one token and then all up to the next boundary of statements. -/
def recover (c : Cursor) : Cursor :=
  match c.upcoming with
  | [] => c
  | t :: rest =>
    let (more, left) := toBoundary t rest
    Cursor.recordFaults { c with upcoming := left } ((t :: more).flatMap Lexed.faults)

/-- Runs a rule; a fault is recorded and the cursor goes on at the next boundary. -/
def recovering {α : Type} (rule : Parse α) : Parse (Option α) := fun c =>
  match rule c with
  | .ok a c' => .ok (some a) c'
  | .error fault c' => .ok none (recover (c'.recordFault fault))

/-! ## Statements and declarations -/

/-- Methods up to the brace that closes a class; everything else in between is passed over. -/
def methodsAtFuel (function : Parse FunctionDecl) : (fuel : Nat) → Parse (List FunctionDecl)
  | 0 => return []
  | fuel + 1 => do
    if (← sees (.symbol .rightBrace)) || (← atEnd) then return []
    else if ← accept (.keyword .fnWord) then
      let method ← function
      let rest ← methodsAtFuel function fuel
      return method :: rest
    else
      advance
      methodsAtFuel function fuel

/-- A class behind its word. -/
def classDecl (rules : Rules) : Parse ClassDecl := do
  let name ← expectName .className
  let _ ← expect (.symbol .leftBrace) .classOpen
  let methods ← methodsAtFuel rules.function rules.rounds
  let _ ← expect (.symbol .rightBrace) .classClose
  return ⟨name, methods⟩

/-- A variable's declaration behind its word. -/
def variableDecl (rules : Rules) : Parse Stmt := do
  let name ← expectName .variableName
  let initial ←
    if ← accept (.symbol .equal) then
      let e ← rules.expression
      pure (some e)
    else pure none
  let _ ← expect (.symbol .semicolon) .declarationEnd
  return .declare name initial

/-- A declaration or statement. A class is not a level of nesting, its methods are. -/
def declarationRule (rules : Rules) : Parse Stmt := do
  if ← accept (.keyword .classWord) then
    return .classOf (← classDecl rules)
  else if ← accept (.keyword .fnWord) then
    return .function (← rules.function)
  else if ← accept (.keyword .letWord) then
    variableDecl rules
  else rules.statement

/-- A declaration or statement; after a fault there is none. -/
def declaration (rules : Rules) : Parse (Option Stmt) :=
  recovering (declarationRule rules)

/-- Declarations while a test on the cursor lets them go on. -/
def declarationsAtFuel (rules : Rules) (stop : Parse Bool) : (fuel : Nat) → Parse (List Stmt)
  | 0 => return []
  | fuel + 1 => do
    if ← stop then return []
    else
      let first ← declaration rules
      let rest ← declarationsAtFuel rules stop fuel
      return first.toList ++ rest

/-- A closing brace or the end is next. -/
def blockEnds : Parse Bool := do
  return (← sees (.symbol .rightBrace)) || (← atEnd)

/-- Declarations up to the closing brace. Faults inside do not end the block. -/
def block (rules : Rules) : Parse (List Stmt) := do
  let body ← declarationsAtFuel rules blockEnds rules.rounds
  let _ ← expect (.symbol .rightBrace) .blockClose
  return body

/-- A function behind its word. -/
def function (inner : Rules) : Parse FunctionDecl := do
  let name ← expectName .functionName
  let _ ← expect (.symbol .leftParen) .parametersOpen
  let params ← separated inner.rounds (expectName .parameterName) .tooManyParameters
  let _ ← expect (.symbol .rightParen) .parametersClose
  let _ ← expect (.symbol .leftBrace) .bodyOpen
  let body ← block inner
  return ⟨name, params, body⟩

/-- A choice behind its word. An `else` belongs to the nearest choice that is open. -/
def branch (inner : Rules) : Parse Stmt := do
  let _ ← expect (.symbol .leftParen) .ifOpen
  let condition ← inner.expression
  let _ ← expect (.symbol .rightParen) .ifClose
  let thenBranch ← inner.statement
  if ← accept (.keyword .elseWord) then
    let elseBranch ← inner.statement
    return .branch condition thenBranch (some elseBranch)
  else return .branch condition thenBranch none

/-- A loop behind its word. -/
def loop (inner : Rules) : Parse Stmt := do
  let _ ← expect (.symbol .leftParen) .whileOpen
  let condition ← inner.expression
  let _ ← expect (.symbol .rightParen) .whileClose
  let body ← inner.statement
  return .loop condition body

/-- What follows the word that leaves a function. -/
def leave (inner : Rules) (line : Nat) : Parse Stmt := do
  let value ←
    if ← sees (.symbol .semicolon) then pure none
    else
      let e ← inner.expression
      pure (some e)
  let _ ← expect (.symbol .semicolon) .returnEnd
  return .leave line value

/-- A statement. -/
def statement (inner : Rules) : Parse Stmt := do
  match (← get).current? with
  | some ⟨.keyword .ifWord, _, _⟩ => do advance; branch inner
  | some ⟨.keyword .whileWord, _, _⟩ => do advance; loop inner
  | some ⟨.keyword .returnWord, _, line⟩ => do advance; leave inner line
  | some ⟨.symbol .leftBrace, _, _⟩ => do
    advance
    return .block (← block inner)
  | some ⟨.keyword .printWord, _, _⟩ => do
    advance
    let value ← inner.expression
    let _ ← expect (.symbol .semicolon) .printEnd
    return .print value
  | _ => do
    let value ← inner.expression
    let _ ← expect (.symbol .semicolon) .expressionEnd
    return .expression value

/-! ## Levels -/

/-- Reads a rule as one more level of nesting, which is closed again however the rule ends. -/
def nested {α : Type} (rule : Parse α) : Parse α := fun c =>
  if maxNesting ≤ c.depth then failAt .tooDeep c
  else
    match rule { c with depth := c.depth + 1 } with
    | .ok a c' => .ok a { c' with depth := c'.depth - 1 }
    | .error fault c' => .error fault { c' with depth := c'.depth - 1 }

end Grammar

namespace Rules

/-- Rules for which no level is left. -/
def exhausted (rounds : Nat) : Rules where
  rounds := rounds
  statement := Parse.failAt .tooDeep
  function := Parse.failAt .tooDeep
  expression := Parse.failAt .tooDeep
  unary := Parse.failAt .tooDeep

/-- The rules over those one level further in, with a count of the levels that are open. -/
def counted (inner : Rules) : Rules where
  rounds := inner.rounds
  statement := Grammar.nested (Grammar.statement inner)
  function := Grammar.nested (Grammar.function inner)
  expression := Grammar.nested (Grammar.expression inner)
  unary := Grammar.nested (Grammar.unary inner)

/-- The rules with their recursion written out so many times, over whatever there is below. -/
def unfolded (below : Rules) : (times : Nat) → Rules
  | 0 => below
  | n + 1 => counted (unfolded below n)

end Rules

end Quill

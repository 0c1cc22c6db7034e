import Quill.Value

/-!
# Faults of running programs

A run ends early for a fault of the program, with the line of the token that shows it.
-/

namespace Quill

/-- Why a program cannot go on. -/
inductive FaultCause where
  /-- The operand of a minus is no number. -/
  | operandNotNumber
  /-- The operands of a plus are neither two numbers nor two texts. -/
  | operandsNotAddable
  /-- The operands of an arithmetic operator are not both numbers. -/
  | operandsNotNumbers (left right : ValueSort)
  /-- No operator of this text stands before an operand. -/
  | invalidUnary (lexeme : String)
  /-- No operator of this text stands between operands. -/
  | invalidBinary (lexeme : String)
  /-- A number is divided by zero. -/
  | divisionByZero
  /-- No scope in reach binds the name. -/
  | undefinedVariable (name : String)
  /-- The object has neither a field nor a method of the name. -/
  | undefinedProperty (name : String)
  /-- A call has the wrong number of arguments. -/
  | arityMismatch (expected got : Nat)
  /-- Too many calls are open. -/
  | stackOverflow
  /-- The value called is neither a function nor a class. -/
  | notCallable
  /-- The value with a property is no object. -/
  | notAnInstance
deriving DecidableEq

namespace FaultCause

/-- The fault in words. -/
def message : FaultCause → String
  | operandNotNumber => "Operand must be a number."
  | operandsNotAddable => "Operands must be two numbers or two strings."
  | operandsNotNumbers left right =>
    "Operands must be numbers, got " ++ left.name ++ " and " ++ right.name ++ "."
  | invalidUnary lexeme => "Invalid unary operator '" ++ lexeme ++ "'."
  | invalidBinary lexeme => "Invalid binary operator '" ++ lexeme ++ "'."
  | divisionByZero => "Division by zero."
  | undefinedVariable name => "Undefined variable '" ++ name ++ "'."
  | undefinedProperty name => "Undefined property '" ++ name ++ "'."
  | arityMismatch expected got =>
    "Expected " ++ toString expected ++ " arguments but got " ++ toString got ++ "."
  | stackOverflow => "Stack overflow."
  | notCallable => "Can only call functions and classes."
  | notAnInstance => "Only instances have properties."

end FaultCause

/-- A fault with its line. -/
structure Fault where
  /-- What is wrong. -/
  cause : FaultCause
  /-- The line of the token that shows it. -/
  line : Nat
deriving DecidableEq

namespace Fault

/-- The fault in words, its line on a line of its own. -/
def report (fault : Fault) : String :=
  fault.cause.message ++ "\n[line " ++ toString fault.line ++ "]"

end Fault

/-! ## Operators -/

/-- The result of an operator before its operand. -/
def applyUnary (operator : Token) (operand : Value) : Except Fault Value :=
  match operator.kind with
  | .symbol .minus =>
    match operand with
    | .number n => .ok (.number n.neg)
    | _ => .error ⟨.operandNotNumber, operator.line⟩
  | .symbol .bang => .ok (.boolean !operand.isTruthy)
  | _ => .error ⟨.invalidUnary operator.lexeme, operator.line⟩

/-- The result of an operator on numbers; other operands are a fault. -/
def onNumbers (line : Nat) (left right : Value) (f : Number → Number → Except Fault Value) :
    Except Fault Value :=
  match left, right with
  | .number a, .number b => f a b
  | _, _ => .error ⟨.operandsNotNumbers left.sort right.sort, line⟩

/-- The result of an operator between its operands. -/
def applyBinary (operator : Token) (left right : Value) : Except Fault Value :=
  let line := operator.line
  match operator.kind with
  | .symbol .plus =>
    match left, right with
    | .number a, .number b => .ok (.number (a.add b))
    | .string a, .string b => .ok (.string (a ++ b))
    | _, _ => .error ⟨.operandsNotAddable, line⟩
  | .symbol .minus => onNumbers line left right fun a b => .ok (.number (a.sub b))
  | .symbol .star => onNumbers line left right fun a b => .ok (.number (a.mul b))
  | .symbol .slash => onNumbers line left right fun a b =>
      if b.isZero then .error ⟨.divisionByZero, line⟩ else .ok (.number (a.div b))
  | .symbol .greater => onNumbers line left right fun a b => .ok (.boolean (b.lt a))
  | .symbol .greaterEqual => onNumbers line left right fun a b => .ok (.boolean (b.le a))
  | .symbol .less => onNumbers line left right fun a b => .ok (.boolean (a.lt b))
  | .symbol .lessEqual => onNumbers line left right fun a b => .ok (.boolean (a.le b))
  | .symbol .equalEqual => .ok (.boolean (left.same right))
  | .symbol .bangEqual => .ok (.boolean !(left.same right))
  | _ => .error ⟨.invalidBinary operator.lexeme, line⟩

end Quill

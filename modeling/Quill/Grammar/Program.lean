import Quill.Grammar.Rules

/-!
# Reading programs

A source is a program, or it is refused with all its problems: after a fault the rules go on at the
next boundary of statements.
-/

namespace Quill

namespace Cursor

/-- Reads everything that is left, with given rules. The problems, if any, are handed over, so that
a second call finds neither tokens nor problems. -/
def readWith (rules : Rules) (c : Cursor) : Except (List Problem) Program × Cursor :=
  let (declarations, c) : List Stmt × Cursor :=
    match Grammar.declarationsAtFuel rules Parse.atEnd rules.rounds c with
    | .ok declarations c => (declarations, c)
    | .error fault c => ([], c.recordFault fault)
  if c.problems.isEmpty then (.ok ⟨declarations⟩, c)
  else (.error c.problems.toList, { c with problems := #[] })

/-- Reads everything that is left, with rules that are written out more often than levels may nest.
-/
def readProgram (c : Cursor) : Except (List Problem) Program × Cursor :=
  c.readWith (Rules.unfolded (Rules.exhausted (c.upcoming.length + 1)) (maxNesting + 1))

end Cursor

/-- The program that a source is, or its problems in order. -/
def parse (source : String) : Except (List Problem) Program :=
  (Cursor.ofLexer (.ofSource source)).readProgram.1

namespace Program

/-- The expression that a program consists of. -/
def soleExpression? (program : Program) : Option Expr :=
  match program.declarations with
  | [.expression e] => some e
  | _ => none

end Program

end Quill

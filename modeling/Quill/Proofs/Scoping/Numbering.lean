import Mathlib.Data.Nat.Pairing
import Quill.Proofs.Lines.Uses

/-!
# Numbered uses

A name and a line do not tell which use of the name is meant, since several may stand on a line. So
the uses of a program are numbered in the order of `Program.uses`, and each carries its number where
it has carried its line (`Program.numbered`): number and line are paired into one, and
`lineOf` finds the line in it again. Nothing else about the program is changed
(`Program.mapLines_numbered`), and a use of the numbered program is the use of that number in the
program itself (`Program.getElem?_uses`).

Since nothing but the lines differs, whatever is proved of all trees on all lines holds of numbered
programs, and says of a name which use it is.
-/

namespace Quill

/-! ## Lines that carry a number -/

/-- A line that carries a number. -/
def numberedLine (number line : Nat) : Nat := Nat.pair number line

/-- The line in a line that carries a number. -/
def lineOf (numbered : Nat) : Nat := numbered.unpair.2

/-- The number in a line that carries one. -/
def numberOf (numbered : Nat) : Nat := numbered.unpair.1

/-- The line of a line that carries a number is the line. -/
@[simp] theorem lineOf_numberedLine (number line : Nat) :
    lineOf (numberedLine number line) = line := by
  simp [lineOf, numberedLine]

/-- The number of a line that carries one is the number. -/
@[simp] theorem numberOf_numberedLine (number line : Nat) :
    numberOf (numberedLine number line) = number := by
  simp [numberOf, numberedLine]

/-- A line is made up of the number and the line in it. -/
theorem numberedLine_numberOf (numbered : Nat) :
    numberedLine (numberOf numbered) (lineOf numbered) = numbered :=
  Nat.pair_unpair numbered

/-- A name that carries a number is the name itself, apart from it. -/
@[simp] theorem Name.mapLine_lineOf (name : Name) (number : Nat) :
    (name.mapLine (numberedLine number)).mapLine lineOf = name := by
  simp [Name.mapLine]

/-- A token that carries a number is the token itself, apart from it. -/
@[simp] theorem Token.mapLine_lineOf (t : Token) (number : Nat) :
    (t.mapLine (numberedLine number)).mapLine lineOf = t := by
  simp [Token.mapLine]

/-! ## Counting uses -/

mutual

/-- The number of uses of names in an expression. -/
def Expr.useCount : Expr → Nat
  | .literal _ _ => 0
  | .unary _ operand => operand.useCount
  | .binary left _ right => left.useCount + right.useCount
  | .group inner => inner.useCount
  | .reference _ => 1
  | .assign _ value => value.useCount + 1
  | .call callee arguments _ => callee.useCount + Expr.listUseCount arguments
  | .get object _ => object.useCount
  | .set object _ value => object.useCount + value.useCount
  | .this _ => 0

/-- The number of uses of names in expressions. -/
def Expr.listUseCount : List Expr → Nat
  | [] => 0
  | e :: rest => e.useCount + Expr.listUseCount rest

end

/-- The number of uses of names in an expression that may be missing. -/
def Expr.optionUseCount : Option Expr → Nat
  | none => 0
  | some e => e.useCount

mutual

/-- The number of uses of names in a statement. -/
def Stmt.useCount : Stmt → Nat
  | .expression value => value.useCount
  | .print value => value.useCount
  | .declare _ initial => Expr.optionUseCount initial
  | .block body => Stmt.listUseCount body
  | .branch condition thenBranch none => condition.useCount + thenBranch.useCount
  | .branch condition thenBranch (some elseBranch) =>
    condition.useCount + thenBranch.useCount + elseBranch.useCount
  | .loop condition body => condition.useCount + body.useCount
  | .leave _ value => Expr.optionUseCount value
  | .function ⟨_, _, body⟩ => Stmt.listUseCount body
  | .classOf ⟨_, methods⟩ => FunctionDecl.listUseCount methods

/-- The number of uses of names in statements. -/
def Stmt.listUseCount : List Stmt → Nat
  | [] => 0
  | s :: rest => s.useCount + Stmt.listUseCount rest

/-- The number of uses of names in methods. -/
def FunctionDecl.listUseCount : List FunctionDecl → Nat
  | [] => 0
  | ⟨_, _, body⟩ :: rest => Stmt.listUseCount body + FunctionDecl.listUseCount rest

end

/-! ## Numbering -/

mutual

/-- Numbers the uses of an expression from a number on. What is no use carries the number zero. -/
def Expr.numbered (start : Nat) : Expr → Expr
  | .literal value line => .literal value (numberedLine 0 line)
  | .unary operator operand => .unary (operator.mapLine (numberedLine 0)) (operand.numbered start)
  | .binary left operator right =>
    .binary (left.numbered start) (operator.mapLine (numberedLine 0))
      (right.numbered (start + left.useCount))
  | .group inner => .group (inner.numbered start)
  | .reference name => .reference (name.mapLine (numberedLine start))
  | .assign name value =>
    .assign (name.mapLine (numberedLine (start + value.useCount))) (value.numbered start)
  | .call callee arguments line =>
    .call (callee.numbered start) (Expr.listNumbered (start + callee.useCount) arguments)
      (numberedLine 0 line)
  | .get object property => .get (object.numbered start) (property.mapLine (numberedLine 0))
  | .set object property value =>
    .set (object.numbered start) (property.mapLine (numberedLine 0))
      (value.numbered (start + object.useCount))
  | .this line => .this (numberedLine 0 line)

/-- Numbers the uses of expressions from a number on. -/
def Expr.listNumbered (start : Nat) : List Expr → List Expr
  | [] => []
  | e :: rest => e.numbered start :: Expr.listNumbered (start + e.useCount) rest

end

mutual

/-- Numbers the uses of a statement from a number on. -/
def Stmt.numbered (start : Nat) : Stmt → Stmt
  | .expression value => .expression (value.numbered start)
  | .print value => .print (value.numbered start)
  | .declare name initial =>
    .declare (name.mapLine (numberedLine 0)) (initial.map (Expr.numbered start))
  | .block body => .block (Stmt.listNumbered start body)
  | .branch condition thenBranch none =>
    .branch (condition.numbered start) (thenBranch.numbered (start + condition.useCount)) none
  | .branch condition thenBranch (some elseBranch) =>
    .branch (condition.numbered start) (thenBranch.numbered (start + condition.useCount))
      (some (elseBranch.numbered (start + (condition.useCount + thenBranch.useCount))))
  | .loop condition body =>
    .loop (condition.numbered start) (body.numbered (start + condition.useCount))
  | .leave line value => .leave (numberedLine 0 line) (value.map (Expr.numbered start))
  | .function ⟨name, params, body⟩ =>
    .function ⟨name.mapLine (numberedLine 0), params.map (Name.mapLine (numberedLine 0)),
      Stmt.listNumbered start body⟩
  | .classOf ⟨name, methods⟩ =>
    .classOf ⟨name.mapLine (numberedLine 0), FunctionDecl.listNumbered start methods⟩

/-- Numbers the uses of statements from a number on. -/
def Stmt.listNumbered (start : Nat) : List Stmt → List Stmt
  | [] => []
  | s :: rest => s.numbered start :: Stmt.listNumbered (start + s.useCount) rest

/-- Numbers the uses of methods from a number on. -/
def FunctionDecl.listNumbered (start : Nat) : List FunctionDecl → List FunctionDecl
  | [] => []
  | ⟨name, params, body⟩ :: rest =>
    ⟨name.mapLine (numberedLine 0), params.map (Name.mapLine (numberedLine 0)),
      Stmt.listNumbered start body⟩
      :: FunctionDecl.listNumbered (start + Stmt.listUseCount body) rest

end

/-- The program with its uses numbered. -/
def Program.numbered (program : Program) : Program :=
  ⟨Stmt.listNumbered 0 program.declarations⟩

/-! ## Nothing but lines is changed -/

mutual

/-- With its lines back, a numbered expression is what it was. -/
theorem Expr.mapLines_numbered : (e : Expr) → ∀ start, (e.numbered start).mapLines lineOf = e
  | .literal value line, _ => by simp [Expr.numbered, Expr.mapLines]
  | .unary operator operand, start => by
    simp [Expr.numbered, Expr.mapLines, Expr.mapLines_numbered operand start]
  | .binary left operator right, start => by
    simp [Expr.numbered, Expr.mapLines, Expr.mapLines_numbered left start,
      Expr.mapLines_numbered right]
  | .group inner, start => by
    simp [Expr.numbered, Expr.mapLines, Expr.mapLines_numbered inner start]
  | .reference name, start => by simp [Expr.numbered, Expr.mapLines]
  | .assign name value, start => by
    simp [Expr.numbered, Expr.mapLines, Expr.mapLines_numbered value start]
  | .call callee arguments line, start => by
    simp [Expr.numbered, Expr.mapLines, Expr.mapLines_numbered callee start,
      Expr.listMapLines_numbered arguments]
  | .get object property, start => by
    simp [Expr.numbered, Expr.mapLines, Expr.mapLines_numbered object start]
  | .set object property value, start => by
    simp [Expr.numbered, Expr.mapLines, Expr.mapLines_numbered object start,
      Expr.mapLines_numbered value]
  | .this line, _ => by simp [Expr.numbered, Expr.mapLines]

/-- With their lines back, numbered expressions are what they were. -/
theorem Expr.listMapLines_numbered : (es : List Expr) → ∀ start,
    Expr.listMapLines lineOf (Expr.listNumbered start es) = es
  | [], _ => rfl
  | e :: rest, start => by
    simp [Expr.listNumbered, Expr.listMapLines, Expr.mapLines_numbered e start,
      Expr.listMapLines_numbered rest]

end

/-- With its lines back, a numbered expression that may be missing is what it was. -/
theorem Expr.optionMapLines_numbered (e : Option Expr) (start : Nat) :
    (e.map (Expr.numbered start)).map (Expr.mapLines lineOf) = e := by
  cases e with
  | none => rfl
  | some e => simp [Expr.mapLines_numbered e start]

/-- With their lines back, the numbered names of parameters are what they were. -/
theorem map_mapLine_lineOf (params : List Name) (number : Nat) :
    (params.map (Name.mapLine (numberedLine number))).map (Name.mapLine lineOf) = params := by
  rw [List.map_map]
  exact List.map_id'' (fun param => param.mapLine_lineOf number) params

mutual

/-- With its lines back, a numbered statement is what it was. -/
theorem Stmt.mapLines_numbered : (s : Stmt) → ∀ start, (s.numbered start).mapLines lineOf = s
  | .expression value, start => by simp [Stmt.numbered, Stmt.mapLines, Expr.mapLines_numbered]
  | .print value, start => by simp [Stmt.numbered, Stmt.mapLines, Expr.mapLines_numbered]
  | .declare name initial, start => by
    rw [Stmt.numbered, Stmt.mapLines, Name.mapLine_lineOf, Expr.optionMapLines_numbered]
  | .block body, start => by
    simp [Stmt.numbered, Stmt.mapLines, Stmt.listMapLines_numbered body]
  | .branch condition thenBranch none, start => by
    simp [Stmt.numbered, Stmt.mapLines, Expr.mapLines_numbered, Stmt.mapLines_numbered thenBranch]
  | .branch condition thenBranch (some elseBranch), start => by
    simp [Stmt.numbered, Stmt.mapLines, Expr.mapLines_numbered, Stmt.mapLines_numbered thenBranch,
      Stmt.mapLines_numbered elseBranch]
  | .loop condition body, start => by
    simp [Stmt.numbered, Stmt.mapLines, Expr.mapLines_numbered, Stmt.mapLines_numbered body]
  | .leave line value, start => by
    rw [Stmt.numbered, Stmt.mapLines, lineOf_numberedLine, Expr.optionMapLines_numbered]
  | .function ⟨name, params, body⟩, start => by
    rw [Stmt.numbered, Stmt.mapLines, FunctionDecl.mapLines, Name.mapLine_lineOf,
      map_mapLine_lineOf, Stmt.listMapLines_numbered body]
  | .classOf ⟨name, methods⟩, start => by
    rw [Stmt.numbered, Stmt.mapLines, ClassDecl.mapLines, Name.mapLine_lineOf,
      FunctionDecl.listMapLines_numbered methods]

/-- With their lines back, numbered statements are what they were. -/
theorem Stmt.listMapLines_numbered : (body : List Stmt) → ∀ start,
    Stmt.listMapLines lineOf (Stmt.listNumbered start body) = body
  | [], _ => rfl
  | s :: rest, start => by
    rw [Stmt.listNumbered, Stmt.listMapLines, Stmt.mapLines_numbered s,
      Stmt.listMapLines_numbered rest]

/-- With their lines back, numbered methods are what they were. -/
theorem FunctionDecl.listMapLines_numbered : (methods : List FunctionDecl) → ∀ start,
    FunctionDecl.listMapLines lineOf (FunctionDecl.listNumbered start methods) = methods
  | [], _ => rfl
  | ⟨name, params, body⟩ :: rest, start => by
    rw [FunctionDecl.listNumbered, FunctionDecl.listMapLines, FunctionDecl.mapLines,
      Name.mapLine_lineOf, map_mapLine_lineOf, Stmt.listMapLines_numbered body,
      FunctionDecl.listMapLines_numbered rest]

end

/-- With its lines back, a numbered program is the program. -/
theorem Program.mapLines_numbered (program : Program) :
    program.numbered.mapLines lineOf = program := by
  rw [Program.numbered, Program.mapLines, Stmt.listMapLines_numbered]

/-! ## The numbers of uses -/

/-- The number that a use carries. -/
def Use.number (use : Use) : Nat := numberOf use.name.line

mutual

/-- The uses of a numbered expression carry the numbers from the start on, in their order. -/
theorem Expr.numbers_uses (p : Site) : (e : Expr) → ∀ start,
    ((e.numbered start).uses p).map Use.number = List.range' start e.useCount
  | .literal value line, _ => by simp [Expr.numbered, Expr.uses, Expr.useCount]
  | .unary operator operand, start => by
    simp [Expr.numbered, Expr.uses, Expr.useCount, Expr.numbers_uses p operand start]
  | .binary left operator right, start => by
    simp [Expr.numbered, Expr.uses, Expr.useCount, Expr.numbers_uses p left,
      Expr.numbers_uses p right]
  | .group inner, start => by
    simp [Expr.numbered, Expr.uses, Expr.useCount, Expr.numbers_uses p inner start]
  | .reference name, start => by
    simp [Expr.numbered, Expr.uses, Expr.useCount, Use.number, Name.mapLine]
  | .assign name value, start => by
    simp [Expr.numbered, Expr.uses, Expr.useCount, Use.number, Name.mapLine,
      Expr.numbers_uses p value, List.range'_concat]
  | .call callee arguments line, start => by
    simp [Expr.numbered, Expr.uses, Expr.useCount, Expr.numbers_uses p callee,
      Expr.numbers_listUses p arguments]
  | .get object property, start => by
    simp [Expr.numbered, Expr.uses, Expr.useCount, Expr.numbers_uses p object start]
  | .set object property value, start => by
    simp [Expr.numbered, Expr.uses, Expr.useCount, Expr.numbers_uses p object,
      Expr.numbers_uses p value]
  | .this line, _ => by simp [Expr.numbered, Expr.uses, Expr.useCount]

/-- The uses of numbered expressions carry the numbers from the start on, in their order. -/
theorem Expr.numbers_listUses (p : Site) : (es : List Expr) → ∀ start,
    (Expr.listUses p (Expr.listNumbered start es)).map Use.number =
      List.range' start (Expr.listUseCount es)
  | [], _ => rfl
  | e :: rest, start => by
    simp [Expr.listNumbered, Expr.listUses, Expr.listUseCount, Expr.numbers_uses p e,
      Expr.numbers_listUses p rest]

end

/-- The uses of a numbered expression that may be missing carry the numbers from the start on. -/
theorem Expr.numbers_optionUses (p : Site) (e : Option Expr) (start : Nat) :
    (Expr.optionUses p (e.map (Expr.numbered start))).map Use.number =
      List.range' start (Expr.optionUseCount e) := by
  cases e with
  | none => rfl
  | some e => exact Expr.numbers_uses p e start

mutual

/-- The uses of a numbered statement carry the numbers from the start on, in their order. -/
theorem Stmt.numbers_uses : (s : Stmt) → ∀ (p : Site) (start : Nat),
    ((s.numbered start).uses p).map Use.number = List.range' start s.useCount
  | .expression value, p, start => by
    simp [Stmt.numbered, Stmt.uses, Stmt.useCount, Expr.numbers_uses]
  | .print value, p, start => by
    simp [Stmt.numbered, Stmt.uses, Stmt.useCount, Expr.numbers_uses]
  | .declare name initial, p, start => by
    rw [Stmt.numbered, Stmt.uses, Stmt.useCount, Expr.numbers_optionUses]
  | .block body, p, start => by
    rw [Stmt.numbered, Stmt.uses, Stmt.useCount, Stmt.numbers_listUses body]
  | .branch condition thenBranch none, p, start => by
    simp [Stmt.numbered, Stmt.uses, Stmt.useCount, Expr.numbers_uses,
      Stmt.numbers_uses thenBranch]
  | .branch condition thenBranch (some elseBranch), p, start => by
    rw [Stmt.numbered, Stmt.uses, Stmt.useCount, List.map_append, List.map_append,
      Expr.numbers_uses, Stmt.numbers_uses thenBranch, Stmt.numbers_uses elseBranch,
      List.range'_append_1, List.range'_append_1]
  | .loop condition body, p, start => by
    simp [Stmt.numbered, Stmt.uses, Stmt.useCount, Expr.numbers_uses, Stmt.numbers_uses body]
  | .leave line value, p, start => by
    rw [Stmt.numbered, Stmt.uses, Stmt.useCount, Expr.numbers_optionUses]
  | .function ⟨name, params, body⟩, p, start => by
    rw [Stmt.numbered, Stmt.uses, Stmt.useCount, Stmt.numbers_listUses body]
  | .classOf ⟨name, methods⟩, p, start => by
    rw [Stmt.numbered, Stmt.uses, Stmt.useCount, FunctionDecl.numbers_listUses methods]

/-- The uses of numbered statements carry the numbers from the start on, in their order. -/
theorem Stmt.numbers_listUses : (body : List Stmt) → ∀ (p : Site) (start : Nat),
    (Stmt.listUses p (Stmt.listNumbered start body)).map Use.number =
      List.range' start (Stmt.listUseCount body)
  | [], _, _ => rfl
  | s :: rest, p, start => by
    simp [Stmt.listNumbered, Stmt.listUses, Stmt.listUseCount, Stmt.numbers_uses s,
      Stmt.numbers_listUses rest]

/-- The uses of numbered methods carry the numbers from the start on, in their order. -/
theorem FunctionDecl.numbers_listUses : (methods : List FunctionDecl) →
    ∀ (captured : List Level) (c : ClassDecl) (names : Frame) (start : Nat),
      (FunctionDecl.listUses captured c names (FunctionDecl.listNumbered start methods)).map
          Use.number = List.range' start (FunctionDecl.listUseCount methods)
  | [], _, _, _, _ => rfl
  | ⟨name, params, body⟩ :: rest, captured, c, names, start => by
    simp [FunctionDecl.listNumbered, FunctionDecl.listUses, FunctionDecl.listUseCount,
      Stmt.numbers_listUses body, FunctionDecl.numbers_listUses rest]

end

/-- The uses of a program are those of the numbered program, on their own lines. -/
theorem Program.uses_eq (program : Program) :
    program.uses = program.numbered.uses.map (Use.mapLines lineOf) := by
  rw [← Program.uses_mapLines, Program.mapLines_numbered]

/-- A use of the numbered program carries the number that it has among the uses of the program. -/
theorem Program.getElem?_uses {program : Program} {use : Use}
    (h : use ∈ program.numbered.uses) :
    program.uses[use.number]? = some (use.mapLines lineOf) := by
  obtain ⟨i, hi⟩ := List.mem_iff_getElem?.1 h
  have hnumbers := Stmt.numbers_listUses program.declarations (.top program.numbered.declarations) 0
  have hnumber := congrArg (·[i]?) hnumbers
  have hsame : (Stmt.listUses (.top program.numbered.declarations)
      (Stmt.listNumbered 0 program.declarations))[i]? = some use := hi
  simp only [List.getElem?_map, hsame, Option.map_some] at hnumber
  obtain ⟨hlt, hrange⟩ := List.getElem?_eq_some_iff.1 hnumber.symm
  rw [List.getElem_range', Nat.zero_add, Nat.one_mul] at hrange
  rw [← hrange, program.uses_eq, List.getElem?_map, hi, Option.map_some]

/-- The name of a use of the numbered program is that of the use in the program, and carries its
number. -/
theorem Use.name_eq (use : Use) :
    use.name = (use.mapLines lineOf).name.mapLine (numberedLine use.number) := by
  simp [Use.mapLines, Use.number, Name.mapLine, numberedLine_numberOf]

/-- A numbered program has a shape of the grammar just if the program has one. -/
theorem Program.wellFormed_numbered (program : Program) :
    program.numbered.wellFormed = program.wellFormed := by
  rw [← Program.wellFormed_mapLines lineOf, Program.mapLines_numbered]

/-- Numbering a program without scope issues makes none. -/
theorem Program.scopeIssues_numbered {program : Program} (h : program.scopeIssues = []) :
    program.numbered.scopeIssues = [] := by
  rw [← program.mapLines_numbered, Program.scopeIssues_mapLines] at h
  exact List.map_eq_nil_iff.1 h

end Quill

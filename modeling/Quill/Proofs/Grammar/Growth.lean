import Quill.Grammar.Program

/-!
# Problems are only ever added

A rule may record problems while it goes on, in the blocks and functions that it reads, and it may
end in a fault that nobody has recorded yet. `Parse.report` puts the two together: the problems that
are known once a rule has ended. No rule forgets a problem, and none comes between those that were
known before (`Grows`).

`Grows` is a class, so that what holds of the primitives carries over to every rule written over
them. `Rules.Grow` states it of a table of rules.
-/

namespace Quill

namespace Parse

variable {α β : Type}

/-! ## Sequencing -/

/-- What follows a result goes on from the cursor that it left. -/
theorem bind_eq_of_ok {x : Parse α} {f : α → Parse β} {c c' : Cursor} {a : α}
    (h : x c = .ok a c') : (x >>= f) c = f a c' := by
  show EStateM.bind x f c = f a c'
  simp only [EStateM.bind, h]

/-- What follows a fault is not run. -/
theorem bind_eq_of_error {x : Parse α} {f : α → Parse β} {c c' : Cursor} {fault : GrammarFault}
    (h : x c = .error fault c') : (x >>= f) c = .error fault c' := by
  show EStateM.bind x f c = .error fault c'
  simp only [EStateM.bind, h]

/-- A sequence of two rules yields a value exactly if both do. -/
theorem bind_eq_ok {x : Parse α} {f : α → Parse β} {c c' : Cursor} {b : β} :
    (x >>= f) c = .ok b c' ↔ ∃ a c₁, x c = .ok a c₁ ∧ f a c₁ = .ok b c' := by
  constructor
  · intro h
    cases hx : x c with
    | ok a c₁ =>
      rw [bind_eq_of_ok hx] at h
      exact ⟨a, c₁, rfl, h⟩
    | error fault c₁ =>
      rw [bind_eq_of_error hx] at h
      cases h
  · rintro ⟨a, c₁, hx, hf⟩
    rw [bind_eq_of_ok hx, hf]

theorem get_eq (c : Cursor) : (get : Parse Cursor) c = .ok c c := rfl

/-! ## Reports -/

/-- The problems that are known when a rule has ended: those recorded, and then the fault that it
ends in. -/
def report : EStateM.Result GrammarFault Cursor α → List Problem
  | .ok _ c => c.problems.toList
  | .error fault c => c.problems.toList ++ [.grammatical fault]

@[simp] theorem report_ok (a : α) (c : Cursor) : report (.ok a c) = c.problems.toList := rfl

@[simp] theorem report_error (fault : GrammarFault) (c : Cursor) :
    report (.error fault c : EStateM.Result GrammarFault Cursor α) =
      c.problems.toList ++ [.grammatical fault] := rfl

/-- The rule forgets no problem, and adds new ones behind those that it finds. -/
class Grows (rule : Parse α) : Prop where
  grows : ∀ c : Cursor, c.problems.toList <+: report (rule c)

instance (a : α) : Grows (pure a : Parse α) where
  grows _ := List.prefix_rfl

instance (fault : GrammarFault) : Grows (throw fault : Parse α) where
  grows c := List.prefix_append c.problems.toList _

instance : Grows (get : Parse Cursor) where
  grows _ := List.prefix_rfl

/-- One rule after another grows the problems if both do. -/
theorem Grows.bind {x : Parse α} {f : α → Parse β} [hx : Grows x] (hf : ∀ a, Grows (f a)) :
    Grows (x >>= f) where
  grows c := by
    have first := hx.grows c
    cases h : x c with
    | ok a c' =>
      rw [h] at first
      rw [bind_eq_of_ok h]
      exact List.IsPrefix.trans first ((hf a).grows c')
    | error fault c' =>
      rw [h] at first
      rw [bind_eq_of_error h]
      exact first

instance (x : Parse α) (f : α → Parse β) [Grows x] [hf : ∀ a, Grows (f a)] : Grows (x >>= f) :=
  Grows.bind hf

instance (p : Prop) [Decidable p] (x y : Parse α) [hx : Grows x] [hy : Grows y] :
    Grows (if p then x else y) := by
  split
  · exact hx
  · exact hy

end Parse

/-! ## Cursors -/

/-- A token without faults behind it. -/
def Lexed.bare (t : Token) : Lexed := ⟨t, []⟩

namespace Cursor

/-- The faults that are recorded come behind the problems so far. -/
@[simp] theorem problems_recordFaults (c : Cursor) (faults : List LexicalFault) :
    (c.recordFaults faults).problems.toList = c.problems.toList ++ faults.map Problem.lexical := by
  simp [recordFaults]

/-- The fault that is recorded comes behind the problems so far. -/
@[simp] theorem problems_recordFault (c : Cursor) (fault : GrammarFault) :
    (c.recordFault fault).problems.toList = c.problems.toList ++ [.grammatical fault] := by
  simp [recordFault]

/-- Moving past a token keeps the problems so far. -/
theorem problems_prefix_advance (c : Cursor) :
    c.problems.toList <+: c.advance.problems.toList := by
  unfold advance
  split
  · exact List.prefix_rfl
  · rw [problems_recordFaults]
    exact List.prefix_append _ _

/-- Skipping to a boundary keeps the problems so far. -/
theorem problems_prefix_recover (c : Cursor) :
    c.problems.toList <+: (Grammar.recover c).problems.toList := by
  unfold Grammar.recover
  split
  · exact List.prefix_rfl
  · rw [problems_recordFaults]
    exact List.prefix_append _ _

end Cursor

/-! ## Primitives -/

namespace Parse

variable {α : Type}

instance : Grows advance where
  grows c := c.problems_prefix_advance

instance : Grows line := by
  unfold line
  infer_instance

instance (kind : Kind) : Grows (sees kind) := by
  unfold sees kind?
  infer_instance

instance : Grows atEnd := by
  unfold atEnd
  infer_instance

/-- What `acceptIf?` does, by the token that is next. -/
theorem acceptIf?_eq (test : Kind → Bool) (c : Cursor) :
    acceptIf? test c =
      match c.current? with
      | some t => if test t.kind then .ok (some t) c.advance else .ok none c
      | none => .ok none c := by
  unfold acceptIf?
  rw [bind_eq_of_ok (get_eq c)]
  cases c.current? with
  | none => rfl
  | some t =>
    dsimp only
    split
    · rfl
    · rfl

instance (test : Kind → Bool) : Grows (acceptIf? test) where
  grows c := by
    rw [acceptIf?_eq]
    cases c.current? with
    | none => exact List.prefix_rfl
    | some t =>
      dsimp only
      split
      · exact c.problems_prefix_advance
      · exact List.prefix_rfl

instance (kind : Kind) : Grows (accept kind) := by
  unfold accept
  infer_instance

instance (cause : GrammarCause) : Grows (failWith cause : Parse α) := by
  unfold failWith
  infer_instance

instance (cause : Option String → GrammarCause) : Grows (failAt cause : Parse α) := by
  unfold failAt
  infer_instance

instance (kind : Kind) (what : Expectation) : Grows (expect kind what) := by
  refine Grows.bind fun found => ?_
  split
  · infer_instance
  · infer_instance

instance (what : Expectation) : Grows (expectName what) := by
  unfold expectName
  infer_instance

end Parse

/-! ## Rules -/

/-- Every rule of the table forgets no problem. -/
class Rules.Grow (rules : Rules) : Prop where
  statement : Parse.Grows rules.statement
  function : Parse.Grows rules.function
  expression : Parse.Grows rules.expression
  unary : Parse.Grows rules.unary

namespace Grammar

open Parse

variable {α : Type} (rules : Rules) [h : rules.Grow]

instance : Grows rules.statement := h.statement

instance : Grows rules.function := h.function

instance : Grows rules.expression := h.expression

instance : Grows rules.unary := h.unary

instance (item : Parse α) [Grows item] (tooMany : GrammarCause) (fuel count : Nat) :
    Grows (separatedAtFuel item tooMany fuel count) := by
  induction fuel generalizing count with
  | zero => exact inferInstanceAs (Grows (pure []))
  | succ fuel ih =>
    unfold separatedAtFuel
    infer_instance

instance (rounds : Nat) (item : Parse α) [Grows item] (tooMany : GrammarCause) :
    Grows (separated rounds item tooMany) := by
  unfold separated
  infer_instance

instance : Grows (primary rules) := by
  refine Grows.bind fun c => ?_
  split
  · infer_instance
  · split
    · infer_instance
    · split
      all_goals infer_instance

instance (fuel : Nat) (e : Expr) : Grows (accessesAtFuel rules fuel e) := by
  induction fuel generalizing e with
  | zero => exact inferInstanceAs (Grows (pure e))
  | succ fuel ih =>
    unfold accessesAtFuel
    infer_instance

instance : Grows (call rules) := by
  unfold call
  infer_instance

instance : Grows (unary rules) := by
  refine Grows.bind fun found => ?_
  split
  · infer_instance
  · infer_instance

instance (isOperator : Kind → Bool) (operand : Parse Expr) [Grows operand] (fuel : Nat)
    (left : Expr) : Grows (chainAtFuel isOperator operand fuel left) := by
  induction fuel generalizing left with
  | zero => exact inferInstanceAs (Grows (pure left))
  | succ fuel ih =>
    refine Grows.bind fun found => ?_
    split
    · infer_instance
    · infer_instance

instance (rounds : Nat) (isOperator : Kind → Bool) (operand : Parse Expr) [Grows operand] :
    Grows (chain rounds isOperator operand) := by
  unfold chain
  infer_instance

instance : Grows (factor rules) := by
  unfold factor
  infer_instance

instance : Grows (term rules) := by
  unfold term
  infer_instance

instance : Grows (comparison rules) := by
  unfold comparison
  infer_instance

instance : Grows (equality rules) := by
  unfold equality
  infer_instance

/-- What an expression does behind its left side. -/
theorem grows_assignmentBehind (left : Expr) (found : Option Token) :
    Grows (match found with
      | none => pure left
      | some equal => do
        let value ← rules.expression
        match assignmentTo? left value with
        | some e => return e
        | none => throw ⟨.invalidTarget, equal.line⟩) := by
  split
  · infer_instance
  · refine Grows.bind fun value => ?_
    split
    · infer_instance
    · infer_instance

instance : Grows (expression rules) :=
  Grows.bind fun left => Grows.bind (grows_assignmentBehind rules left)

/-- A rule that recovers always yields, and what it adds are the fault and the lexical faults behind
the tokens that it passes. -/
instance (rule : Parse α) [hrule : Grows rule] : Grows (recovering rule) where
  grows c := by
    have first := hrule.grows c
    unfold recovering
    cases h : rule c with
    | ok a c' =>
      rw [h] at first
      exact first
    | error fault c' =>
      rw [h] at first
      refine List.IsPrefix.trans first ?_
      rw [report_error, ← Cursor.problems_recordFault]
      exact Cursor.problems_prefix_recover _

instance (function : Parse FunctionDecl) [Grows function] (fuel : Nat) :
    Grows (methodsAtFuel function fuel) := by
  induction fuel with
  | zero => exact inferInstanceAs (Grows (pure []))
  | succ fuel ih =>
    unfold methodsAtFuel
    infer_instance

instance : Grows (classDecl rules) := by
  unfold classDecl
  infer_instance

instance : Grows (variableDecl rules) := by
  unfold variableDecl
  infer_instance

instance : Grows (declarationRule rules) := by
  unfold declarationRule
  infer_instance

instance : Grows (declaration rules) := by
  unfold declaration
  infer_instance

instance (stop : Parse Bool) [Grows stop] (fuel : Nat) :
    Grows (declarationsAtFuel rules stop fuel) := by
  induction fuel with
  | zero => exact inferInstanceAs (Grows (pure []))
  | succ fuel ih =>
    unfold declarationsAtFuel
    infer_instance

instance : Grows blockEnds := by
  unfold blockEnds
  infer_instance

instance : Grows (block rules) := by
  unfold block
  infer_instance

instance : Grows (function rules) := by
  unfold function
  infer_instance

instance : Grows (branch rules) := by
  unfold branch
  infer_instance

instance : Grows (loop rules) := by
  unfold loop
  infer_instance

instance (line : Nat) : Grows (leave rules line) := by
  unfold leave
  infer_instance

instance : Grows (statement rules) := by
  refine Grows.bind fun c => ?_
  split
  all_goals infer_instance

end Grammar

/-! ## Levels -/

namespace Rules

/-- The rules over those one level further in, without a count of the levels that are open. -/
def outward (inner : Rules) : Rules where
  rounds := inner.rounds
  statement := Grammar.statement inner
  function := Grammar.function inner
  expression := Grammar.expression inner
  unary := Grammar.unary inner

/-- The rules when so many levels are left, without a count of those that are open. -/
def atLevels (rounds : Nat) : (levels : Nat) → Rules
  | 0 => exhausted rounds
  | levels + 1 => outward (atLevels rounds levels)

instance (rounds : Nat) : (exhausted rounds).Grow where
  statement := inferInstanceAs (Parse.Grows (Parse.failAt .tooDeep))
  function := inferInstanceAs (Parse.Grows (Parse.failAt .tooDeep))
  expression := inferInstanceAs (Parse.Grows (Parse.failAt .tooDeep))
  unary := inferInstanceAs (Parse.Grows (Parse.failAt .tooDeep))

instance (inner : Rules) [inner.Grow] : inner.outward.Grow where
  statement := inferInstanceAs (Parse.Grows (Grammar.statement inner))
  function := inferInstanceAs (Parse.Grows (Grammar.function inner))
  expression := inferInstanceAs (Parse.Grows (Grammar.expression inner))
  unary := inferInstanceAs (Parse.Grows (Grammar.unary inner))

/-- However many levels are left, no rule forgets a problem. -/
instance atLevels_grow (rounds levels : Nat) : (atLevels rounds levels).Grow := by
  induction levels with
  | zero => exact inferInstanceAs (exhausted rounds).Grow
  | succ levels ih => exact inferInstanceAs (atLevels rounds levels).outward.Grow

@[simp] theorem rounds_atLevels (rounds levels : Nat) :
    (atLevels rounds levels).rounds = rounds := by
  induction levels with
  | zero => rfl
  | succ levels ih => exact ih

end Rules

end Quill

import Quill.Proofs.Grammar.Recovery

/-!
# Lexical faults are recorded as their tokens are passed

A lexical fault is kept with the token before it. Wherever the rules go, through a statement or by
recovery to a boundary, they pass a stretch of the tokens that were left, and of lexical faults they
record those behind the tokens of this stretch and no others, in order (`Cursor.Moves`). At the end
of the source every token has been passed. So the lexical faults that are recorded are all those of
the source, whatever the grammar makes of the tokens between them (`lexicalFaults_topLevel`).
-/

namespace Quill

/-- The lexical fault that a problem is. -/
def Problem.lexical? : Problem → Option LexicalFault
  | .lexical fault => some fault
  | .grammatical _ => none

namespace Cursor

/-- The lexical faults that are recorded. -/
def lexicalFaults (c : Cursor) : List LexicalFault :=
  c.problems.toList.filterMap Problem.lexical?

@[simp] theorem lexicalFaults_recordFaults (c : Cursor) (faults : List LexicalFault) :
    (c.recordFaults faults).lexicalFaults = c.lexicalFaults ++ faults := by
  have hall : (faults.map Problem.lexical).filterMap Problem.lexical? = faults := by
    rw [List.filterMap_map]
    exact List.filterMap_some
  rw [lexicalFaults, problems_recordFaults, List.filterMap_append, hall, lexicalFaults]

@[simp] theorem lexicalFaults_recordFault (c : Cursor) (fault : GrammarFault) :
    (c.recordFault fault).lexicalFaults = c.lexicalFaults := by
  rw [lexicalFaults, problems_recordFault, List.filterMap_append]
  exact List.append_nil _

/-- Between the cursors a stretch of tokens is passed, and the faults behind them are recorded. -/
def Moves (c c' : Cursor) : Prop :=
  ∃ passed, c.upcoming = passed ++ c'.upcoming ∧
    c'.lexicalFaults = c.lexicalFaults ++ passed.flatMap Lexed.faults

namespace Moves

variable {c c' c'' : Cursor}

/-- A cursor that differs in other things than tokens and faults has not moved. -/
theorem of_eq (hupcoming : c'.upcoming = c.upcoming)
    (hfaults : c'.lexicalFaults = c.lexicalFaults) : c.Moves c' :=
  ⟨[], hupcoming.symm, by rw [hfaults, List.flatMap_nil, List.append_nil]⟩

/-- Standing still is moving past no tokens. -/
theorem refl (c : Cursor) : c.Moves c := of_eq rfl rfl

/-- Moving on from where a move has come to is one move. -/
theorem trans (h : c.Moves c') (h' : c'.Moves c'') : c.Moves c'' := by
  obtain ⟨first, hupcoming, hfaults⟩ := h
  obtain ⟨second, hupcoming', hfaults'⟩ := h'
  refine ⟨first ++ second, ?_, ?_⟩
  · rw [hupcoming, hupcoming', List.append_assoc]
  · rw [hfaults', hfaults, List.flatMap_append, List.append_assoc]

/-- Recording the faults behind the tokens that are passed is a move. -/
theorem of_recordFaults {passed left : List Lexed} (h : c.upcoming = passed ++ left) :
    c.Moves (Cursor.recordFaults { c with upcoming := left } (passed.flatMap Lexed.faults)) :=
  ⟨passed, h, lexicalFaults_recordFaults _ _⟩

end Moves

/-- Recording a fault of the grammar moves past no token. -/
theorem moves_recordFault (c : Cursor) (fault : GrammarFault) : c.Moves (c.recordFault fault) :=
  .of_eq rfl (c.lexicalFaults_recordFault fault)

/-- Moving past a token records the faults behind it. -/
theorem moves_advance (c : Cursor) : c.Moves c.advance := by
  unfold advance
  cases h : c.upcoming with
  | nil => exact .refl c
  | cons passed rest =>
    have hstretch : c.upcoming = [passed] ++ rest := h
    have hmove := Moves.of_recordFaults hstretch
    rwa [List.flatMap_singleton] at hmove

/-- What recovery passes and what it leaves are all that there was. -/
theorem toBoundary_append (passed : Lexed) (rest : List Lexed) :
    (Grammar.toBoundary passed rest).1 ++ (Grammar.toBoundary passed rest).2 = rest := by
  induction rest generalizing passed with
  | nil => rfl
  | cons t rest ih =>
    rw [Grammar.toBoundary]
    split
    · rfl
    · exact congrArg (t :: ·) (ih t)

/-- Skipping to a boundary records the faults behind every token that is skipped. -/
theorem moves_recover (c : Cursor) : c.Moves (Grammar.recover c) := by
  unfold Grammar.recover
  cases h : c.upcoming with
  | nil => exact .refl c
  | cons t rest =>
    apply Moves.of_recordFaults
    rw [h, List.cons_append, toBoundary_append]

end Cursor

/-! ## Rules -/

namespace Parse

variable {α β : Type}

/-- However the rule ends, it has passed tokens and recorded the faults behind them. -/
def Moves ⦃α : Type⦄ (rule : Parse α) : Prop :=
  ∀ c : Cursor, c.Moves (ending (rule c))

/-- Rules one after another move if each of them does. -/
theorem Moves.bind {x : Parse α} {f : α → Parse β} (hx : Moves x) (hf : ∀ a, Moves (f a)) :
    Moves (x >>= f) := by
  intro c
  have hfirst := hx c
  cases hread : x c with
  | error fault c' =>
    rw [hread] at hfirst
    rwa [bind_eq_of_error hread]
  | ok a c' =>
    rw [hread] at hfirst
    rw [bind_eq_of_ok hread]
    exact hfirst.trans (hf a c')

/-- Moving is kept by all the ways in which rules are put together. -/
theorem compositional_moves : Compositional Moves where
  pure _ c := .refl c
  throw _ c := .refl c
  get c := .refl c
  advance c := c.moves_advance
  bind := Moves.bind

/-- A rule that is recovered from moves if the rule does. -/
theorem moves_recovering {rule : Parse α} (h : Moves rule) : Moves (Grammar.recovering rule) := by
  intro c
  have hrule := h c
  unfold Grammar.recovering
  cases hread : rule c with
  | ok a c' =>
    rw [hread] at hrule
    exact hrule
  | error fault c' =>
    rw [hread] at hrule
    exact (hrule.trans (c'.moves_recordFault fault)).trans (Cursor.moves_recover _)

end Parse

namespace Grammar

open Parse

variable {rules : Rules}

/-- Declarations one after another move if the rules inside do. -/
theorem moves_declarationsAtFuel (h : rules.All Moves) {stop : Parse Bool} (hstop : Moves stop)
    (fuel : Nat) : Moves (declarationsAtFuel rules stop fuel) := by
  rw [declarationsAtFuel_eq]
  apply compositional_moves.passesAtFuel hstop
  exact moves_recovering (compositional_moves.declarationRule h)

/-- A block moves if the rules inside do. -/
theorem moves_block (h : rules.All Moves) : Moves (block rules) :=
  compositional_moves.block (moves_declarationsAtFuel h compositional_moves.blockEnds _)

end Grammar

namespace Rules

open Parse

/-- The rules with one level more around them move if those inside do. -/
theorem moves_outward {inner : Rules} (h : inner.All Moves) : inner.outward.All Moves where
  statement := compositional_moves.statement h (Grammar.moves_block h)
  function := compositional_moves.function (Grammar.moves_block h)
  expression := compositional_moves.expression h
  unary := compositional_moves.unary h

/-- The rules with any number of levels left move. -/
theorem moves_atLevels (rounds levels : Nat) : (atLevels rounds levels).All Moves := by
  induction levels with
  | zero =>
    exact
      { statement := compositional_moves.failAt _
        function := compositional_moves.failAt _
        expression := compositional_moves.failAt _
        unary := compositional_moves.failAt _ }
  | succ levels ih => exact moves_outward ih

end Rules

/-! ## Sources -/

namespace Cursor

/-- Reading all the declarations of a program moves. -/
theorem moves_topLevel (c : Cursor) : Parse.Moves c.topLevel :=
  Grammar.moves_declarationsAtFuel (Rules.moves_atLevels _ _) Parse.compositional_moves.atEnd _

/-- At the end of the source the faults behind all tokens have been recorded. -/
theorem lexicalFaults_topLevel {c c' : Cursor} {declarations : List Stmt}
    (h : c.topLevel c = .ok declarations c') (hend : c'.upcoming = []) :
    c'.lexicalFaults = c.lexicalFaults ++ c.upcoming.flatMap Lexed.faults := by
  have hmoves := c.moves_topLevel c
  rw [h, Parse.ending_ok] at hmoves
  obtain ⟨passed, hupcoming, hfaults⟩ := hmoves
  rw [hend, List.append_nil] at hupcoming
  rw [hfaults, hupcoming]

end Cursor

namespace Lexing

/-- Sorting loses no fault and changes nothing in their order. -/
theorem faults_ofTokens (tokens : List Token) :
    (ofTokens tokens).leading ++ (ofTokens tokens).tokens.flatMap Lexed.faults =
      tokens.filterMap Token.fault? := by
  induction tokens with
  | nil => rfl
  | cons t rest ih =>
    rw [List.filterMap_cons]
    unfold ofTokens
    cases hfault : t.fault? with
    | some fault => exact congrArg (fault :: ·) ih
    | none =>
      by_cases hend : t.isEof
      · simp only [hend, if_true]
        exact ih
      · simp only [hend]
        exact ih

end Lexing

namespace Cursor

/-- The faults of all tokens are recorded already or stand behind tokens ahead. -/
theorem lexicalFaults_ofLexer (l : Lexer) :
    (ofLexer l).lexicalFaults ++ (ofLexer l).upcoming.flatMap Lexed.faults =
      l.tokens.filterMap Token.fault? := by
  unfold ofLexer
  rw [lexicalFaults_recordFaults]
  exact Lexing.faults_ofTokens l.tokens

end Cursor

end Quill

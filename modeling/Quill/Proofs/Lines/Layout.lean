import Quill.Proofs.Evaluation.PairedRuns
import Quill.Proofs.Grammar.Streams

/-!
# Layout makes no difference

Two sources with the same tokens may differ in blanks, comments and line feeds, and so in the lines
on which their tokens stand. Lines are carried through every part of the program, and no part decides
anything by them: the sources are read alike, and if they are programs, these are printed, translated
and checked alike and do the same when they are run (`layout_independent`).

Each part is brought down to one source without lines. The rules of the grammar yield the same tree
on any lines (`parseTokens_mapLine`), a tree on other lines is printed and checked alike
(`Program.scopeIssues_mapLines` and the lemmas beside it), and so it runs (`outcome_mapLines`).
-/

namespace Quill

/-- The tokens agree in kind, with the value of a literal, and in text. -/
def SameTokens (source other : String) : Prop :=
  (tokenize source).map (fun t => (t.kind, t.lexeme)) =
    (tokenize other).map fun t => (t.kind, t.lexeme)

/-- What a run comes to, up to the line of the fault that it may end with: why it has no value, if it
has none, and what its sink holds. -/
def Eval.outcomeUpToLine {α : Type} (result : EStateM.Result Stop Machine α) :
    Option Stop × Sink :=
  Prod.map (Option.map (Stop.mapLine noLine)) id (Eval.outcome result)

/-- The programs differ in lines alone: their tree and translation are the same text, the checker has
the same to say of both in the same order, and with the same sink they do the same, whatever was run
before, and with as much fuel are both finished or both unfinished. -/
structure Program.SameUpToLines (p q : Program) : Prop where
  tree : p.sexpr = q.sexpr
  translation : p.cpp = q.cpp
  issues : p.scopeIssues.map (ScopeIssue.mapLine noLine) =
    q.scopeIssues.map (ScopeIssue.mapLine noLine)
  runs : ∀ (fuel : Nat) {m m' : Machine}, m.sink = m'.sink →
    Eval.outcomeUpToLine (runAtFuel fuel p m) = Eval.outcomeUpToLine (runAtFuel fuel q m')

/-- Without lines, tokens that agree are the same. -/
theorem SameTokens.map_mapLine_eq {source other : String} (h : SameTokens source other) :
    (tokenize source).map (Token.mapLine noLine) =
      (tokenize other).map (Token.mapLine noLine) := by
  have hforget : ∀ tokens : List Token, tokens.map (Token.mapLine noLine) =
      (tokens.map fun t => (t.kind, t.lexeme)).map fun known => ⟨known.1, known.2, 0⟩ := by
    intro tokens
    rw [List.map_map]
    rfl
  rw [hforget, hforget, h]

/-- Programs that are the same without lines differ in lines alone. -/
theorem Program.sameUpToLines_of_eq {p q : Program} (h : p.mapLines noLine = q.mapLines noLine) :
    p.SameUpToLines q where
  tree := by rw [← p.sexpr_mapLines noLine, h, q.sexpr_mapLines]
  translation := by rw [← p.cpp_mapLines noLine, h, q.cpp_mapLines]
  issues := by rw [← p.scopeIssues_mapLines, h, q.scopeIssues_mapLines]
  runs := by
    intro fuel m m' hsink
    have hp := outcome_mapLines noLine fuel p hsink
    have hq := outcome_mapLines noLine fuel q (rfl : m'.sink = m'.sink)
    rw [h, hq] at hp
    exact hp.symm

/-- **Layout makes no difference.** Two sources whose tokens differ in lines alone are both programs
or neither is. If they are not, their problems are the same in the same order, up to lines. If they
are, the programs differ in lines alone. -/
theorem layout_independent {source other : String} (h : SameTokens source other) :
    (∃ problems problems', parse source = .error problems ∧ parse other = .error problems' ∧
        problems.map (Problem.mapLine noLine) = problems'.map (Problem.mapLine noLine))
      ∨ ∃ p q, parse source = .ok p ∧ parse other = .ok q ∧ p.SameUpToLines q := by
  have hsame : mapReading noLine (parse source) = mapReading noLine (parse other) := by
    rw [← parseTokens_mapLine, ← parseTokens_mapLine, h.map_mapLine_eq]
  cases hsource : parse source with
  | error problems =>
    cases hother : parse other with
    | error problems' =>
      rw [hsource, hother] at hsame
      exact .inl ⟨problems, problems', rfl, rfl, Except.error.inj hsame⟩
    | ok q =>
      rw [hsource, hother] at hsame
      cases hsame
  | ok p =>
    cases hother : parse other with
    | error problems' =>
      rw [hsource, hother] at hsame
      cases hsame
    | ok q =>
      rw [hsource, hother] at hsame
      exact .inr ⟨p, q, rfl, rfl, Program.sameUpToLines_of_eq (Except.ok.inj hsame)⟩

/-- On two lines or on one, with a comment: the program prints the same and fails for the same
variable. -/
theorem layout_independent_undefined :
    SameTokens "print 1;\nprint x;" "print 1; print x; // x" ∧
      ∃ p q, parse "print 1;\nprint x;" = .ok p ∧ parse "print 1; print x; // x" = .ok q ∧
        p.SameUpToLines q := by
  have hsame : SameTokens "print 1;\nprint x;" "print 1; print x; // x" := by
    unfold SameTokens
    decide +kernel
  have hprogram : (parse "print 1;\nprint x;").isOk = true := by decide +kernel
  refine ⟨hsame, ?_⟩
  rcases layout_independent hsame with ⟨problems, problems', herror, -, -⟩ | hprograms
  · rw [herror] at hprogram
    cases hprogram
  · exact hprograms

end Quill

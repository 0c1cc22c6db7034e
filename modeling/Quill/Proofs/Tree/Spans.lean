import Quill.Proofs.Tree.Occurrences

/-!
# Where the spelling of a part stands

What occurs in code is spelled out somewhere in the spelling of the code, in one piece: the marks of
a part are an infix of the marks of the whole (`Stmt.Occurs.spelled`, `Expr.Occurs.spelled`). So the
tokens of a source have an infix for every part of its program (`Spells.exists_infix`).
-/

namespace Quill

variable {code : Stmt → Prop}

/-! ## Lists of parts -/

/-- A statement is spelled in one piece among others. -/
theorem Stmt.infix_listSpelling {body : List Stmt} {s : Stmt} (hs : s ∈ body) :
    s.spelling <:+: listSpelling body := by
  induction body with
  | nil => cases hs
  | cons first rest ih =>
    rw [listSpelling]
    rcases List.mem_cons.1 hs with rfl | hs
    · exact List.infix_append_left
    · exact (ih hs).trans (List.suffix_append _ _).isInfix

/-- An item is spelled in one piece in its list. -/
theorem infix_commaSeparated {lists : List (List Mark)} {marks : List Mark} (h : marks ∈ lists) :
    marks <:+: commaSeparated lists := by
  induction lists with
  | nil => cases h
  | cons first rest ih =>
    cases rest with
    | nil =>
      rw [List.mem_singleton.1 h]
      exact List.infix_rfl
    | cons second others =>
      have hsplit : commaSeparated (first :: second :: others) =
          first ++ .symbol .comma :: commaSeparated (second :: others) := rfl
      rw [hsplit]
      rcases List.mem_cons.1 h with rfl | h
      · exact List.infix_append_left
      · refine (ih h).trans ?_
        exact (List.suffix_cons _ _).isInfix.trans (List.suffix_append _ _).isInfix

/-- A method is spelled in one piece among others. -/
theorem FunctionDecl.infix_methodSpelling {methods : List FunctionDecl} {f : FunctionDecl}
    (hf : f ∈ methods) : f.spelling <:+: methodSpelling methods := by
  induction methods with
  | nil => cases hf
  | cons first rest ih =>
    have hsplit : methodSpelling (first :: rest) =
        [.gap, .word .fnWord] ++ first.spelling ++ methodSpelling rest := rfl
    rw [hsplit]
    rcases List.mem_cons.1 hf with rfl | hf
    · exact List.infix_append _ _ _
    · exact (ih hf).trans (List.suffix_append _ _).isInfix

/-- A statement is spelled in one piece in the body of its function. -/
theorem FunctionDecl.infix_body {f : FunctionDecl} {s : Stmt} (hs : s ∈ f.body) :
    s.spelling <:+: f.spelling := by
  obtain ⟨name, params, body⟩ := f
  refine (Stmt.infix_listSpelling hs).trans ⟨.name name :: .symbol .leftParen
    :: commaSeparated (params.map fun p => [.name p]) ++ [.symbol .rightParen, .symbol .leftBrace],
    [.symbol .rightBrace], ?_⟩
  simp [spelling]

/-! ## Parts of code -/

/-- The marks stand in one piece in the spelling of a statement of the code. -/
def SpelledIn (code : Stmt → Prop) (marks : List Mark) : Prop :=
  ∃ top, code top ∧ marks <:+: top.spelling

/-- A part of what stands in one piece stands in one piece. -/
theorem SpelledIn.part {whole part : List Mark} (h : SpelledIn code whole)
    (hpart : part <:+: whole) : SpelledIn code part := by
  obtain ⟨top, htop, hwhole⟩ := h
  exact ⟨top, htop, hpart.trans hwhole⟩

/-- What holds of all marks in the code holds of the marks that stand in it. -/
theorem SpelledIn.marks {marks : List Mark} (h : SpelledIn code marks) {P : Mark → Prop}
    (hcode : ∀ s, code s → ∀ mark ∈ s.spelling, P mark) : ∀ mark ∈ marks, P mark := by
  obtain ⟨top, htop, hwhole⟩ := h
  exact fun mark hmark => hcode top htop mark (hwhole.subset hmark)

/-- A statement that occurs is spelled in one piece in the code. -/
theorem Stmt.Occurs.spelled {s : Stmt} (h : s.Occurs code) : SpelledIn code s.spelling := by
  induction h with
  | top h => exact ⟨_, h, List.infix_rfl⟩
  | block _ hs ih =>
    refine ih.part ((Stmt.infix_listSpelling hs).trans ?_)
    exact ⟨[.symbol .leftBrace], [.symbol .rightBrace], rfl⟩
  | @thenBranch condition thenBranch elseBranch _ ih =>
    refine ih.part ?_
    cases elseBranch with
    | none =>
      refine ⟨.word .ifWord :: .symbol .leftParen :: condition.spelling ++ [.symbol .rightParen],
        [], ?_⟩
      simp [Stmt.spelling]
    | some elseBranch =>
      refine ⟨.word .ifWord :: .symbol .leftParen :: condition.spelling ++ [.symbol .rightParen],
        .word .elseWord :: elseBranch.spelling, ?_⟩
      simp [Stmt.spelling]
  | @elseBranch condition thenBranch elseBranch _ ih =>
    refine ih.part ⟨.word .ifWord :: .symbol .leftParen :: condition.spelling
      ++ .symbol .rightParen :: thenBranch.spelling ++ [.word .elseWord], [], ?_⟩
    simp [Stmt.spelling]
  | @loop condition body _ ih =>
    refine ih.part ⟨.word .whileWord :: .symbol .leftParen :: condition.spelling
      ++ [.symbol .rightParen], [], ?_⟩
    simp [Stmt.spelling]
  | function _ hs ih =>
    exact ih.part ((FunctionDecl.infix_body hs).trans (List.suffix_cons _ _).isInfix)
  | @method c f s _ hf hs ih =>
    obtain ⟨className, methods⟩ := c
    have hmethods := (FunctionDecl.infix_body hs).trans (FunctionDecl.infix_methodSpelling hf)
    refine ih.part (hmethods.trans ?_)
    exact ⟨[.word .classWord, .name className, .symbol .leftBrace], [.gap, .symbol .rightBrace],
      rfl⟩

/-- A function that occurs is spelled in one piece in the code. -/
theorem FunctionDecl.Occurs.spelled {f : FunctionDecl} (h : f.Occurs code) :
    SpelledIn code f.spelling := by
  cases h with
  | function h => exact h.spelled.part (List.suffix_cons _ _).isInfix
  | @method c _ h hf =>
    obtain ⟨className, methods⟩ := c
    refine h.spelled.part ((infix_methodSpelling hf).trans ?_)
    exact ⟨[.word .classWord, .name className, .symbol .leftBrace], [.gap, .symbol .rightBrace],
      rfl⟩

/-- An expression that occurs is spelled in one piece in the code. -/
theorem Expr.Occurs.spelled {e : Expr} (h : e.Occurs code) : SpelledIn code e.spelling := by
  induction h with
  | effect h => exact h.spelled.part (List.prefix_append _ _).isInfix
  | printed h => exact h.spelled.part ⟨[.word .printWord], [.symbol .semicolon], rfl⟩
  | @initial name e h =>
    exact h.spelled.part
      ⟨[.word .letWord, .name name, .symbol .equal], [.symbol .semicolon], rfl⟩
  | @condition e thenBranch elseBranch h =>
    refine h.spelled.part ?_
    cases elseBranch with
    | none =>
      refine ⟨[.word .ifWord, .symbol .leftParen], .symbol .rightParen :: thenBranch.spelling, ?_⟩
      simp [Stmt.spelling]
    | some elseBranch =>
      refine ⟨[.word .ifWord, .symbol .leftParen], .symbol .rightParen :: thenBranch.spelling
        ++ .word .elseWord :: elseBranch.spelling, ?_⟩
      simp [Stmt.spelling]
  | @loopCondition e body h =>
    refine h.spelled.part ⟨[.word .whileWord, .symbol .leftParen],
      .symbol .rightParen :: body.spelling, ?_⟩
    simp [Stmt.spelling]
  | @result line e h =>
    exact h.spelled.part ⟨[.placed (.keyword .returnWord) line], [.symbol .semicolon], rfl⟩
  | operand _ ih => exact ih.part (List.suffix_cons _ _).isInfix
  | left _ ih => exact ih.part (List.prefix_append _ _).isInfix
  | @right left operator e _ ih =>
    refine ih.part ⟨left.spelling ++ [.operator operator], [], ?_⟩
    simp [spelling]
  | inner _ ih => exact ih.part ⟨[.symbol .leftParen], [.symbol .rightParen], rfl⟩
  | @assigned name e _ ih =>
    refine ih.part ⟨[.name name, .symbol .equal], [], ?_⟩
    simp [spelling]
  | @callee e arguments line _ ih =>
    refine ih.part ⟨[], .symbol .leftParen :: commaSeparated (listSpelling arguments)
      ++ [.placed (.symbol .rightParen) line], ?_⟩
    simp [spelling]
  | @argument callee arguments line e _ he ih =>
    have hlist := List.mem_map_of_mem (f := spelling) he
    rw [← listSpelling_eq_map] at hlist
    refine ih.part ((infix_commaSeparated hlist).trans
      ⟨callee.spelling ++ [.symbol .leftParen], [.placed (.symbol .rightParen) line], ?_⟩)
    simp [spelling]
  | ofGet _ ih => exact ih.part (List.prefix_append _ _).isInfix
  | ofSet _ ih => exact ih.part (List.prefix_append _ _).isInfix
  | @set object property e _ ih =>
    refine ih.part ⟨object.spelling ++ [.symbol .dot, .name property, .symbol .equal], [], ?_⟩
    simp [spelling]

/-! ## Tokens of parts -/

/-- What stands in one piece in a declaration stands so in the program. -/
theorem SpelledIn.infix_program {program : Program} {marks : List Mark}
    (h : SpelledIn (· ∈ program.declarations) marks) : marks <:+: program.spelling := by
  obtain ⟨top, htop, hwhole⟩ := h
  exact hwhole.trans (Stmt.infix_listSpelling htop)

/-- Tokens that are spelled by marks have an infix that is spelled by an infix of the marks. -/
theorem Spells.exists_infix {marks part : List Mark} {tokens : List Token}
    (h : Spells marks tokens) (hpart : part <:+: marks) :
    ∃ before span after, tokens = before ++ span ++ after ∧ Spells part span := by
  obtain ⟨first, last, rfl⟩ := hpart
  obtain ⟨front, after, rfl, hfront, -⟩ := spells_append.1 h
  obtain ⟨before, span, rfl, -, hspan⟩ := spells_append.1 hfront
  exact ⟨before, span, after, rfl, hspan⟩

end Quill

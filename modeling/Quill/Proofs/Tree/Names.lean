import Quill.Proofs.Tree.Spans

/-!
# Names in programs

What holds of all marks in the spelling of code holds of the names that it binds or assigns to
(`Targets.mark`). In a program that is read from a source, names are identifiers, and no identifier
is a reserved word. So programs neither declare the receiver's name nor assign to it
(`not_targets_receiverName`).
-/

namespace Quill

variable {code : Stmt → Prop} {P : Mark → Prop}

/-! ## Marks of parts -/

/-- The marks of an item are among those of its list. -/
theorem mem_commaSeparated {lists : List (List Mark)} {marks : List Mark} (h : marks ∈ lists)
    {mark : Mark} (hmark : mark ∈ marks) : mark ∈ commaSeparated lists :=
  (infix_commaSeparated h).subset hmark

/-- What holds of all marks of a function holds of its parameters. -/
theorem FunctionDecl.mark_param {f : FunctionDecl} (h : ∀ mark ∈ f.spelling, P mark)
    {name : Name} (hname : name ∈ f.params) : P (.name name) := by
  obtain ⟨_, params, body⟩ := f
  have hlist : [Mark.name name] ∈ params.map fun p => [Mark.name p] := List.mem_map_of_mem hname
  have hmem := mem_commaSeparated hlist List.mem_cons_self
  refine h _ ?_
  simp [spelling, hmem]

/-- What holds of all marks of a function holds of its name. -/
theorem FunctionDecl.mark_name {f : FunctionDecl} (h : ∀ mark ∈ f.spelling, P mark) :
    P (.name f.name) := by
  obtain ⟨name, params, body⟩ := f
  exact h _ (by simp [spelling])

/-! ## Names that are bound or assigned to -/

/-- A name that code binds or assigns to is marked as a name. -/
theorem Targets.mark (hcode : ∀ s, code s → ∀ mark ∈ s.spelling, P mark) {name : String}
    (h : Targets code name) : ∃ n : Name, n.text = name ∧ P (.name n) := by
  cases h with
  | assigned h => exact ⟨_, rfl, h.spelled.marks hcode _ (by simp [Expr.spelling])⟩
  | «variable» h => exact ⟨_, rfl, h.spelled.marks hcode _ (by simp [Stmt.spelling])⟩
  | function h =>
    exact ⟨_, rfl, FunctionDecl.mark_name ((FunctionDecl.Occurs.function h).spelled.marks hcode)⟩
  | @classOf c h =>
    obtain ⟨className, methods⟩ := c
    exact ⟨_, rfl, h.spelled.marks hcode _ (by simp [Stmt.spelling])⟩
  | parameter h hname => exact ⟨_, rfl, FunctionDecl.mark_param (h.spelled.marks hcode) hname⟩

/-- The mark is no name that is a reserved word. -/
def Mark.NoReservedName (mark : Mark) : Prop :=
  ∀ n, mark = .name n → Keyword.ofText? n.text = none

/-- Spelled tokens are what the marks describe, each of them. -/
theorem Spells.exists_admitted {marks : List Mark} {tokens : List Token} (h : Spells marks tokens)
    {mark : Mark} (hmark : mark ∈ marks) (hgap : mark ≠ .gap) : ∃ t ∈ tokens, mark.Admits t := by
  obtain ⟨before, after, rfl⟩ := List.append_of_mem hmark
  obtain ⟨ts, us, rfl, -, hus⟩ := spells_append.1 h
  obtain ⟨t, rest, rfl, ht, -⟩ := hus.exists_cons hgap
  exact ⟨t, List.mem_append_right _ List.mem_cons_self, ht⟩

/-- No name in a program that is parsed is a reserved word. -/
theorem noReservedName_of_parse {source : String} {program : Program}
    (h : parse source = .ok program) : ∀ mark ∈ program.spelling, mark.NoReservedName := by
  rintro _ hmark n rfl
  obtain ⟨hspells, -⟩ := spells_of_parse h
  obtain ⟨t, ht, hkind, hlexeme, -⟩ := hspells.exists_admitted hmark (by simp)
  rw [← hlexeme]
  exact (wellSpelled_of_mem_tokenize (List.mem_filter.1 ht).1).name hkind

/-- Programs do not bind the receiver's name and do not assign to it. -/
theorem not_targets_receiverName : ¬Targets Stmt.Parsed receiverName := by
  intro h
  obtain ⟨n, hn, hmark⟩ := h.mark (P := Mark.NoReservedName) (by
    rintro s ⟨source, program, hparse, hs⟩ mark hmark
    exact noReservedName_of_parse hparse mark ((Stmt.infix_listSpelling hs).subset hmark))
  have hnone := hmark n rfl
  rw [hn] at hnone
  have hreserved : Keyword.ofText? receiverName = some .thisWord := rfl
  cases hreserved.symm.trans hnone

end Quill

import Quill.Proofs.Grammar.Streams
import Quill.Proofs.Tree.Names

/-!
# The words of programs

The names, operators and constants of a program stand in its source, so they follow the lexical
rules: a name is a word and not a reserved one, an operator has the text of its symbol, and a
constant has the value of some lexeme. `Mark.Legible` says this of a mark, and the marks of all that
occurs in programs are legible (`Stmt.Parsed.legible`, `Expr.Occurs.legible`).
-/

namespace Quill

/-- Lexemes follow the lexical rules. -/
theorem Decomposition.Lexical.spelled {d : Decomposition} (h : d.Lexical) :
    ∀ p ∈ d.pieces, p.kind ≠ .unknown → Spelled p.kind p.lexeme := by
  induction h with
  | ending => exact nofun
  | unclosed =>
    intro p hp hknown
    rw [List.mem_singleton.1 hp] at hknown
    exact absurd rfl hknown
  | cons _ hspelled _ _ ih => exact List.forall_mem_cons.2 ⟨fun _ => hspelled, ih⟩

/-- The tokens of a source follow the lexical rules, but for those that mark faults and its end. -/
theorem spelled_of_mem_tokenize {source : String} {t : Token} (h : t ∈ tokenize source)
    (hknown : t.kind ≠ .unknown) (hend : t.kind ≠ .eof) : Spelled t.kind t.lexeme.toList := by
  have htokens := Lexer.tokensAtFuel_eq source.toList.length (.ofSource source) rfl (Nat.le_refl _)
  obtain ⟨hlexical, -⟩ :=
    Decomposition.lexical_ofCharsAtFuel source.toList.length source.toList (Nat.le_refl _)
  have hmem := List.mem_map_of_mem (f := fun t : Token => (t.kind, t.lexeme)) h
  rw [show (tokenize source).map (fun t => (t.kind, t.lexeme)) = _ from htokens,
    Decomposition.tokens, List.mem_append, List.mem_singleton] at hmem
  rcases hmem with hmem | hmem
  · obtain ⟨p, hp, hpair⟩ := List.mem_map.1 hmem
    obtain ⟨hkind, hlexeme⟩ := Prod.mk.inj hpair
    rw [← hkind, ← hlexeme, String.toList_ofList]
    exact hlexical.spelled p hp (hkind ▸ hknown)
  · exact absurd (Prod.mk.inj hmem).1 hend

/-! ## Words and operators -/

/-- The text is a word that a name may be. -/
def IsWord (text : String) : Prop :=
  Spelled .identifier text.toList

/-- The token is the operator that the symbol is. -/
structure Token.IsOperator (t : Token) (s : Symbol) : Prop where
  kind : t.kind = .symbol s
  text : t.lexeme = s.text

namespace IsWord

variable {text : String}

/-- A word has a first character, which words start with. -/
theorem exists_cons (h : IsWord text) :
    ∃ c cs, text.toList = c :: cs ∧ isWordStart c = true := by
  rw [IsWord] at h
  generalize text.toList = lexeme at h ⊢
  cases h with
  | identifier start => exact ⟨_, _, rfl, start⟩

/-- All characters of a word may stand in one. -/
theorem isWordRest (h : IsWord text) : ∀ c ∈ text.toList, isWordRest c = true := by
  rw [IsWord] at h
  generalize text.toList = lexeme at h ⊢
  cases h with
  | identifier start rest =>
    exact List.forall_mem_cons.2 ⟨isWordRest_of_isWordStart start, rest⟩

end IsWord

/-- Different symbols have different texts. -/
theorem Symbol.text_injective : Function.Injective Symbol.text := fun s s' h =>
  have hs : Spelled (.symbol s) s.text.toList := .symbol String.ofList_toList
  Kind.symbol.inj (hs.unique (.symbol (by rw [String.ofList_toList, h])))

/-! ## Legible marks -/

/-- Unless it is a gap, the mark describes some token of some source. -/
def Mark.Legible (mark : Mark) : Prop :=
  mark ≠ .gap → ∃ source, ∃ t ∈ tokenize source, mark.Admits t

/-- A name is a word that is not reserved. -/
theorem Mark.Legible.name {n : Name} (h : (Mark.name n).Legible) : IsWord n.text := by
  obtain ⟨source, t, ht, hkind, hlexeme, -⟩ := h (by simp)
  have hspelled := spelled_of_mem_tokenize ht (by simp [hkind]) (by simp [hkind])
  rwa [hkind, hlexeme] at hspelled

/-- An operator has the text of its symbol. -/
theorem Mark.Legible.operator {t : Token} (h : (Mark.operator t).Legible) {s : Symbol}
    (hkind : t.kind = .symbol s) : t.IsOperator s := by
  obtain ⟨source, t', ht, rfl⟩ := h (by simp)
  exact ⟨hkind, (wellSpelled_of_mem_tokenize ht).text _ (by rw [hkind]; rfl)⟩

/-- The operators in front of operands. -/
theorem Mark.Legible.before {t : Token} (h : (Mark.operator t).Legible)
    (hkind : t.kind = .symbol .bang ∨ t.kind = .symbol .minus) :
    ∃ s, (s = .bang ∨ s = .minus) ∧ t.IsOperator s := by
  rcases hkind with hkind | hkind
  · exact ⟨.bang, .inl rfl, h.operator hkind⟩
  · exact ⟨.minus, .inr rfl, h.operator hkind⟩

/-- The operators between operands. -/
theorem Mark.Legible.between {t : Token} (h : (Mark.operator t).Legible) {tier : Nat}
    (htier : t.kind.tier? = some tier) : ∃ s, Symbol.tier? s = some tier ∧ t.IsOperator s := by
  cases hkind : t.kind with
  | symbol s =>
    rw [hkind] at htier
    exact ⟨s, htier, h.operator hkind⟩
  | _ =>
    rw [hkind] at htier
    cases htier

/-- A constant is written as some lexeme. -/
theorem Mark.Legible.literal {value : Literal} {line : Nat}
    (h : (Mark.placed value.kind line).Legible) : ∃ lexeme, Spelled value.kind lexeme := by
  obtain ⟨source, t, ht, hkind, -⟩ := h (by simp)
  have hkinds : value.kind ≠ .unknown ∧ value.kind ≠ .eof := by
    cases value with
    | boolean b => cases b <;> simp [Literal.kind]
    | _ => simp [Literal.kind]
  have hspelled := spelled_of_mem_tokenize ht (hkind ▸ hkinds.1) (hkind ▸ hkinds.2)
  exact ⟨_, hkind ▸ hspelled⟩

/-- All of the marks are legible. -/
def Legible (marks : List Mark) : Prop :=
  ∀ mark ∈ marks, mark.Legible

@[simp] theorem legible_nil : Legible [] :=
  fun _ hmark => nomatch hmark

@[simp] theorem legible_cons {mark : Mark} {marks : List Mark} :
    Legible (mark :: marks) ↔ mark.Legible ∧ Legible marks :=
  List.forall_mem_cons

@[simp] theorem legible_append {first second : List Mark} :
    Legible (first ++ second) ↔ Legible first ∧ Legible second :=
  List.forall_mem_append

/-- A part of legible marks is legible. -/
theorem Legible.part {whole part : List Mark} (h : Legible whole) (hpart : part <:+: whole) :
    Legible part :=
  fun mark hmark => h mark (hpart.subset hmark)

/-- Every program that is parsed is legible. -/
theorem legible_of_parse {source : String} {program : Program} (h : parse source = .ok program) :
    Legible program.spelling := by
  intro mark hmark hgap
  obtain ⟨t, ht, hadmits⟩ := (spells_of_parse h).1.exists_admitted hmark hgap
  exact ⟨source, t, (List.mem_filter.1 ht).1, hadmits⟩

/-- Every statement that is parsed is legible. -/
theorem Stmt.Parsed.legible {s : Stmt} (h : s.Parsed) : Legible s.spelling := by
  obtain ⟨source, program, hparse, hs⟩ := h
  exact (legible_of_parse hparse).part (Stmt.infix_listSpelling hs)

/-- Every expression that occurs in parsed code is legible. -/
theorem Expr.Occurs.legible {e : Expr} (h : e.Occurs Stmt.Parsed) : Legible e.spelling :=
  h.spelled.marks fun _ hs => hs.legible

end Quill

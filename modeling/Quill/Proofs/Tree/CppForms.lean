import Quill.Proofs.Lines.Relabelling
import Quill.Proofs.Tree.Chunks
import Quill.Proofs.Tree.Legible

/-!
# The forms of expressions in C++

An expression has an outline, which is the expression without its lines and parentheses, and a form,
which is what it is inside of its parentheses. `Expr.Plain` describes the expressions of programs
that have no constants and call or access no assignment.

The characters that a plain expression has outside of parentheses are few (`Expr.Plain.allows`), and
what it is can be read off its chunks (`Expr.Plain.ofChunks_chunks`): an assignment has blanks, a
call ends in parentheses, a property in a word behind a point or an arrow.
-/

namespace Quill

open Chunk

/-! ## Expressions without parentheses -/

mutual

/-- The expression without its parentheses. -/
def Expr.ungrouped : Expr → Expr
  | .literal value line => .literal value line
  | .unary operator operand => .unary operator operand.ungrouped
  | .binary left operator right => .binary left.ungrouped operator right.ungrouped
  | .group inner => inner.ungrouped
  | .reference name => .reference name
  | .assign name value => .assign name value.ungrouped
  | .call callee arguments line => .call callee.ungrouped (Expr.listUngrouped arguments) line
  | .get object property => .get object.ungrouped property
  | .set object property value => .set object.ungrouped property value.ungrouped
  | .this line => .this line

/-- The expressions without their parentheses. -/
def Expr.listUngrouped : List Expr → List Expr
  | [] => []
  | e :: rest => e.ungrouped :: Expr.listUngrouped rest

end

/-- The expression without lines and parentheses. -/
def Expr.outline (e : Expr) : Expr :=
  e.ungrouped.mapLines noLine

/-- The outline of a binary expression has those of its operands. -/
theorem Expr.outline_binary (left : Expr) (operator : Token) (right : Expr) :
    (Expr.binary left operator right).outline =
      .binary left.outline (operator.mapLine noLine) right.outline :=
  rfl

/-- The outline of an assignment to a property has those of its object and value. -/
theorem Expr.outline_set (object : Expr) (property : Name) (value : Expr) :
    (Expr.set object property value).outline =
      .set object.outline (property.mapLine noLine) value.outline :=
  rfl

/-- The outline of a call has those of its callee and arguments. -/
theorem Expr.outline_call (callee : Expr) (arguments : List Expr) (line : Nat) :
    (Expr.call callee arguments line).outline = .call callee.outline (arguments.map outline) 0 := by
  have hlist : ∀ es : List Expr, listMapLines noLine (listUngrouped es) = es.map outline := by
    intro es
    induction es with
    | nil => rfl
    | cons e rest ih => rw [listUngrouped, listMapLines, ih, List.map_cons, outline]
  simp [outline, ungrouped, mapLines, hlist, noLine]

/-- What an expression is inside of its parentheses. -/
inductive Form where
  /-- A constant. -/
  | constant
  /-- An operator before its operand. -/
  | unary
  /-- An operator between its operands. -/
  | binary
  /-- A variable, read. -/
  | reference
  /-- A variable or property, written. -/
  | assignment
  /-- A call. -/
  | call
  /-- A property, read. -/
  | property
  /-- The receiver of a method. -/
  | receiver
deriving DecidableEq

/-- What the expression is. -/
def Expr.form : Expr → Form
  | .literal _ _ => .constant
  | .unary _ _ => .unary
  | .binary _ _ _ => .binary
  | .group inner => inner.form
  | .reference _ => .reference
  | .assign _ _ => .assignment
  | .call _ _ _ => .call
  | .get _ _ => .property
  | .set _ _ _ => .assignment
  | .this _ => .receiver

mutual

/-- There is no constant in the expression. -/
def Expr.isLiteralFree : Expr → Bool
  | .literal _ _ => false
  | .unary _ operand => operand.isLiteralFree
  | .binary left _ right => left.isLiteralFree && right.isLiteralFree
  | .group inner => inner.isLiteralFree
  | .reference _ => true
  | .assign _ value => value.isLiteralFree
  | .call callee arguments _ => callee.isLiteralFree && Expr.listIsLiteralFree arguments
  | .get object _ => object.isLiteralFree
  | .set object _ value => object.isLiteralFree && value.isLiteralFree
  | .this _ => true

/-- There is no constant in the expressions. -/
def Expr.listIsLiteralFree : List Expr → Bool
  | [] => true
  | e :: rest => e.isLiteralFree && Expr.listIsLiteralFree rest

end

mutual

/-- No assignment in the expression is called, or has a property of its value read or written. -/
def Expr.opensNoAssignment : Expr → Bool
  | .literal _ _ => true
  | .unary _ operand => operand.opensNoAssignment
  | .binary left _ right => left.opensNoAssignment && right.opensNoAssignment
  | .group inner => inner.opensNoAssignment
  | .reference _ => true
  | .assign _ value => value.opensNoAssignment
  | .call callee arguments _ =>
    callee.form != .assignment && callee.opensNoAssignment && Expr.listOpensNoAssignment arguments
  | .get object _ => object.form != .assignment && object.opensNoAssignment
  | .set object _ value =>
    object.form != .assignment && object.opensNoAssignment && value.opensNoAssignment
  | .this _ => true

/-- No assignment in the expressions is called, or has a property of its value read or written. -/
def Expr.listOpensNoAssignment : List Expr → Bool
  | [] => true
  | e :: rest => e.opensNoAssignment && Expr.listOpensNoAssignment rest

end

/-! ## Plain expressions -/

/-- The expression has names and operators as they are in sources, no constants, and no assignment
that is called or accessed. -/
inductive Expr.Plain : Expr → Prop
  | unary {operator operand s} (hs : s = .bang ∨ s = .minus) (hoperator : operator.IsOperator s)
    (h : Expr.Plain operand) : Expr.Plain (.unary operator operand)
  | binary {left operator right s tier} (hs : Symbol.tier? s = some tier)
    (hoperator : operator.IsOperator s) (hleft : Expr.Plain left) (hright : Expr.Plain right) :
    Expr.Plain (.binary left operator right)
  | group {inner} (h : Expr.Plain inner) : Expr.Plain (.group inner)
  | reference {name} (hname : IsWord name.text) : Expr.Plain (.reference name)
  | assign {name value} (hname : IsWord name.text) (h : Expr.Plain value) :
    Expr.Plain (.assign name value)
  | call {callee arguments line} (hopen : callee.form ≠ .assignment) (h : Expr.Plain callee)
    (harguments : ∀ e ∈ arguments, Expr.Plain e) : Expr.Plain (.call callee arguments line)
  | get {object property} (hopen : object.form ≠ .assignment) (h : Expr.Plain object)
    (hname : IsWord property.text) : Expr.Plain (.get object property)
  | set {object property value} (hopen : object.form ≠ .assignment) (h : Expr.Plain object)
    (hname : IsWord property.text) (hvalue : Expr.Plain value) :
    Expr.Plain (.set object property value)
  | this {line} : Expr.Plain (.this line)

mutual

/-- A legible expression without constants that opens no assignment is plain. -/
theorem Expr.plain : (e : Expr) → Legible e.spelling → e.wellFormed = true →
    e.isLiteralFree = true → e.opensNoAssignment = true → e.Plain
  | .literal _ _, _, _, hfree, _ => nomatch hfree
  | .unary operator operand, hlegible, hwf, hfree, hopen => by
    rw [spelling, legible_cons] at hlegible
    simp only [wellFormed, Bool.and_eq_true, Bool.or_eq_true, beq_iff_eq] at hwf
    obtain ⟨s, hs, hoperator⟩ := hlegible.1.before hwf.1.1
    exact .unary hs hoperator (plain operand hlegible.2 hwf.2 hfree hopen)
  | .binary left operator right, hlegible, hwf, hfree, hopen => by
    rw [spelling, legible_append, legible_cons] at hlegible
    obtain ⟨tier, htier, -, -, hleft, hright⟩ := wellFormed_binary hwf
    obtain ⟨s, hs, hoperator⟩ := hlegible.2.1.between htier
    simp only [isLiteralFree, opensNoAssignment, Bool.and_eq_true] at hfree hopen
    exact .binary hs hoperator (plain left hlegible.1 hleft hfree.1 hopen.1)
      (plain right hlegible.2.2 hright hfree.2 hopen.2)
  | .group inner, hlegible, hwf, hfree, hopen => by
    rw [spelling, List.cons_append, legible_cons, legible_append] at hlegible
    exact .group (plain inner hlegible.2.1 hwf hfree hopen)
  | .reference name, hlegible, _, _, _ => .reference (legible_cons.1 hlegible).1.name
  | .assign name value, hlegible, hwf, hfree, hopen => by
    simp only [spelling, legible_cons] at hlegible
    exact .assign hlegible.1.name (plain value hlegible.2.2 hwf hfree hopen)
  | .call callee arguments _, hlegible, hwf, hfree, hopen => by
    simp only [spelling, legible_append, legible_cons] at hlegible
    simp only [wellFormed, isLiteralFree, opensNoAssignment, Bool.and_eq_true,
      bne_iff_ne] at hwf hfree hopen
    refine .call hopen.1.1 (plain callee hlegible.1.1 hwf.1.1.2 hfree.1 hopen.1.2) ?_
    refine listPlain arguments (fun e he => hlegible.1.2.2.part ?_) hwf.2 hfree.2 hopen.2
    rw [listSpelling_eq_map]
    exact infix_commaSeparated (List.mem_map_of_mem he)
  | .get object property, hlegible, hwf, hfree, hopen => by
    simp only [spelling, legible_append, legible_cons] at hlegible
    simp only [wellFormed, isLiteralFree, opensNoAssignment, Bool.and_eq_true,
      bne_iff_ne] at hwf hfree hopen
    exact .get hopen.1 (plain object hlegible.1 hwf.2 hfree hopen.2) hlegible.2.2.1.name
  | .set object property value, hlegible, hwf, hfree, hopen => by
    simp only [spelling, legible_append, legible_cons] at hlegible
    simp only [wellFormed, isLiteralFree, opensNoAssignment, Bool.and_eq_true,
      bne_iff_ne] at hwf hfree hopen
    exact .set hopen.1.1 (plain object hlegible.1 hwf.1.2 hfree.1 hopen.1.2) hlegible.2.2.1.name
      (plain value hlegible.2.2.2.2 hwf.2 hfree.2 hopen.2)
  | .this _, _, _, _, _ => .this

/-- Legible expressions without constants that open no assignment are plain. -/
theorem Expr.listPlain : (es : List Expr) → (∀ e ∈ es, Legible e.spelling) →
    listWellFormed es = true → listIsLiteralFree es = true → listOpensNoAssignment es = true →
    ∀ e ∈ es, e.Plain
  | [], _, _, _, _ => nofun
  | e :: rest, hlegible, hwf, hfree, hopen => by
    simp only [listWellFormed, listIsLiteralFree, listOpensNoAssignment, Bool.and_eq_true]
      at hwf hfree hopen
    exact List.forall_mem_cons.2
      ⟨plain e (hlegible e List.mem_cons_self) hwf.1 hfree.1 hopen.1,
        listPlain rest (fun e' he' => hlegible e' (.tail _ he')) hwf.2 hfree.2 hopen.2⟩

end

/-! ## Words and operators in chunks -/

namespace IsWord

variable {text : String}

/-- No parenthesis is in a word. -/
theorem listClosed (h : IsWord text) : ListClosed (ofChars text.toList) :=
  listClosed_ofChars.2 ⟨fun hc => absurd (h.isWordRest _ hc) (by decide),
    fun hc => absurd (h.isWordRest _ hc) (by decide)⟩

/-- A word does not end in parentheses. -/
theorem getLast? (h : IsWord text) : ∃ c, (ofChars text.toList).getLast? = some (.char c) := by
  obtain ⟨c, cs, htext, -⟩ := h.exists_cons
  exact ⟨(c :: cs).getLast (List.cons_ne_nil _ _), by
    rw [htext, ofChars, List.getLast?_map, List.getLast?_eq_getLast_of_ne_nil]
    rfl⟩

end IsWord

namespace Token.IsOperator

variable {t t' : Token} {s s' : Symbol}

/-- Operators of one text are the same but for lines. -/
theorem mapLine_eq (h : t.IsOperator s) (h' : t'.IsOperator s')
    (htext : ofChars t.lexeme.toList = ofChars t'.lexeme.toList) :
    t.mapLine noLine = t'.mapLine noLine := by
  have hlexeme := String.toList_injective (ofChars_injective htext)
  have hsymbol : s = s' := Symbol.text_injective (by rw [← h.text, ← h'.text, hlexeme])
  subst hsymbol
  simp [Token.mapLine, h.kind, h'.kind, hlexeme, noLine]

/-- No blank is in an operator. -/
theorem blank_not_mem (h : t.IsOperator s) : .char ' ' ∉ ofChars t.lexeme.toList := by
  rw [h.text]
  cases s <;> simp [Symbol.text, ofChars]

/-- No operator between operands is the equals sign. -/
theorem ne_equal (h : t.IsOperator s) {tier : Nat} (hs : s.tier? = some tier) :
    ofChars t.lexeme.toList ≠ [.char '='] := by
  intro heq
  have htext : s.text = Symbol.text .equal := by
    rw [← h.text]
    exact String.toList_injective (ofChars_injective heq)
  rw [Symbol.text_injective htext] at hs
  cases hs

end Token.IsOperator

/-- Names of one text are the same apart from their lines. -/
theorem Name.mapLine_noLine_eq {name name' : Name} (h : name.text = name'.text) :
    name.mapLine noLine = name'.mapLine noLine := by
  simp [Name.mapLine, h, noLine]

/-! ## Characters outside of parentheses -/

/-- The characters among the chunks are those that were made into them. -/
theorem Chunk.char_mem_ofChars {c : Char} {cs : List Char} : char c ∈ ofChars cs ↔ c ∈ cs := by
  simp [ofChars]

/-- The characters in front of the name of a property. -/
theorem Chunk.char_mem_access {c : Char} {isReceiver : Bool} {object : List Chunk}
    (h : char c ∈ access isReceiver object) :
    Quill.isWordRest c = true ∨ c ∈ ['.', '-', '>'] ∨ char c ∈ object := by
  rw [access] at h
  split at h
  · have hletters : "this->".toList.all
        (fun c => Quill.isWordRest c || ['.', '-', '>'].contains c) = true := by
      decide
    have hletter := List.all_eq_true.1 hletters c (char_mem_ofChars.1 h)
    rw [Bool.or_eq_true, List.contains_iff_mem] at hletter
    exact hletter.imp_right .inl
  · rcases List.mem_append.1 h with h | h
    · exact .inr (.inr h)
    · cases List.mem_singleton.1 h
      exact .inr (.inl (by decide))

/-- What stands before a property is closed if the object is. -/
theorem Chunk.listClosed_access {isReceiver : Bool} {object : List Chunk} (h : ListClosed object) :
    ListClosed (access isReceiver object) := by
  rw [access]
  split
  · exact listClosed_ofChars.2 (by decide)
  · simp [h]

/-- The chunks of arguments are closed if those of each are. -/
theorem Expr.listClosed_listChunks : {es : List Expr} → (∀ e ∈ es, ListClosed e.chunks) →
    ListClosed (listChunks es)
  | [], _ => trivial
  | [e], h => h e List.mem_cons_self
  | e :: e' :: rest, h => by
    have hrest : ListClosed (listChunks (e' :: rest)) :=
      listClosed_listChunks fun e'' he'' => h e'' (.tail _ he'')
    simp [listChunks, h e, hrest]

/-- Outside of its parentheses, text of the form may have the character. -/
def Form.Allows (form : Form) (c : Char) : Prop :=
  isWordRest c = true ∨ c ∈ ['.', '-', '>'] ∨ form = .assignment ∧ c ∈ [' ', '=']

namespace Expr.Plain

variable {e : Expr}

/-- The characters of a property that is read or written. -/
theorem allows_property {object : Expr} {property : Name} {c : Char}
    (hopen : object.form ≠ .assignment) (hname : IsWord property.text)
    (ih : .char c ∈ object.chunks → object.form.Allows c)
    (hc : .char c ∈ access object.isReceiver object.chunks ++ ofChars property.text.toList)
    (form : Form) : form.Allows c := by
  rcases List.mem_append.1 hc with hc | hc
  · rcases char_mem_access hc with hc | hc | hc
    · exact .inl hc
    · exact .inr (.inl hc)
    · exact (ih hc).imp_right (·.imp_right fun hassign => absurd hassign.1 hopen)
  · exact .inl (hname.isWordRest c (char_mem_ofChars.1 hc))

/-- The characters of an assignment that is written to a target. -/
theorem allows_assignment {target value : List Chunk} {form : Form} {c : Char}
    (hc : .char c ∈ target ++ .char ' ' :: .char '=' :: .char ' ' :: value)
    (htarget : .char c ∈ target → Form.Allows .assignment c)
    (hvalue : .char c ∈ value → form.Allows c) : Form.Allows .assignment c := by
  simp only [List.mem_append, List.mem_cons, Chunk.char.injEq] at hc
  rcases hc with hc | rfl | rfl | rfl | hc
  · exact htarget hc
  · exact .inr (.inr ⟨rfl, by decide⟩)
  · exact .inr (.inr ⟨rfl, by decide⟩)
  · exact .inr (.inr ⟨rfl, by decide⟩)
  · exact (hvalue hc).imp_right (·.imp_right fun hassign => ⟨rfl, hassign.2⟩)

/-- Outside of parentheses, there are only words, points, arrows and assignments. -/
theorem allows (h : e.Plain) {c : Char} (hc : .char c ∈ e.chunks) : e.form.Allows c := by
  induction h with
  | unary | binary | this => cases List.mem_singleton.1 hc
  | group _ ih => exact ih hc
  | reference hname => exact .inl (hname.isWordRest c (char_mem_ofChars.1 hc))
  | assign hname _ ih =>
    exact allows_assignment hc (fun hc => .inl (hname.isWordRest c (char_mem_ofChars.1 hc))) ih
  | call hopen _ _ ih =>
    rcases List.mem_append.1 hc with hc | hc
    · exact (ih hc).imp_right (·.imp_right fun hassign => absurd hassign.1 hopen)
    · cases List.mem_singleton.1 hc
  | get hopen _ hname ih => exact allows_property hopen hname ih hc _
  | set hopen _ hname _ ih ihvalue =>
    exact allows_assignment hc (fun hc => allows_property hopen hname ih hc _) ihvalue

/-- Only assignments have blanks outside of parentheses. -/
theorem blank_not_mem (h : e.Plain) (hform : e.form ≠ .assignment) : .char ' ' ∉ e.chunks := by
  intro hc
  rcases h.allows hc with hword | haccess | ⟨hassign, -⟩
  · exact absurd hword (by decide)
  · exact absurd haccess (by decide)
  · exact hform hassign

/-- Commas stand in parentheses. -/
theorem comma_not_mem (h : e.Plain) : .char ',' ∉ e.chunks := by
  intro hc
  rcases h.allows hc with hword | haccess | ⟨-, hassign⟩
  · exact absurd hword (by decide)
  · exact absurd haccess (by decide)
  · exact absurd hassign (by decide)

/-- The parentheses of plain text are those of its chunks. -/
theorem listClosed (h : e.Plain) : ListClosed e.chunks := by
  induction h with
  | @unary _ _ s hs hoperator _ ih =>
    have hclosed : ListClosed (ofChars s.text.toList) :=
      listClosed_ofChars.2 (by rcases hs with rfl | rfl <;> decide)
    simp [chunks, hoperator.text, hclosed, ih]
  | @binary _ _ _ s _ hs hoperator _ _ ihleft ihright =>
    have hclosed : ListClosed (ofChars s.text.toList) := by
      refine listClosed_ofChars.2 ?_
      cases s <;> first | decide | cases hs
    simp [chunks, hoperator.text, hclosed, ihleft, ihright]
  | group _ ih => exact ih
  | reference hname => exact hname.listClosed
  | assign hname _ ih => simp [chunks, hname.listClosed, ih]
  | call _ _ _ ih iharguments => simp [chunks, ih, listClosed_listChunks iharguments]
  | get _ _ hname ih => simp [chunks, listClosed_access ih, hname.listClosed]
  | set _ _ hname _ ih ihvalue =>
    simp [chunks, listClosed_access ih, hname.listClosed, ihvalue]
  | this => simp [chunks, listClosed_ofChars]

end Expr.Plain

/-! ## Forms of chunks -/

/-- Text that no operator stands in front of. -/
def Chunk.OpensOperand (xs : List Chunk) : Prop :=
  ∃ chunk rest, xs = chunk :: rest ∧ ∀ c, chunk = .char c → isWordStart c = true

/-- What opens an operand is seen from its front. -/
theorem Chunk.OpensOperand.append {xs : List Chunk} (h : OpensOperand xs) (ys : List Chunk) :
    OpensOperand (xs ++ ys) := by
  obtain ⟨chunk, rest, rfl, hchunk⟩ := h
  exact ⟨chunk, rest ++ ys, rfl, hchunk⟩

/-- A word opens an operand. -/
theorem IsWord.opensOperand {text : String} (h : IsWord text) :
    OpensOperand (ofChars text.toList) := by
  obtain ⟨c, cs, htext, hstart⟩ := h.exists_cons
  exact ⟨.char c, ofChars cs, by rw [htext]; rfl, fun d hd => Chunk.char.inj hd ▸ hstart⟩

/-- An access opens an operand if its object does. -/
theorem Chunk.OpensOperand.access {object : List Chunk} (h : OpensOperand object)
    (isReceiver : Bool) : OpensOperand (access isReceiver object) := by
  rw [Chunk.access]
  split
  · exact ⟨.char 't', _, rfl, by simp [isWordStart]⟩
  · exact h.append _

/-- A plain expression opens an operand. -/
theorem Expr.Plain.opensOperand {e : Expr} (h : e.Plain) : OpensOperand e.chunks := by
  induction h with
  | unary | binary | this => exact ⟨_, _, rfl, nofun⟩
  | group _ ih => exact ih
  | reference hname => exact hname.opensOperand
  | assign hname => exact hname.opensOperand.append _
  | call _ _ _ ih => exact ih.append _
  | get _ _ _ ih => exact (ih.access _).append _
  | set _ _ _ _ ih => exact ((ih.access _).append _).append _

/-- The chunk is the character. -/
def Chunk.is (c : Char) : Chunk → Bool
  | char d => d == c
  | paren _ => false

/-- Looking for a character among chunks finds it if it is there. -/
theorem Chunk.any_is {c : Char} {xs : List Chunk} : xs.any (Chunk.is c) = true ↔ char c ∈ xs := by
  rw [List.any_eq_true]
  constructor
  · rintro ⟨chunk, hmem, hchunk⟩
    cases chunk with
    | char d => exact eq_of_beq hchunk ▸ hmem
    | paren => cases hchunk
  · exact fun h => ⟨_, h, beq_self_eq_true c⟩

instance (c : Char) (xs : List Chunk) : Decidable (.char c ∈ xs) :=
  decidable_of_iff _ Chunk.any_is

/-- Text that opens an operand starts with no character that words cannot start with. -/
theorem Chunk.OpensOperand.not_mem_take {xs : List Chunk} (h : OpensOperand xs) {c : Char}
    (hc : isWordStart c = false) : char c ∉ xs.take 1 := by
  obtain ⟨chunk, rest, rfl, hchunk⟩ := h
  intro hmem
  have hstart := hchunk c (List.mem_singleton.1 hmem).symm
  rw [hc] at hstart
  cases hstart

namespace Form

/-- The form of what stands in parentheses, by its first character. -/
def ofInner (xs : List Chunk) : Form :=
  if .char '*' ∈ xs.take 1 then .receiver
  else if .char '-' ∈ xs.take 1 ∨ .char '!' ∈ xs.take 1 then .unary
  else .binary

/-- The form of text that is no assignment, by its last chunk and the accesses in it. -/
def ofLast (xs : List Chunk) : Form :=
  match xs.getLast? with
  | some (.paren inner) => if xs.length = 1 then ofInner inner else .call
  | _ => if .char '.' ∈ xs ∨ .char '>' ∈ xs then .property else .reference

/-- The form of text without constants. -/
def ofChunks (xs : List Chunk) : Form :=
  if .char ' ' ∈ xs then .assignment else ofLast xs

/-- Parentheses around an operand are those of a binary expression. -/
theorem ofInner_of_opensOperand {xs : List Chunk} (h : OpensOperand xs) : ofInner xs = .binary := by
  simp [ofInner, h.not_mem_take (c := '*') (by decide), h.not_mem_take (c := '-') (by decide),
    h.not_mem_take (c := '!') (by decide)]

/-- Text that ends in a word has a property if there are accesses in it. -/
theorem ofLast_word {text : String} (h : IsWord text) (before : List Chunk) :
    ofLast (before ++ ofChars text.toList) =
      if .char '.' ∈ before ∨ .char '>' ∈ before then property else reference := by
  have hword : ∀ c, isWordRest c = false → .char c ∉ ofChars text.toList :=
    fun c hc hmem => absurd (h.isWordRest c (char_mem_ofChars.1 hmem)) (by simp [hc])
  obtain ⟨c, hc⟩ := h.getLast?
  rw [ofLast, List.getLast?_append, hc]
  simp [hword '.' (by decide), hword '>' (by decide)]

/-- Text that ends in parentheses behind something is a call. -/
theorem ofLast_paren {before : List Chunk} (h : before ≠ []) (inner : List Chunk) :
    ofLast (before ++ [.paren inner]) = .call := by
  simp [ofLast, h]

end Form

/-- The form of an expression shows in its text. -/
theorem Expr.Plain.ofChunks_chunks {e : Expr} (h : e.Plain) : Form.ofChunks e.chunks = e.form := by
  by_cases hassign : e.form = .assignment
  · rw [hassign]
    refine if_pos ?_
    induction h with
    | assign | set => simp [chunks]
    | group _ ih => exact ih hassign
    | _ => cases hassign
  · rw [Form.ofChunks, if_neg (h.blank_not_mem hassign)]
    induction h with
    | unary hs hoperator =>
      rw [chunks, hoperator.text]
      rcases hs with rfl | rfl <;> rfl
    | binary _ _ hleft =>
      rw [chunks, List.append_assoc]
      exact Form.ofInner_of_opensOperand (hleft.opensOperand.append _)
    | group _ ih => exact ih hassign
    | reference hname => exact Form.ofLast_word hname []
    | call _ h =>
      obtain ⟨_, _, hcons, -⟩ := h.opensOperand
      exact Form.ofLast_paren (by rw [hcons]; nofun) _
    | @get object _ _ _ hname =>
      rw [chunks, Form.ofLast_word hname, access]
      refine if_pos ?_
      split
      · exact .inr (char_mem_ofChars.2 (by decide))
      · exact .inl (by simp)
    | assign | set => exact absurd rfl hassign
    | this => rfl

end Quill

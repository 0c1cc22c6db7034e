import Quill.Proofs.Evaluation.Raising
import Quill.Proofs.Evaluation.Regions
import Quill.Proofs.Evaluation.Sessions
import Quill.Proofs.Grammar.Streams
import Quill.Proofs.Tree.Spans

/-!
# The tokens that show faults

The fault of a run names a line. `faults_shown` says that on this line the source has a token that
shows the fault (`FaultCause.ShownBy`): the operator, the name, the name behind a dot, or the closing
parenthesis of the call. This holds of every run of a program that is read from the source, on any
machine, whatever has been run on it before.

A fault is raised at a point of the run. What is evaluated there occurs in the program, however the
run has come to it: the functions that a run gets hold of are those that it has declared
(`Region.confined`, `Reaches.occurs`). And what occurs in the program stands in one piece in its
tokens.
-/

namespace Quill

open Eval

/-! ## What is run occurs in the program -/

/-- A run stays in its region, whose functions occur in the code. -/
def Region.confined (code : Stmt → Prop) (m : Machine) : Invariant where
  holds s := s.Within (.after (FunctionDecl.Occurs code) m)
  later _ _ := True
  value _ v := v.Within (.after (FunctionDecl.Occurs code) m)
  place _ id := m.store.scopes.size ≤ id.index
  declarable _ _ _ := True

variable {code : Stmt → Prop} {m : Machine}

/-- Runs keep the values of a region inside of it. -/
theorem Region.confined_kept : (Region.confined code m).Kept code where
  refl _ := trivial
  trans _ _ := trivial
  value_later _ hv := hv
  place_later _ hplace := hplace
  declarable_later _ _ := trivial
  plain {s v} hplain := by
    cases v with
    | function f => exact hplain.elim
    | classValue c => exact hplain.elim
    | object id => exact hplain.elim
    | _ => trivial
  read h hplace hget := h.of_get? hplace hget
  field h hid hobject hfield := h.field hid hobject hfield
  classOf h hid hobject := h.classOf hid hobject
  occurs hf := hf.1
  closure hf := hf.2
  assign h _ _ hv _ := ⟨h.define hv _ _, trivial⟩
  declare h _ _ hv _ := ⟨h.define hv _ _, trivial⟩
  addGlobal h := ⟨⟨h.addScope nofun, trivial⟩, h.scopes_le, fun _ => trivial⟩
  addChild h hplace := ⟨⟨h.addChild hplace, trivial⟩, h.scopes_le, fun _ => trivial⟩
  addFunction h hplace hf := by
    obtain ⟨hs, hv⟩ := h.addFunction hf hplace
    exact ⟨⟨hs, trivial⟩, hv⟩
  addClass h hplace hc := by
    obtain ⟨hs, hv⟩ := h.addClass (fun method hmethod => .method hc hmethod) hplace
    exact ⟨⟨hs, trivial⟩, hv⟩
  addObject h hc := ⟨⟨h.addObject hc, trivial⟩, h.objects_le⟩
  bindMethod h hc hmethod hid := by
    obtain ⟨hs, hv⟩ := h.bindMethod hc (ClassValue.functions_of_method? hmethod hc) hid
    exact ⟨⟨hs, trivial⟩, hv⟩
  setField h hid hv name := ⟨h.setField hv _ _, trivial⟩

/-- Whatever a run of the code comes to, it finds it in the code. -/
theorem Reaches.occurs {body : List Stmt} {fuel : Nat} {q : Point}
    (h : Reaches ⟨fuel, .statements body, m.restart⟩ q) {e : Expr} (he : q.task = .expression e) :
    e.Occurs (· ∈ body) := by
  have hstart := m.within_restart (FunctionDecl.Occurs (· ∈ body))
  have hready : (Region.confined (· ∈ body) m).Ready m.restart :=
    ⟨⟨hstart.store, hstart.scope⟩, fun _ => trivial⟩
  obtain ⟨-, hallows⟩ := Invariant.reaches_ready Region.confined_kept h hready fun s hs => .top hs
  rw [he] at hallows
  exact hallows

/-- A value is called by an expression, with the line of that expression. -/
theorem Reaches.exists_call {body : List Stmt} {fuel : Nat} {q : Point}
    (h : Reaches ⟨fuel, .statements body, m⟩ q) {callee : Value} {arguments : List Value}
    {line : Nat} (hq : q.task = .call callee arguments line) :
    ∃ r f es, Reaches ⟨fuel, .statements body, m⟩ r ∧ r.task = .expression (.call f es line) := by
  cases h with
  | refl => cases hq
  | step hreach hstep =>
    cases hstep with
    | call =>
      cases hq
      exact ⟨_, _, _, hreach, rfl⟩
    | _ => cases hq

/-! ## Tokens that show faults -/

/-- The token shows a fault of this kind where it stands behind the previous one. -/
def FaultCause.ShownBy (previous : Option Token) (t : Token) : FaultCause → Prop
  | .operandNotNumber => t.kind = .symbol .minus
  | .operandsNotAddable => t.kind = .symbol .plus
  | .operandsNotNumbers _ _ =>
    ∃ s ∈ [Symbol.minus, .star, .slash, .less, .lessEqual, .greater, .greaterEqual],
      t.kind = .symbol s
  | .divisionByZero => t.kind = .symbol .slash
  | .undefinedVariable name =>
    t.kind = .identifier ∧ t.lexeme = name
      ∨ t.kind = .keyword .thisWord ∧ name = receiverName
  | .undefinedProperty name =>
    t.kind = .identifier ∧ t.lexeme = name ∧ ∃ dot ∈ previous, dot.kind = .symbol .dot
  | .notAnInstance => t.kind = .identifier ∧ ∃ dot ∈ previous, dot.kind = .symbol .dot
  | .arityMismatch _ _ => t.kind = .symbol .rightParen
  | .stackOverflow => t.kind = .symbol .rightParen
  | .notCallable => t.kind = .symbol .rightParen
  | .invalidUnary _ => False
  | .invalidBinary _ => False

/-- Some token of the source is on the line of the fault and shows it. -/
def Fault.ShownIn (fault : Fault) (tokens : List Token) : Prop :=
  ∃ before t after, tokens = before ++ t :: after ∧ t.line = fault.line
    ∧ fault.cause.ShownBy before.getLast? t

/-- The fault of an operator before its operand is shown by the operator. -/
theorem shownBy_unary {operator : Token} {v : Value} {fault : Fault}
    (h : applyUnary operator v = .error fault)
    (hkind : operator.kind = .symbol .bang ∨ operator.kind = .symbol .minus)
    (previous : Option Token) :
    operator.line = fault.line ∧ fault.cause.ShownBy previous operator := by
  unfold applyUnary at h
  rcases hkind with hkind | hkind
  · rw [hkind] at h
    cases h
  · rw [hkind] at h
    dsimp only at h
    split at h
    · cases h
    · cases h
      exact ⟨rfl, hkind⟩

/-- The fault of an operator on numbers is shown by the operator. -/
theorem shownBy_onNumbers {operator : Token} {a b : Value} {f : Number → Number → Except Fault Value}
    {fault : Fault} {previous : Option Token} (h : onNumbers operator.line a b f = .error fault)
    {s : Symbol} (hs : s ∈ [Symbol.minus, .star, .slash, .less, .lessEqual, .greater, .greaterEqual])
    (hkind : operator.kind = .symbol s)
    (hf : ∀ x y, f x y = .error fault →
      operator.line = fault.line ∧ fault.cause.ShownBy previous operator) :
    operator.line = fault.line ∧ fault.cause.ShownBy previous operator := by
  unfold onNumbers at h
  split at h
  · exact hf _ _ h
  · cases h
    exact ⟨rfl, s, hs, hkind⟩

/-- The fault of an operator between operands is shown by the operator. -/
theorem shownBy_binary {operator : Token} {a b : Value} {fault : Fault}
    (h : applyBinary operator a b = .error fault) {tier : Nat}
    (htier : operator.kind.tier? = some tier) (previous : Option Token) :
    operator.line = fault.line ∧ fault.cause.ShownBy previous operator := by
  unfold applyBinary at h
  dsimp only at h
  split at h
  case h_1 hkind =>
    split at h
    · cases h
    · cases h
    · cases h
      exact ⟨rfl, hkind⟩
  case h_4 hkind =>
    refine shownBy_onNumbers h (by simp) hkind fun x y hxy => ?_
    split at hxy
    · cases hxy
      exact ⟨rfl, hkind⟩
    · cases hxy
  case h_9 => cases h
  case h_10 => cases h
  case h_11 =>
    -- no other symbol has a tier
    cases hkind : operator.kind with
    | symbol s => cases s <;> simp_all [Kind.tier?, Symbol.tier?]
    | _ =>
      rw [hkind] at htier
      cases htier
  all_goals
    next hkind => exact shownBy_onNumbers h (by simp) hkind fun _ _ hxy => by cases hxy

/-! ## Faults in programs -/

section

variable {source : String} {program : Program} (hparse : parse source = .ok program)

include hparse

/-- What is spelled in the program stands in one piece in the tokens of its source. -/
theorem SpelledIn.exists_span {part : List Mark}
    (h : SpelledIn (· ∈ program.declarations) part) :
    ∃ before span after, tokenize source = before ++ span ++ after ∧ Spells part span := by
  obtain ⟨hspells, -⟩ := spells_of_parse hparse
  obtain ⟨before, span, after, hsplit, hspan⟩ := hspells.exists_infix h.infix_program
  obtain ⟨front, last, htokens, -⟩ := tokenize_ends source
  rw [filter_not_isEof_tokenize, htokens, List.dropLast_concat] at hsplit
  exact ⟨before, span, after ++ [last], by rw [htokens, hsplit, List.append_assoc], hspan⟩

/-- A fault is shown by a token that a mark of the program describes. -/
theorem SpelledIn.shownIn {mark : Mark} {fault : Fault}
    (h : SpelledIn (· ∈ program.declarations) [mark]) (hgap : mark ≠ .gap)
    (hmark : ∀ t previous, mark.Admits t → t.line = fault.line ∧ fault.cause.ShownBy previous t) :
    fault.ShownIn (tokenize source) := by
  obtain ⟨before, span, after, hsplit, hspan⟩ := h.exists_span hparse
  obtain ⟨t, rfl, ht⟩ := hspan.exists_singleton hgap
  exact ⟨before, t, after, by simpa using hsplit, hmark t _ ht⟩

/-- A fault is shown by the name of a property. -/
theorem SpelledIn.shownIn_property {property : Name} {fault : Fault}
    (h : SpelledIn (· ∈ program.declarations) [.symbol .dot, .name property])
    (hname : ∀ t dot, Mark.Admits (.name property) t → dot.kind = .symbol .dot →
      t.line = fault.line ∧ fault.cause.ShownBy (some dot) t) :
    fault.ShownIn (tokenize source) := by
  obtain ⟨before, span, after, hsplit, hspan⟩ := h.exists_span hparse
  obtain ⟨dot, rest, rfl, hdot, hrest⟩ := hspan.exists_cons (by simp)
  obtain ⟨t, rfl, ht⟩ := hrest.exists_singleton (by simp)
  refine ⟨before ++ [dot], t, after, by simpa using hsplit, ?_⟩
  rw [List.getLast?_concat]
  exact hname t dot ht hdot

/-- Where a point of a run raises a fault, the source has a token that shows it. -/
theorem Point.Raises.shownIn {fuel : Nat} {q : Point} {fault : Fault} (hraises : q.Raises fault)
    (hreach : Reaches ⟨fuel, .statements program.declarations, m.restart⟩ q) :
    fault.ShownIn (tokenize source) := by
  have hwf : ∀ s ∈ program.declarations, s.wellFormed = true :=
    Stmt.listWellFormed_iff.1 (spells_of_parse hparse).2
  have hcall : ∀ {callee arguments line cause}, q.task = .call callee arguments line →
      (∀ t previous, t.kind = .symbol .rightParen → FaultCause.ShownBy previous t cause) →
      Fault.ShownIn ⟨cause, line⟩ (tokenize source) := by
    intro callee arguments line cause hq hcause
    obtain ⟨r, f, es, hr, htask⟩ := hreach.exists_call hq
    have hparen : SpelledIn (· ∈ program.declarations) [.placed (.symbol .rightParen) line] :=
      (hr.occurs htask).spelled.part (List.suffix_append _ _).isInfix
    exact hparen.shownIn hparse (by simp) fun t previous ht => ⟨ht.2, hcause t previous ht.1⟩
  cases hraises with
  | @unary _ _ operator operand v _ h =>
    have hoccurs := hreach.occurs rfl
    have hkind := hoccurs.wellFormed hwf
    simp only [Expr.wellFormed, Bool.and_eq_true, Bool.or_eq_true, beq_iff_eq] at hkind
    have hoperator : SpelledIn (· ∈ program.declarations) [.operator operator] :=
      hoccurs.spelled.part (List.prefix_append [_] _).isInfix
    refine hoperator.shownIn hparse (by simp) fun t previous ht => ?_
    exact ht ▸ shownBy_unary h hkind.1.1 previous
  | @binary _ _ left operator right a b _ h =>
    have hoccurs := hreach.occurs rfl
    obtain ⟨tier, htier, -⟩ := Expr.wellFormed_binary (hoccurs.wellFormed hwf)
    have hoperator : SpelledIn (· ∈ program.declarations) [.operator operator] :=
      hoccurs.spelled.part ⟨left.spelling, right.spelling, by simp [Expr.spelling]⟩
    refine hoperator.shownIn hparse (by simp) fun t previous ht => ?_
    exact ht ▸ shownBy_binary h htier previous
  | @reference _ _ name =>
    exact (hreach.occurs rfl).spelled.shownIn hparse (by simp) fun t previous ht =>
      ⟨ht.2.2, .inl ⟨ht.1, ht.2.1⟩⟩
  | @assign _ _ name value =>
    have hname : SpelledIn (· ∈ program.declarations) [.name name] :=
      (hreach.occurs rfl).spelled.part (List.prefix_append [_] _).isInfix
    exact hname.shownIn hparse (by simp) fun t previous ht => ⟨ht.2.2, .inl ⟨ht.1, ht.2.1⟩⟩
  | this =>
    exact (hreach.occurs rfl).spelled.shownIn hparse (by simp) fun t previous ht =>
      ⟨ht.2, .inr ⟨ht.1, rfl⟩⟩
  | @getOf _ _ object property =>
    have hproperty : SpelledIn (· ∈ program.declarations) [.symbol .dot, .name property] :=
      (hreach.occurs rfl).spelled.part (List.suffix_append _ _).isInfix
    exact hproperty.shownIn_property hparse fun t dot ht hdot => ⟨ht.2.2, ht.1, dot, rfl, hdot⟩
  | @get _ _ object property =>
    have hproperty : SpelledIn (· ∈ program.declarations) [.symbol .dot, .name property] :=
      (hreach.occurs rfl).spelled.part (List.suffix_append _ _).isInfix
    exact hproperty.shownIn_property hparse fun t dot ht hdot =>
      ⟨ht.2.2, ht.1, ht.2.1, dot, rfl, hdot⟩
  | @setOf _ _ object property value =>
    have hproperty : SpelledIn (· ∈ program.declarations) [.symbol .dot, .name property] :=
      (hreach.occurs rfl).spelled.part
        ⟨object.spelling, .symbol .equal :: value.spelling, by simp [Expr.spelling]⟩
    exact hproperty.shownIn_property hparse fun t dot ht hdot => ⟨ht.2.2, ht.1, dot, rfl, hdot⟩
  | arity => exact hcall rfl fun _ _ hkind => hkind
  | overflow => exact hcall rfl fun _ _ hkind => hkind
  | notCallable => exact hcall rfl fun _ _ hkind => hkind

/-- **Faults are attributed to the right token.** However often and on whatever machine a program is
run: if the run ends with a fault, its source has a token on the line of the fault that shows it. And
no part of a run ever fails for an operator that there is not. -/
theorem faults_shown (fuel : Nat) (m : Machine) :
    (∀ fault m', runAtFuel fuel program m = .error (.fault fault) m' →
        fault.ShownIn (tokenize source))
      ∧ ∀ q, Reaches ⟨fuel, .statements program.declarations, m.restart⟩ q → ∀ lexeme line,
        ¬q.Fails (.fault ⟨.invalidUnary lexeme, line⟩)
          ∧ ¬q.Fails (.fault ⟨.invalidBinary lexeme, line⟩) := by
  have hshown : ∀ {q fault}, Reaches ⟨fuel, .statements program.declarations, m.restart⟩ q →
      q.Fails (.fault fault) → fault.ShownIn (tokenize source) := by
    intro q fault hreach hfails
    obtain ⟨r, hr, hraises⟩ := (hreach.fails hfails).exists_raises
    exact hraises.shownIn hparse hr
  refine ⟨fun fault m' herror => hshown .refl ?_, fun q hreach lexeme line => ⟨?_, ?_⟩⟩
  · have htop := Eval.eq_error_of_flushing herror
    rw [runTopLevel_eq] at htop
    split at htop
    · cases htop
    · next hbody =>
      cases htop
      exact ⟨_, hbody⟩
  · intro hfails
    obtain ⟨before, t, after, -, -, hfalse⟩ := hshown hreach hfails
    exact hfalse
  · intro hfails
    obtain ⟨before, t, after, -, -, hfalse⟩ := hshown hreach hfails
    exact hfalse

end

/-- A method is kept in a variable and called later, and the fault is that of a property in it. -/
def keptMethodCall : String :=
  "class A \x7b\nfn m() \x7b return this.b; \x7d \x7d\nlet f = A().m;\nf();"

/-- A method that is kept and called later fails on the line of its own text. -/
theorem faults_shown_keptMethod :
    ∃ program m', parse keptMethodCall = .ok program
      ∧ runAtFuel 2 program (.ofSink .unlimited) = .error (.fault ⟨.undefinedProperty "b", 2⟩) m'
      ∧ Fault.ShownIn ⟨.undefinedProperty "b", 2⟩ (tokenize keptMethodCall) := by
  have hrun : ((parse keptMethodCall).toOption.bind fun program =>
      faultAtFuel? 2 program (.ofSink .unlimited)) = some ⟨.undefinedProperty "b", 2⟩ := by
    decide +kernel
  obtain ⟨program, hsome, hfault⟩ := Option.bind_eq_some_iff.1 hrun
  have hparse := parse_eq_ok_of_toOption hsome
  obtain ⟨m', herror⟩ := exists_of_faultAtFuel? hfault
  exact ⟨program, m', hparse, herror, (faults_shown hparse 2 (.ofSink .unlimited)).1 _ m' herror⟩

end Quill

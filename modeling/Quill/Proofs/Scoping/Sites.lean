import Quill.Proofs.Grammar.Shape
import Quill.Scoping

/-!
# Sites in the text of a program

Where a name is used, the scopes around it have declared some names already and will declare others
further on. A `Site` holds both, scope by scope, and it keeps apart the scopes of the function that
is running there from those around that function: only the latter can have moved on by the time the
site is reached.

* `Program.uses`: all sites where variables are read or assigned to.
* `Site.classes`: the classes around a site.
* `Site.isLate`: a scope around the function declares the name as a function or class, but only
  further on, and no scope nearer by has declared it.
* `Stmt.Settled` and its kin: what is known of a part of a program that has no scope issues, with
  one lemma for each kind of tree that says what is then known of its parts.
-/

namespace Quill

/-! ## Levels and sites -/

/-- A scope, as it is seen from some site in the text. -/
structure Level where
  /-- The names that it has declared so far. -/
  names : Frame
  /-- The functions and classes that it declares further on. -/
  later : List String
  /-- The class whose body it is, if it is one. -/
  classOf? : Option ClassDecl

/-- The function or class that a statement declares. -/
def Stmt.constant? : Stmt → Option String
  | .function declaration => some declaration.name.text
  | .classOf declaration => some declaration.name.text
  | _ => none

/-- The functions and classes that statements declare. -/
def constants (body : List Stmt) : List String :=
  body.filterMap Stmt.constant?

namespace Level

/-- The scope of statements, before the first of them. -/
def ofBody (names : Frame) (body : List Stmt) : Level :=
  ⟨names, constants body, none⟩

/-- A name has been declared. -/
def declare (level : Level) (name : String) (sort : SymbolSort) : Level :=
  { level with
    names := level.names.insert name sort
    later := if sort.isConstant then level.later.erase name else level.later }

/-- A statement of the scope has been passed. -/
def after (level : Level) : Stmt → Level
  | .declare name _ => level.declare name.text .var
  | .function declaration => level.declare declaration.name.text .function
  | .classOf declaration => level.declare declaration.name.text .classSymbol
  | _ => level

end Level

/-- A site in the text: the scopes around it. -/
structure Site where
  /-- The innermost scope. -/
  here : Level
  /-- The other scopes of the function around the site, innermost first; those of the program if
  there is none. -/
  around : List Level
  /-- The scopes around that function, innermost first. -/
  captured : List Level

namespace Site

/-- All scopes around, innermost first. -/
def levels (p : Site) : List Level :=
  p.here :: p.around ++ p.captured

/-- The names that the scopes around have declared. -/
def frames (p : Site) : List Frame :=
  p.levels.map Level.names

/-- The classes around, innermost first. -/
def classes (p : Site) : List ClassDecl :=
  p.levels.filterMap Level.classOf?

/-- Some class is around. -/
def inClass (p : Site) : Bool :=
  p.levels.any fun level => level.classOf?.isSome

/-- What surrounds the innermost scope. -/
def surroundings (p : Site) : Surroundings :=
  ⟨(p.around ++ p.captured).map Level.names, !p.captured.isEmpty, p.inClass⟩

/-- The start of a program. -/
def top (body : List Stmt) : Site :=
  ⟨.ofBody .empty body, [], []⟩

/-- The start of a block. -/
def insideBlock (p : Site) (body : List Stmt) : Site :=
  ⟨.ofBody .empty body, p.here :: p.around, p.captured⟩

/-- The start of the body of a function. -/
def ofFunction (captured : List Level) (params : List Name) (body : List Stmt) : Site :=
  ⟨.ofBody (Frame.declareAll .empty .parameter params).1 body, [], captured⟩

/-- The site behind a statement. -/
def after (p : Site) (s : Stmt) : Site :=
  { p with here := p.here.after s }

end Site

/-- Going outwards through scopes that may have moved on: one of them declares the name as a
function or class further on, and none up to there has declared it. -/
def lateIn : List Level → String → Bool
  | [], _ => false
  | level :: rest, name =>
    !level.names.contains name && (level.later.contains name || lateIn rest name)

/-- An assignment to the name at this site may find a function or class that was not yet declared
there. -/
def Site.isLate (p : Site) (name : String) : Bool :=
  !(p.here :: p.around).any (fun level => level.names.contains name) && lateIn p.captured name

/-! ## Uses of names -/

/-- A variable that is read or assigned to, with its site. -/
structure Use where
  /-- The name. -/
  name : Name
  /-- Where it stands. -/
  site : Site
  /-- It is assigned to. -/
  isAssignment : Bool

mutual

/-- The uses of names in an expression. -/
def Expr.uses (p : Site) : Expr → List Use
  | .literal _ _ => []
  | .unary _ operand => operand.uses p
  | .binary left _ right => left.uses p ++ right.uses p
  | .group inner => inner.uses p
  | .reference name => [⟨name, p, false⟩]
  | .assign name value => value.uses p ++ [⟨name, p, true⟩]
  | .call callee arguments _ => callee.uses p ++ Expr.listUses p arguments
  | .get object _ => object.uses p
  | .set object _ value => object.uses p ++ value.uses p
  | .this _ => []

/-- The uses of names in expressions. -/
def Expr.listUses (p : Site) : List Expr → List Use
  | [] => []
  | e :: rest => e.uses p ++ Expr.listUses p rest

end

/-- The uses of names in an expression that may be missing. -/
def Expr.optionUses (p : Site) : Option Expr → List Use
  | none => []
  | some e => e.uses p

mutual

/-- The uses of names in a statement. A function sees its own name, and so does a class. -/
def Stmt.uses (p : Site) : Stmt → List Use
  | .expression value => value.uses p
  | .print value => value.uses p
  | .declare _ initial => Expr.optionUses p initial
  | .block body => Stmt.listUses (p.insideBlock body) body
  | .branch condition thenBranch none => condition.uses p ++ thenBranch.uses p
  | .branch condition thenBranch (some elseBranch) =>
    condition.uses p ++ thenBranch.uses p ++ elseBranch.uses p
  | .loop condition body => condition.uses p ++ body.uses p
  | .leave _ value => Expr.optionUses p value
  | .function ⟨name, params, body⟩ =>
    Stmt.listUses (.ofFunction (p.after (.function ⟨name, params, body⟩)).levels params body) body
  | .classOf ⟨name, methods⟩ =>
    FunctionDecl.listUses (p.after (.classOf ⟨name, methods⟩)).levels ⟨name, methods⟩ .ofClass
      methods

/-- The uses of names in statements. -/
def Stmt.listUses (p : Site) : List Stmt → List Use
  | [] => []
  | s :: rest => s.uses p ++ Stmt.listUses (p.after s) rest

/-- The uses of names in methods of a class. A method sees the names of the methods before it and
its own. -/
def FunctionDecl.listUses (captured : List Level) (c : ClassDecl) (names : Frame) :
    List FunctionDecl → List Use
  | [] => []
  | ⟨name, params, body⟩ :: rest =>
    let names := names.insert name.text .function
    Stmt.listUses (.ofFunction (⟨names, [], some c⟩ :: captured) params body) body
      ++ FunctionDecl.listUses captured c names rest

end

/-- The uses of names in a program. -/
def Program.uses (program : Program) : List Use :=
  Stmt.listUses (.top program.declarations) program.declarations

/-! ## What surrounds a site -/

namespace Site

@[simp] theorem outer_surroundings (p : Site) :
    p.here.names :: p.surroundings.outer = p.frames := by
  simp [frames, levels, surroundings]

@[simp] theorem inClass_surroundings (p : Site) : p.surroundings.inClass = p.inClass := rfl

/-- What surrounds a block is what surrounds its statement, and the frame there. -/
theorem surroundings_insideBlock (p : Site) (body : List Stmt) :
    (p.insideBlock body).surroundings = p.surroundings.insideBlock p.here.names := by
  simp [surroundings, insideBlock, Surroundings.insideBlock, inClass, levels, Level.ofBody]

/-- What surrounds the body of a function is what surrounds its declaration, inside of a function.
-/
theorem surroundings_ofFunction (p : Site) (params : List Name) (body : List Stmt) :
    (ofFunction p.levels params body).surroundings =
      p.surroundings.insideFunction p.here.names := by
  simp [surroundings, ofFunction, Surroundings.insideFunction, inClass, levels, Level.ofBody]

/-- What surrounds the body of a method is what surrounds its class, inside of both. -/
theorem surroundings_ofMethod (p : Site) (names : Frame) (c : ClassDecl) (params : List Name)
    (body : List Stmt) :
    (ofFunction (⟨names, [], some c⟩ :: p.levels) params body).surroundings =
      (p.surroundings.insideClass p.here.names).insideFunction names := by
  simp [surroundings, ofFunction, Surroundings.insideFunction, Surroundings.insideClass, inClass,
    levels, Level.ofBody]

@[simp] theorem classOf?_after (level : Level) (s : Stmt) :
    (level.after s).classOf? = level.classOf? := by
  cases s <;> rfl

@[simp] theorem surroundings_after (p : Site) (s : Stmt) :
    (p.after s).surroundings = p.surroundings := by
  simp [surroundings, after, inClass, levels]

end Site

/-- A declaration without issues declares a new name. -/
theorem Frame.declare_of_clean {frame : Frame} {name : Name} {sort : SymbolSort}
    (h : (frame.declare name sort).2 = []) :
    (frame.declare name sort).1 = frame.insert name.text sort
      ∧ frame.get? name.text = none := by
  unfold Frame.declare at h ⊢
  split at h
  · cases h
  · next hnew =>
    rw [if_neg hnew]
    exact ⟨rfl, by simpa [Bindings.contains] using hnew⟩

/-- A statement that declares nothing leaves the scope around it alone. -/
theorem Stmt.check_of_not_declaration (around : Surroundings) (frame : Frame) : (s : Stmt) →
    s.wellFormed = true → s.isDeclaration = false → (s.check around frame).1 = frame
  | .expression _, _, _ => rfl
  | .print _, _, _ => rfl
  | .block _, _, _ => rfl
  | .leave _ _, _, _ => rfl
  | .branch condition thenBranch none, hwf, _ => by
    simp only [Stmt.wellFormed, Bool.and_eq_true, Bool.not_eq_true'] at hwf
    exact Stmt.check_of_not_declaration around frame thenBranch hwf.2 hwf.1.2
  | .branch condition thenBranch (some elseBranch), hwf, _ => by
    simp only [Stmt.wellFormed, Bool.and_eq_true, Bool.not_eq_true'] at hwf
    obtain ⟨⟨⟨⟨⟨-, hthen⟩, hwft⟩, -⟩, helse⟩, hwfe⟩ := hwf
    have hfirst := Stmt.check_of_not_declaration around frame thenBranch hwft hthen
    have hsecond := Stmt.check_of_not_declaration around frame elseBranch hwfe helse
    rw [Stmt.check]
    dsimp only
    rw [hfirst, hsecond]
  | .loop condition body, hwf, _ => by
    simp only [Stmt.wellFormed, Bool.and_eq_true, Bool.not_eq_true'] at hwf
    exact Stmt.check_of_not_declaration around frame body hwf.2 hwf.1.2
  | .declare _ _, _, hs => by cases hs
  | .function _, _, hs => by cases hs
  | .classOf _, _, hs => by cases hs

/-! ## Settled parts of a program

The uses listed are those of the whole program; a part contributes its own. -/

variable (uses : List Use)

/-- The expression has no issues at its site, and its uses are listed. -/
structure Expr.Settled (p : Site) (e : Expr) : Prop where
  clean : e.issues p.frames p.inClass = []
  listed : e.uses p ⊆ uses

/-- All of the expressions are settled. -/
structure Expr.ListSettled (p : Site) (es : List Expr) : Prop where
  clean : Expr.listIssues p.frames p.inClass es = []
  listed : Expr.listUses p es ⊆ uses

/-- The expression is settled if it is there. -/
structure Expr.OptionSettled (p : Site) (e : Option Expr) : Prop where
  clean : Expr.optionIssues p.frames p.inClass e = []
  listed : Expr.optionUses p e ⊆ uses

/-- The statement has no issues at its site, its uses are listed, and a function or class that it
declares is expected there. -/
structure Stmt.Settled (p : Site) (s : Stmt) : Prop where
  clean : (s.check p.surroundings p.here.names).2 = []
  listed : s.uses p ⊆ uses
  shaped : s.wellFormed = true
  promised : ∀ name, s.constant? = some name → name ∈ p.here.later

/-- The statements are settled one after another, and they declare just what is expected. -/
structure Stmt.ListSettled (p : Site) (body : List Stmt) : Prop where
  clean : (Stmt.listCheck p.surroundings p.here.names body).2 = []
  listed : Stmt.listUses p body ⊆ uses
  shaped : Stmt.listWellFormed body = true
  promised : p.here.later = constants body

/-- The parameters of a function are told apart, and its body is settled. -/
structure FunctionSettled (captured : List Level) (params : List Name) (body : List Stmt) :
    Prop where
  distinct : (Frame.declareAll .empty .parameter params).2 = []
  settled : Stmt.ListSettled uses (.ofFunction captured params body) body

variable {uses} {p : Site}

namespace Expr

/-- The operand of a settled expression is settled. -/
theorem Settled.unary {operator : Token} {operand : Expr}
    (h : Settled uses p (.unary operator operand)) : Settled uses p operand :=
  ⟨h.clean, h.listed⟩

/-- The operands of a settled expression are settled. -/
theorem Settled.binary {left right : Expr} {operator : Token}
    (h : Settled uses p (.binary left operator right)) :
    Settled uses p left ∧ Settled uses p right := by
  obtain ⟨hclean, hlisted⟩ := h
  obtain ⟨hleft, hright⟩ := List.append_eq_nil_iff.1 hclean
  obtain ⟨huses, huses'⟩ := List.append_subset.1 hlisted
  exact ⟨⟨hleft, huses⟩, ⟨hright, huses'⟩⟩

/-- The inside of a settled group is settled. -/
theorem Settled.group {inner : Expr} (h : Settled uses p (.group inner)) : Settled uses p inner :=
  ⟨h.clean, h.listed⟩

/-- The value of a settled assignment is settled, and its name is listed and may be assigned to. -/
theorem Settled.assign {name : Name} {value : Expr} (h : Settled uses p (.assign name value)) :
    Settled uses p value ∧ assignmentIssues p.frames name = [] ∧ ⟨name, p, true⟩ ∈ uses := by
  obtain ⟨hclean, hlisted⟩ := h
  obtain ⟨hvalue, hname⟩ := List.append_eq_nil_iff.1 hclean
  obtain ⟨huses, huse⟩ := List.append_subset.1 hlisted
  exact ⟨⟨hvalue, huses⟩, hname, huse List.mem_cons_self⟩

/-- The callee of a settled call is settled, and so are its arguments. -/
theorem Settled.call {callee : Expr} {arguments : List Expr} {line : Nat}
    (h : Settled uses p (.call callee arguments line)) :
    Settled uses p callee ∧ ListSettled uses p arguments := by
  obtain ⟨hclean, hlisted⟩ := h
  obtain ⟨hcallee, hargs⟩ := List.append_eq_nil_iff.1 hclean
  obtain ⟨huses, huses'⟩ := List.append_subset.1 hlisted
  exact ⟨⟨hcallee, huses⟩, ⟨hargs, huses'⟩⟩

/-- The object of a settled property is settled. -/
theorem Settled.get {object : Expr} {property : Name} (h : Settled uses p (.get object property)) :
    Settled uses p object :=
  ⟨h.clean, h.listed⟩

/-- The object and the value of a settled assignment to a property are settled. -/
theorem Settled.set {object value : Expr} {property : Name}
    (h : Settled uses p (.set object property value)) :
    Settled uses p object ∧ Settled uses p value := by
  obtain ⟨hclean, hlisted⟩ := h
  obtain ⟨hobject, hvalue⟩ := List.append_eq_nil_iff.1 hclean
  obtain ⟨huses, huses'⟩ := List.append_subset.1 hlisted
  exact ⟨⟨hobject, huses⟩, ⟨hvalue, huses'⟩⟩

/-- A settled receiver stands in a class. -/
theorem Settled.this {line : Nat} (h : Settled uses p (.this line)) : p.inClass = true := by
  have hclean := h.clean
  rw [Expr.issues] at hclean
  split at hclean
  · assumption
  · cases hclean

/-- Settled expressions are settled one by one. -/
theorem ListSettled.cons {e : Expr} {rest : List Expr} (h : ListSettled uses p (e :: rest)) :
    Settled uses p e ∧ ListSettled uses p rest := by
  obtain ⟨hclean, hlisted⟩ := h
  obtain ⟨hfirst, hrest⟩ := List.append_eq_nil_iff.1 hclean
  obtain ⟨huses, huses'⟩ := List.append_subset.1 hlisted
  exact ⟨⟨hfirst, huses⟩, ⟨hrest, huses'⟩⟩

/-- An expression that is there is settled. -/
theorem OptionSettled.some {e : Expr} (h : OptionSettled uses p (some e)) : Settled uses p e :=
  ⟨h.clean, h.listed⟩

end Expr

namespace Stmt

/-- The expression of a settled statement is settled. -/
theorem Settled.expression {value : Expr} (h : Settled uses p (.expression value)) :
    Expr.Settled uses p value :=
  ⟨by simpa [Stmt.check] using h.clean, h.listed⟩

/-- The value of a settled `print` is settled. -/
theorem Settled.print {value : Expr} (h : Settled uses p (.print value)) :
    Expr.Settled uses p value :=
  ⟨by simpa [Stmt.check] using h.clean, h.listed⟩

/-- A variable is new in its scope. -/
theorem Settled.declare {name : Name} {initial : Option Expr}
    (h : Settled uses p (.declare name initial)) :
    Expr.OptionSettled uses p initial ∧ p.here.names.get? name.text = none := by
  have hclean := h.clean
  simp only [Stmt.check, Site.outer_surroundings, Site.inClass_surroundings,
    List.append_eq_nil_iff] at hclean
  exact ⟨⟨hclean.1, h.listed⟩, (Frame.declare_of_clean hclean.2).2⟩

/-- The statements of a settled block are settled inside of it. -/
theorem Settled.block {body : List Stmt} (h : Settled uses p (.block body)) :
    ListSettled uses (p.insideBlock body) body where
  clean := by
    rw [Site.surroundings_insideBlock]
    exact h.clean
  listed := h.listed
  shaped := h.shaped
  promised := rfl

/-- Branches and bodies of loops declare nothing, so nothing is expected of them. -/
theorem Settled.of_not_declaration {s : Stmt}
    (hclean : (s.check p.surroundings p.here.names).2 = []) (hlisted : s.uses p ⊆ uses)
    (hshaped : s.wellFormed = true) (hs : s.isDeclaration = false) : Settled uses p s where
  clean := hclean
  listed := hlisted
  shaped := hshaped
  promised := by
    intro name hname
    cases s <;> cases hname <;> cases hs

/-- The condition and the only side of a settled choice are settled, and the side declares nothing.
-/
theorem Settled.branch_none {condition : Expr} {thenBranch : Stmt}
    (h : Settled uses p (.branch condition thenBranch none)) :
    Expr.Settled uses p condition ∧ Settled uses p thenBranch
      ∧ thenBranch.isDeclaration = false := by
  have hclean := h.clean
  have hshaped := h.shaped
  simp only [Stmt.check, Site.outer_surroundings, Site.inClass_surroundings,
    List.append_eq_nil_iff] at hclean
  simp only [Stmt.wellFormed, Bool.and_eq_true, Bool.not_eq_true'] at hshaped
  obtain ⟨huses, huses'⟩ := List.append_subset.1 h.listed
  exact ⟨⟨hclean.1, huses⟩, .of_not_declaration hclean.2 huses' hshaped.2 hshaped.1.2,
    hshaped.1.2⟩

/-- The condition and both sides of a settled choice are settled, and the sides declare nothing. -/
theorem Settled.branch_some {condition : Expr} {thenBranch elseBranch : Stmt}
    (h : Settled uses p (.branch condition thenBranch (some elseBranch))) :
    Expr.Settled uses p condition
      ∧ (Settled uses p thenBranch ∧ thenBranch.isDeclaration = false)
      ∧ Settled uses p elseBranch ∧ elseBranch.isDeclaration = false := by
  have hclean := h.clean
  have hshaped := h.shaped
  simp only [Stmt.wellFormed, Bool.and_eq_true, Bool.not_eq_true'] at hshaped
  obtain ⟨⟨⟨⟨⟨-, hthen⟩, hwft⟩, -⟩, helse⟩, hwfe⟩ := hshaped
  simp only [Stmt.check, Site.outer_surroundings, Site.inClass_surroundings,
    List.append_eq_nil_iff, Stmt.check_of_not_declaration _ _ thenBranch hwft hthen] at hclean
  obtain ⟨hrest, huses₃⟩ := List.append_subset.1 h.listed
  obtain ⟨huses₁, huses₂⟩ := List.append_subset.1 hrest
  exact ⟨⟨hclean.1.1, huses₁⟩, ⟨.of_not_declaration hclean.1.2 huses₂ hwft hthen, hthen⟩,
    .of_not_declaration hclean.2 huses₃ hwfe helse, helse⟩

/-- The condition and the body of a settled loop are settled, and the body declares nothing. -/
theorem Settled.loop {condition : Expr} {body : Stmt} (h : Settled uses p (.loop condition body)) :
    Expr.Settled uses p condition ∧ Settled uses p body ∧ body.isDeclaration = false := by
  have hclean := h.clean
  have hshaped := h.shaped
  simp only [Stmt.check, Site.outer_surroundings, Site.inClass_surroundings,
    List.append_eq_nil_iff] at hclean
  simp only [Stmt.wellFormed, Bool.and_eq_true, Bool.not_eq_true'] at hshaped
  obtain ⟨huses, huses'⟩ := List.append_subset.1 h.listed
  exact ⟨⟨hclean.1, huses⟩, .of_not_declaration hclean.2 huses' hshaped.2 hshaped.1.2,
    hshaped.1.2⟩

/-- Functions are left only inside of functions. -/
theorem Settled.leave {line : Nat} {value : Option Expr} (h : Settled uses p (.leave line value)) :
    Expr.OptionSettled uses p value ∧ p.captured ≠ [] := by
  have hclean := h.clean
  simp only [Stmt.check, Site.outer_surroundings, Site.inClass_surroundings,
    List.append_eq_nil_iff, ite_eq_left_iff, reduceCtorEq, imp_false, Bool.not_eq_true,
    Bool.not_eq_false] at hclean
  refine ⟨⟨hclean.2, h.listed⟩, ?_⟩
  simpa [Site.surroundings] using hclean.1

/-- A function is new in its scope, and its body is settled behind its name. -/
theorem Settled.function {f : FunctionDecl} (h : Settled uses p (.function f)) :
    p.here.names.get? f.name.text = none
      ∧ FunctionSettled uses (p.after (.function f)).levels f.params f.body := by
  obtain ⟨name, params, body⟩ := f
  have hclean := h.clean
  have hshaped := h.shaped
  simp only [Stmt.wellFormed, FunctionDecl.wellFormed, Bool.and_eq_true] at hshaped
  simp only [Stmt.check, List.append_eq_nil_iff] at hclean
  obtain ⟨⟨hname, hparams⟩, hbody⟩ := hclean
  obtain ⟨hframe, hnew⟩ := Frame.declare_of_clean hname
  refine ⟨hnew, hparams, ?_, h.listed, hshaped.2, rfl⟩
  rw [Site.surroundings_ofFunction, Site.surroundings_after]
  rw [hframe] at hbody
  exact hbody

end Stmt

/-! ## Classes -/

/-- The names of a class body: the receiver and methods of the class, all of them constant. -/
structure ClassNames (c : ClassDecl) (names : Frame) : Prop where
  receiver : (names.get? receiverName).isSome = true
  constant : ∀ {name sort}, names.get? name = some sort → sort.isConstant = true
  known : ∀ {name sort}, names.get? name = some sort →
    name = receiverName ∨ ∃ method ∈ c.methods, method.name.text = name

/-- Before the first method, a class body names the receiver only. -/
theorem ClassNames.ofClass (c : ClassDecl) : ClassNames c .ofClass := by
  have hget : ∀ {name sort}, Frame.ofClass.get? name = some sort →
      name = receiverName ∧ sort = .receiver := by
    intro name sort h
    rw [Frame.ofClass, Bindings.get?_insert] at h
    split at h
    · next hname => exact ⟨hname.symm, (Option.some.inj h).symm⟩
    · cases h
  exact ⟨rfl, fun h => (hget h).2 ▸ rfl, fun h => .inl (hget h).1⟩

/-- A class body names each method that it has come to. -/
theorem ClassNames.insert {c : ClassDecl} {names : Frame} (h : ClassNames c names)
    {method : FunctionDecl} (hmethod : method ∈ c.methods) :
    ClassNames c (names.insert method.name.text .function) where
  receiver := by
    rw [Bindings.get?_insert]
    split
    · rfl
    · exact h.receiver
  constant := by
    intro name sort hget
    rw [Bindings.get?_insert] at hget
    split at hget
    · rw [← Option.some.inj hget]
      rfl
    · exact h.constant hget
  known := by
    intro name sort hget
    rw [Bindings.get?_insert] at hget
    split at hget
    · next hname => exact .inr ⟨method, hmethod, hname⟩
    · exact h.known hget

/-- A method is settled inside the body of its class. -/
def MethodSettled (uses : List Use) (captured : List Level) (c : ClassDecl)
    (method : FunctionDecl) : Prop :=
  ∃ names, ClassNames c names
    ∧ FunctionSettled uses (⟨names, [], some c⟩ :: captured) method.params method.body

/-- Methods without issues are settled, each with the names before it. -/
theorem methodSettled_of_listCheck {c : ClassDecl} :
    ∀ (methods : List FunctionDecl) (names : Frame), methods ⊆ c.methods → ClassNames c names →
      FunctionDecl.listCheck (p.surroundings.insideClass p.here.names) names methods = [] →
      FunctionDecl.listUses p.levels c names methods ⊆ uses →
      FunctionDecl.listWellFormed methods = true →
      ∀ method ∈ methods, MethodSettled uses p.levels c method
  | [], _, _, _, _, _, _ => nofun
  | ⟨name, params, body⟩ :: rest, names, hmethods, hnames, hclean, hlisted, hshaped => by
    simp only [FunctionDecl.listCheck, List.append_eq_nil_iff] at hclean
    simp only [FunctionDecl.listWellFormed, FunctionDecl.wellFormed, Bool.and_eq_true] at hshaped
    obtain ⟨⟨⟨hname, hparams⟩, hbody⟩, hrest⟩ := hclean
    obtain ⟨huses, huses'⟩ := List.append_subset.1 hlisted
    obtain ⟨hframe, -⟩ := Frame.declare_of_clean hname
    rw [hframe] at hbody hrest
    have hinside := hnames.insert (hmethods List.mem_cons_self)
    intro method hmethod
    rcases List.mem_cons.1 hmethod with rfl | hmethod
    · refine ⟨_, hinside, hparams, ?_, huses, hshaped.1.2, rfl⟩
      rw [Site.surroundings_ofMethod]
      exact hbody
    · exact methodSettled_of_listCheck rest _ (fun m hm => hmethods (List.mem_cons_of_mem _ hm))
        hinside hrest huses' hshaped.2 method hmethod

/-- A class is new in its scope, and its methods are settled behind its name. -/
theorem Stmt.Settled.classOf {c : ClassDecl} (h : Stmt.Settled uses p (.classOf c)) :
    p.here.names.get? c.name.text = none
      ∧ ∀ method ∈ c.methods, MethodSettled uses (p.after (.classOf c)).levels c method := by
  obtain ⟨name, methods⟩ := c
  have hclean := h.clean
  simp only [Stmt.check, List.append_eq_nil_iff] at hclean
  obtain ⟨hframe, hnew⟩ := Frame.declare_of_clean hclean.1
  have hbody := hclean.2
  rw [hframe] at hbody
  refine ⟨hnew, methodSettled_of_listCheck methods .ofClass (fun _ hm => hm) (.ofClass _) ?_
    h.listed h.shaped⟩
  rw [Site.surroundings_after]
  exact hbody

/-! ## Statements in order -/

/-- The names of a scope behind a statement are those that the check comes to. -/
theorem Stmt.Settled.check_eq {s : Stmt} (h : Stmt.Settled uses p s) :
    (s.check p.surroundings p.here.names).1 = (p.here.after s).names := by
  cases hs : s.isDeclaration with
  | false =>
    rw [Stmt.check_of_not_declaration _ _ s h.shaped hs]
    cases s with
    | declare name initial => cases hs
    | function f => cases hs
    | classOf c => cases hs
    | _ => rfl
  | true =>
    cases s with
    | declare name initial =>
      have hclean := h.clean
      simp only [Stmt.check, List.append_eq_nil_iff] at hclean
      exact (Frame.declare_of_clean hclean.2).1
    | function f =>
      obtain ⟨name, params, body⟩ := f
      have hclean := h.clean
      simp only [Stmt.check, List.append_eq_nil_iff] at hclean
      exact (Frame.declare_of_clean hclean.1.1).1
    | classOf c =>
      obtain ⟨name, methods⟩ := c
      have hclean := h.clean
      simp only [Stmt.check, List.append_eq_nil_iff] at hclean
      exact (Frame.declare_of_clean hclean.1).1
    | _ => cases hs

/-- Passing a statement takes what it declares off the list of what is still to come. -/
theorem later_after {level : Level} {s : Stmt} {rest : List Stmt}
    (h : level.later = constants (s :: rest)) : (level.after s).later = constants rest := by
  cases s with
  | function f =>
    simp [Level.after, Level.declare, SymbolSort.isConstant, h, constants, Stmt.constant?]
  | classOf c =>
    simp [Level.after, Level.declare, SymbolSort.isConstant, h, constants, Stmt.constant?]
  | _ => exact h

/-- The first of settled statements is settled, and the others are so behind it. -/
theorem Stmt.ListSettled.cons {s : Stmt} {rest : List Stmt}
    (h : Stmt.ListSettled uses p (s :: rest)) :
    Stmt.Settled uses p s ∧ Stmt.ListSettled uses (p.after s) rest := by
  have hclean := h.clean
  have hshaped := h.shaped
  simp only [Stmt.listCheck, List.append_eq_nil_iff] at hclean
  simp only [Stmt.listWellFormed, Bool.and_eq_true] at hshaped
  obtain ⟨huses, huses'⟩ := List.append_subset.1 h.listed
  have hs : Stmt.Settled uses p s := by
    refine ⟨hclean.1, huses, hshaped.1, fun name hname => ?_⟩
    rw [h.promised, constants, List.filterMap_cons_some hname]
    exact List.mem_cons_self
  refine ⟨hs, ?_, huses', hshaped.2, later_after h.promised⟩
  have hrest := hclean.2
  rw [hs.check_eq] at hrest
  rw [Site.surroundings_after]
  exact hrest

/-- A well-formed program without issues is settled from its start. -/
theorem Program.listSettled {program : Program} (hwf : program.wellFormed = true)
    (hclean : program.scopeIssues = []) :
    Stmt.ListSettled program.uses (.top program.declarations) program.declarations where
  clean := hclean
  listed := List.Subset.refl _
  shaped := hwf
  promised := rfl

end Quill

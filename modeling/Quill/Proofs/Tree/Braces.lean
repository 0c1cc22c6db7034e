import Mathlib.Data.List.Forall2
import Quill.Proofs.Grammar.Shape
import Quill.Tree.Cpp

/-!
# Braces around statements

A statement that declares nothing may be put into braces of its own, wherever it stands: at the top
level, in a block, as a branch or the body of a loop, in a function or a method. `Stmt.Braced` says
that one tree comes from another in this way. Names, parameters and methods stay as they are, so a
class with braces in its methods has the same methods under the same names
(`FunctionDecl.ListBraced.find?_reverse`).

In C++ all branches and bodies of loops stand in braces. `Program.braceBodies` puts these braces
into the tree: that is one way to add braces to a program of a shape of the grammar
(`Program.braced_braceBodies`), and it does not change the C++ text (`Program.cpp_braceBodies`).
-/

namespace Quill

mutual

/-- The second statement is the first with braces around some of the statements in it, perhaps
around itself. Declarations are not put into braces, but what they declare may have braces in it. -/
inductive Stmt.Braced : Stmt → Stmt → Prop
  | wrap {s s' : Stmt} (plain : s.isDeclaration = false) (inside : Stmt.Braced s s') :
      Stmt.Braced s (.block [s'])
  | expression (value : Expr) : Stmt.Braced (.expression value) (.expression value)
  | print (value : Expr) : Stmt.Braced (.print value) (.print value)
  | declare (name : Name) (initial : Option Expr) :
      Stmt.Braced (.declare name initial) (.declare name initial)
  | block {body body' : List Stmt} (inside : Stmt.ListBraced body body') :
      Stmt.Braced (.block body) (.block body')
  | choice (condition : Expr) {thenBranch thenBranch' : Stmt}
      (inThen : Stmt.Braced thenBranch thenBranch') :
      Stmt.Braced (.branch condition thenBranch none) (.branch condition thenBranch' none)
  | choices (condition : Expr) {thenBranch thenBranch' elseBranch elseBranch' : Stmt}
      (inThen : Stmt.Braced thenBranch thenBranch') (inElse : Stmt.Braced elseBranch elseBranch') :
      Stmt.Braced (.branch condition thenBranch (some elseBranch))
        (.branch condition thenBranch' (some elseBranch'))
  | loop (condition : Expr) {body body' : Stmt} (inside : Stmt.Braced body body') :
      Stmt.Braced (.loop condition body) (.loop condition body')
  | leave (line : Nat) (value : Option Expr) : Stmt.Braced (.leave line value) (.leave line value)
  | function {f f' : FunctionDecl} (inside : FunctionDecl.Braced f f') :
      Stmt.Braced (.function f) (.function f')
  | classOf (name : Name) {methods methods' : List FunctionDecl}
      (inside : FunctionDecl.ListBraced methods methods') :
      Stmt.Braced (.classOf ⟨name, methods⟩) (.classOf ⟨name, methods'⟩)

/-- The statements with braces around some of them and of those in them. -/
inductive Stmt.ListBraced : List Stmt → List Stmt → Prop
  | nil : Stmt.ListBraced [] []
  | cons {s s' : Stmt} {rest rest' : List Stmt} (first : Stmt.Braced s s')
      (behind : Stmt.ListBraced rest rest') : Stmt.ListBraced (s :: rest) (s' :: rest')

/-- The function with braces around some of the statements in it. -/
inductive FunctionDecl.Braced : FunctionDecl → FunctionDecl → Prop
  | body (name : Name) (params : List Name) {body body' : List Stmt}
      (inside : Stmt.ListBraced body body') :
      FunctionDecl.Braced ⟨name, params, body⟩ ⟨name, params, body'⟩

/-- The functions with braces around some of the statements in them. -/
inductive FunctionDecl.ListBraced : List FunctionDecl → List FunctionDecl → Prop
  | nil : FunctionDecl.ListBraced [] []
  | cons {f f' : FunctionDecl} {rest rest' : List FunctionDecl} (first : FunctionDecl.Braced f f')
      (behind : FunctionDecl.ListBraced rest rest') :
      FunctionDecl.ListBraced (f :: rest) (f' :: rest')

end

/-- The program with braces around some of the statements in it. -/
def Program.Braced (p p' : Program) : Prop := Stmt.ListBraced p.declarations p'.declarations

/-! ## Functions and methods -/

namespace FunctionDecl

namespace Braced

variable {f f' : FunctionDecl} (h : f.Braced f')

include h

/-- Braces do not change the name of a function. -/
theorem name_eq : f'.name = f.name := by
  cases h
  rfl

/-- Braces do not change the parameters of a function. -/
theorem params_eq : f'.params = f.params := by
  cases h
  rfl

/-- Braces do not change the number of parameters. -/
theorem arity_eq : f'.arity = f.arity := by
  rw [arity, arity, h.params_eq]

/-- The body of the function has braces around some of the statements in it. -/
theorem listBraced : Stmt.ListBraced f.body f'.body := by
  cases h with
  | body _ _ inside => exact inside

end Braced

/-- The body of a function that has its shape has its own. -/
theorem listWellFormed_body {f : FunctionDecl} (h : f.wellFormed = true) :
    Stmt.listWellFormed f.body = true := by
  obtain ⟨name, params, body⟩ := f
  rw [FunctionDecl.wellFormed, Bool.and_eq_true] at h
  exact h.2

namespace ListBraced

variable {methods methods' : List FunctionDecl}

/-- Methods have braces around statements one by one. -/
theorem forall₂ : ∀ {methods methods' : List FunctionDecl},
    FunctionDecl.ListBraced methods methods' → List.Forall₂ FunctionDecl.Braced methods methods'
  | _, _, .nil => .nil
  | _, _, .cons first behind => .cons first behind.forall₂

/-- What is found by a name is found in the same place. -/
theorem find?_forall₂ (h : List.Forall₂ FunctionDecl.Braced methods methods') (name : String) :
    Option.Rel FunctionDecl.Braced (methods.find? fun method => method.name.text == name)
      (methods'.find? fun method => method.name.text == name) := by
  induction h with
  | nil => exact .none
  | @cons method method' rest rest' hfirst _ ih =>
    rw [List.find?_cons, List.find?_cons, hfirst.name_eq]
    cases method.name.text == name with
    | true => exact .some hfirst
    | false => exact ih

/-- The same holds from the other end, where methods are looked for. -/
theorem find?_reverse (h : FunctionDecl.ListBraced methods methods') (name : String) :
    Option.Rel FunctionDecl.Braced
      (methods.reverse.find? fun method => method.name.text == name)
      (methods'.reverse.find? fun method => method.name.text == name) :=
  find?_forall₂ (List.rel_reverse h.forall₂) name

end ListBraced

end FunctionDecl

/-! ## Bodies declare nothing -/

section

variable {condition : Expr} {body elseBranch : Stmt}

/-- What a choice without `else` chooses has its shape and declares nothing. -/
theorem Stmt.wellFormed_choice (h : (Stmt.branch condition body none).wellFormed = true) :
    body.isDeclaration = false ∧ body.wellFormed = true := by
  simp only [Stmt.wellFormed, Bool.and_eq_true, Bool.not_eq_true'] at h
  exact ⟨h.1.2, h.2⟩

/-- What a choice chooses between has its shape and declares nothing. -/
theorem Stmt.wellFormed_choices
    (h : (Stmt.branch condition body (some elseBranch)).wellFormed = true) :
    (body.isDeclaration = false ∧ body.wellFormed = true)
      ∧ elseBranch.isDeclaration = false ∧ elseBranch.wellFormed = true := by
  simp only [Stmt.wellFormed, Bool.and_eq_true, Bool.not_eq_true'] at h
  obtain ⟨⟨⟨⟨⟨-, hplain⟩, hwf⟩, -⟩, hplain'⟩, hwf'⟩ := h
  exact ⟨⟨hplain, hwf⟩, hplain', hwf'⟩

/-- The body of a loop has its shape and declares nothing. -/
theorem Stmt.wellFormed_loop (h : (Stmt.loop condition body).wellFormed = true) :
    body.isDeclaration = false ∧ body.wellFormed = true := by
  simp only [Stmt.wellFormed, Bool.and_eq_true, Bool.not_eq_true'] at h
  exact ⟨h.1.2, h.2⟩

end

/-! ## Braces around every body -/

/-- The statement in braces, if it is not a block already. -/
def Stmt.inBraces : Stmt → Stmt
  | .block body => .block body
  | s => .block [s]

mutual

/-- The statement with braces around every branch and every body of a loop in it. -/
def Stmt.braceBodies : Stmt → Stmt
  | .block body => .block (Stmt.listBraceBodies body)
  | .branch condition thenBranch none => .branch condition thenBranch.braceBodies.inBraces none
  | .branch condition thenBranch (some elseBranch) =>
    .branch condition thenBranch.braceBodies.inBraces (some elseBranch.braceBodies.inBraces)
  | .loop condition body => .loop condition body.braceBodies.inBraces
  | .function declaration => .function declaration.braceBodies
  | .classOf ⟨name, methods⟩ => .classOf ⟨name, FunctionDecl.listBraceBodies methods⟩
  | s => s

/-- The statements with braces around every branch and every body of a loop in them. -/
def Stmt.listBraceBodies : List Stmt → List Stmt
  | [] => []
  | s :: rest => s.braceBodies :: Stmt.listBraceBodies rest

/-- The function with braces around every branch and every body of a loop in it. -/
def FunctionDecl.braceBodies : FunctionDecl → FunctionDecl
  | ⟨name, params, body⟩ => ⟨name, params, Stmt.listBraceBodies body⟩

/-- The functions with braces around every branch and every body of a loop in them. -/
def FunctionDecl.listBraceBodies : List FunctionDecl → List FunctionDecl
  | [] => []
  | method :: rest => method.braceBodies :: FunctionDecl.listBraceBodies rest

end

/-- The program with braces around every branch and every body of a loop in it. -/
def Program.braceBodies (p : Program) : Program := ⟨Stmt.listBraceBodies p.declarations⟩

/-- A statement that declares nothing may have braces around itself. -/
theorem Stmt.Braced.inBraces {s s' : Stmt} (h : s.Braced s') (plain : s.isDeclaration = false) :
    s.Braced s'.inBraces := by
  cases s' with
  | block body => exact h
  | _ => exact .wrap plain h

mutual

/-- Braces around every body of a statement are braces around some statements in it. -/
theorem Stmt.braced_braceBodies : (s : Stmt) → s.wellFormed = true → s.Braced s.braceBodies
  | .expression value, _ => .expression value
  | .print value, _ => .print value
  | .declare name initial, _ => .declare name initial
  | .block body, hwf => by
    rw [Stmt.wellFormed] at hwf
    rw [Stmt.braceBodies]
    exact .block (Stmt.listBraced_braceBodies body hwf)
  | .branch condition thenBranch none, hwf => by
    obtain ⟨hplain, hwfThen⟩ := Stmt.wellFormed_choice hwf
    rw [Stmt.braceBodies]
    exact .choice condition ((Stmt.braced_braceBodies thenBranch hwfThen).inBraces hplain)
  | .branch condition thenBranch (some elseBranch), hwf => by
    obtain ⟨⟨hplain, hwfThen⟩, hplain', hwfElse⟩ := Stmt.wellFormed_choices hwf
    rw [Stmt.braceBodies]
    exact .choices condition ((Stmt.braced_braceBodies thenBranch hwfThen).inBraces hplain)
      ((Stmt.braced_braceBodies elseBranch hwfElse).inBraces hplain')
  | .loop condition body, hwf => by
    obtain ⟨hplain, hwfBody⟩ := Stmt.wellFormed_loop hwf
    rw [Stmt.braceBodies]
    exact .loop condition ((Stmt.braced_braceBodies body hwfBody).inBraces hplain)
  | .leave line value, _ => .leave line value
  | .function declaration, hwf => by
    rw [Stmt.wellFormed] at hwf
    rw [Stmt.braceBodies]
    exact .function (FunctionDecl.braced_braceBodies declaration hwf)
  | .classOf ⟨name, methods⟩, hwf => by
    rw [Stmt.wellFormed] at hwf
    rw [Stmt.braceBodies]
    exact .classOf name (FunctionDecl.listBraced_braceBodies methods hwf)

/-- Braces around every body of statements are braces around some statements in them. -/
theorem Stmt.listBraced_braceBodies : (body : List Stmt) → Stmt.listWellFormed body = true →
    Stmt.ListBraced body (Stmt.listBraceBodies body)
  | [], _ => .nil
  | s :: rest, hwf => by
    rw [Stmt.listWellFormed, Bool.and_eq_true] at hwf
    exact .cons (Stmt.braced_braceBodies s hwf.1) (Stmt.listBraced_braceBodies rest hwf.2)

/-- Braces around every body of a function are braces around some statements in it. -/
theorem FunctionDecl.braced_braceBodies : (f : FunctionDecl) → f.wellFormed = true →
    f.Braced f.braceBodies
  | ⟨name, params, body⟩, hwf => by
    rw [FunctionDecl.wellFormed, Bool.and_eq_true] at hwf
    exact .body name params (Stmt.listBraced_braceBodies body hwf.2)

/-- Braces around every body of functions are braces around some statements in them. -/
theorem FunctionDecl.listBraced_braceBodies : (methods : List FunctionDecl) →
    FunctionDecl.listWellFormed methods = true →
      FunctionDecl.ListBraced methods (FunctionDecl.listBraceBodies methods)
  | [], _ => .nil
  | method :: rest, hwf => by
    rw [FunctionDecl.listWellFormed, Bool.and_eq_true] at hwf
    exact .cons (FunctionDecl.braced_braceBodies method hwf.1)
      (FunctionDecl.listBraced_braceBodies rest hwf.2)

end

/-- In a program of a shape of the grammar, no branch and no body of a loop declares anything, so
each may be put into braces. -/
theorem Program.braced_braceBodies {p : Program} (hwf : p.wellFormed = true) :
    p.Braced p.braceBodies :=
  Stmt.listBraced_braceBodies p.declarations hwf

/-! ### In C++ -/

/-- Inside the braces of a branch or loop, braces of its own make no difference to a statement. -/
theorem Stmt.cpp_inBraces (level : Nat) (s : Stmt) :
    s.inBraces.cpp level true = s.cpp level true := by
  have hone : ∀ s : Stmt, (Stmt.block [s]).cpp level true = s.cpp level false := by
    intro s
    simp only [Stmt.cpp, Stmt.listCpp, List.append_nil, if_true]
  cases s with
  | block body => rfl
  | declare name initial =>
    cases initial with
    | _ => exact hone _
  | branch condition thenBranch elseBranch =>
    cases elseBranch with
    | _ => exact hone _
  | leave line value =>
    cases value with
    | _ => exact hone _
  | function declaration =>
    obtain ⟨name, params, body⟩ := declaration
    exact hone _
  | _ => exact hone _

mutual

/-- The translation of a statement has braces around every body anyway. -/
theorem Stmt.cpp_braceBodies : (s : Stmt) → ∀ (level : Nat) (braced : Bool),
    s.braceBodies.cpp level braced = s.cpp level braced
  | .expression _, _, _ => rfl
  | .print _, _, _ => rfl
  | .declare _ _, _, _ => rfl
  | .block body, level, braced => by
    simp only [Stmt.braceBodies, Stmt.cpp, Stmt.listCpp_braceBodies body]
  | .branch condition thenBranch none, level, braced => by
    simp only [Stmt.braceBodies, Stmt.cpp, Stmt.cpp_inBraces, Stmt.cpp_braceBodies thenBranch]
  | .branch condition thenBranch (some elseBranch), level, braced => by
    simp only [Stmt.braceBodies, Stmt.cpp, Stmt.cpp_inBraces, Stmt.cpp_braceBodies thenBranch,
      Stmt.cpp_braceBodies elseBranch]
  | .loop condition body, level, braced => by
    simp only [Stmt.braceBodies, Stmt.cpp, Stmt.cpp_inBraces, Stmt.cpp_braceBodies body]
  | .leave _ _, _, _ => rfl
  | .function ⟨name, params, body⟩, level, braced => by
    simp only [Stmt.braceBodies, FunctionDecl.braceBodies, Stmt.cpp, Stmt.listCpp_braceBodies body]
  | .classOf ⟨name, methods⟩, level, braced => by
    simp only [Stmt.braceBodies, Stmt.cpp, ClassDecl.cpp,
      FunctionDecl.listCpp_braceBodies methods]

/-- The translation of statements has braces around every body anyway. -/
theorem Stmt.listCpp_braceBodies : (body : List Stmt) → ∀ level : Nat,
    Stmt.listCpp level (Stmt.listBraceBodies body) = Stmt.listCpp level body
  | [], _ => rfl
  | s :: rest, level => by
    simp only [Stmt.listBraceBodies, Stmt.listCpp, Stmt.cpp_braceBodies s,
      Stmt.listCpp_braceBodies rest]

/-- The translation of a function has braces around every body anyway. -/
theorem FunctionDecl.cpp_braceBodies : (f : FunctionDecl) → ∀ level : Nat,
    f.braceBodies.cpp level = f.cpp level
  | ⟨name, params, body⟩, level => by
    simp only [FunctionDecl.braceBodies, FunctionDecl.cpp, Stmt.listCpp_braceBodies body]

/-- The translation of functions has braces around every body anyway. -/
theorem FunctionDecl.listCpp_braceBodies : (methods : List FunctionDecl) → ∀ level : Nat,
    FunctionDecl.listCpp level (FunctionDecl.listBraceBodies methods) =
      FunctionDecl.listCpp level methods
  | [], _ => rfl
  | method :: rest, level => by
    simp only [FunctionDecl.listBraceBodies, FunctionDecl.listCpp,
      FunctionDecl.cpp_braceBodies method, FunctionDecl.listCpp_braceBodies rest]

end

/-- Braces around bodies do not change what is put in front of the main function. -/
theorem Stmt.cppHoisted_braceBodies (s : Stmt) : s.braceBodies.cppHoisted = s.cppHoisted := by
  cases s with
  | function f => exact f.cpp_braceBodies 0
  | classOf c =>
    obtain ⟨name, methods⟩ := c
    exact Stmt.cpp_braceBodies (.classOf ⟨name, methods⟩) 0 false
  | branch condition thenBranch elseBranch =>
    cases elseBranch with
    | _ => rfl
  | _ => rfl

/-- Braces around bodies do not change which statements stay in the main function. -/
theorem Stmt.staysInMain_braceBodies (s : Stmt) : s.braceBodies.staysInMain = s.staysInMain := by
  cases s with
  | branch condition thenBranch elseBranch =>
    cases elseBranch with
    | _ => rfl
  | classOf c =>
    obtain ⟨name, methods⟩ := c
    rfl
  | _ => rfl

/-- Braces are put around bodies statement by statement. -/
theorem Stmt.listBraceBodies_eq_map (body : List Stmt) :
    Stmt.listBraceBodies body = body.map Stmt.braceBodies := by
  induction body with
  | nil => rfl
  | cons s rest ih => rw [Stmt.listBraceBodies, ih, List.map_cons]

/-- In C++ every branch and every body of a loop stands in braces anyway. -/
theorem Program.cpp_braceBodies (p : Program) : p.braceBodies.cpp = p.cpp := by
  have hhoisted : (Stmt.listBraceBodies p.declarations).flatMap Stmt.cppHoisted =
      p.declarations.flatMap Stmt.cppHoisted := by
    rw [Stmt.listBraceBodies_eq_map, List.flatMap_map]
    exact congrArg (List.flatMap · p.declarations) (funext Stmt.cppHoisted_braceBodies)
  have hmain : (Stmt.listBraceBodies p.declarations).filter Stmt.staysInMain =
      Stmt.listBraceBodies (p.declarations.filter Stmt.staysInMain) := by
    have htest : Stmt.staysInMain ∘ Stmt.braceBodies = Stmt.staysInMain :=
      funext Stmt.staysInMain_braceBodies
    rw [Stmt.listBraceBodies_eq_map, Stmt.listBraceBodies_eq_map, List.filter_map, htest]
  rw [Program.cpp, Program.cpp, Program.cppLines, Program.cppLines, Program.braceBodies, hhoisted,
    hmain, Stmt.listCpp_braceBodies]

end Quill

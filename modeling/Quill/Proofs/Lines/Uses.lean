import Quill.Proofs.Lines.Relabelling
import Quill.Proofs.Scoping.Sites

/-!
# Shapes and uses on other lines

What is known of the text of a program by its tree does not depend on lines either: whether the tree
has a shape of the grammar (`Program.wellFormed_mapLines`), and where its names are used
(`Program.uses_mapLines`). A site holds the classes around it, which are trees, so it is put on other
lines with them; whether a name may have been declared late there is the same
(`Site.isLate_mapLines`).
-/

namespace Quill

variable (f : Nat → Nat)

/-! ## Shapes -/

/-- The tier of an expression does not depend on its lines. -/
@[simp] theorem Expr.tier_mapLines (e : Expr) : (e.mapLines f).tier = e.tier := by
  cases e <;> simp [Expr.mapLines, Expr.tier]

mutual

/-- On other lines an expression has a shape of the grammar just if it has one on its own. -/
theorem Expr.wellFormed_mapLines : (e : Expr) → (e.mapLines f).wellFormed = e.wellFormed
  | .literal value line => by simp [Expr.mapLines, Expr.wellFormed]
  | .unary operator operand => by
    simp [Expr.mapLines, Expr.wellFormed, Expr.wellFormed_mapLines operand]
  | .binary left operator right => by
    simp [Expr.mapLines, Expr.wellFormed, Expr.wellFormed_mapLines left,
      Expr.wellFormed_mapLines right]
  | .group inner => by simp [Expr.mapLines, Expr.wellFormed, Expr.wellFormed_mapLines inner]
  | .reference name => by simp [Expr.mapLines, Expr.wellFormed]
  | .assign name value => by
    simp [Expr.mapLines, Expr.wellFormed, Expr.wellFormed_mapLines value]
  | .call callee arguments line => by
    simp [Expr.mapLines, Expr.wellFormed, Expr.wellFormed_mapLines callee,
      Expr.listWellFormed_mapLines arguments, Expr.listMapLines_eq_map]
  | .get object property => by
    simp [Expr.mapLines, Expr.wellFormed, Expr.wellFormed_mapLines object]
  | .set object property value => by
    simp [Expr.mapLines, Expr.wellFormed, Expr.wellFormed_mapLines object,
      Expr.wellFormed_mapLines value]
  | .this line => by simp [Expr.mapLines, Expr.wellFormed]

/-- On other lines expressions have a shape of the grammar just if they have one on their own. -/
theorem Expr.listWellFormed_mapLines : (es : List Expr) →
    Expr.listWellFormed (es.map (Expr.mapLines f)) = Expr.listWellFormed es
  | [] => rfl
  | e :: rest => by
    simp [Expr.listWellFormed, Expr.wellFormed_mapLines e, Expr.listWellFormed_mapLines rest]

end

/-- The shape of an expression that may be missing does not depend on its lines. -/
@[simp] theorem Expr.optionWellFormed_mapLines (e : Option Expr) :
    Expr.optionWellFormed (e.map (Expr.mapLines f)) = Expr.optionWellFormed e := by
  cases e with
  | none => rfl
  | some e => exact Expr.wellFormed_mapLines f e

/-- Whether a statement declares something does not depend on its lines. -/
@[simp] theorem Stmt.isDeclaration_mapLines (s : Stmt) :
    (s.mapLines f).isDeclaration = s.isDeclaration := by
  cases s with
  | branch condition thenBranch elseBranch => cases elseBranch <;> rfl
  | _ => rfl

/-- On other lines a statement ends in an open choice just if it does on its own. -/
theorem Stmt.endsOpen_mapLines : (s : Stmt) → (s.mapLines f).endsOpen = s.endsOpen
  | .branch condition thenBranch none => rfl
  | .branch condition thenBranch (some elseBranch) => by
    rw [Stmt.mapLines, Stmt.endsOpen, Stmt.endsOpen, Stmt.endsOpen_mapLines elseBranch]
  | .loop condition body => by
    rw [Stmt.mapLines, Stmt.endsOpen, Stmt.endsOpen, Stmt.endsOpen_mapLines body]
  | .expression _ => rfl
  | .print _ => rfl
  | .declare _ _ => rfl
  | .block _ => rfl
  | .leave _ _ => rfl
  | .function _ => rfl
  | .classOf _ => rfl

mutual

/-- On other lines a statement has a shape of the grammar just if it has one on its own. -/
theorem Stmt.wellFormed_mapLines : (s : Stmt) → (s.mapLines f).wellFormed = s.wellFormed
  | .expression value => by simp [Stmt.mapLines, Stmt.wellFormed, Expr.wellFormed_mapLines]
  | .print value => by simp [Stmt.mapLines, Stmt.wellFormed, Expr.wellFormed_mapLines]
  | .declare name initial => by simp [Stmt.mapLines, Stmt.wellFormed]
  | .block body => by simp [Stmt.mapLines, Stmt.wellFormed, Stmt.listWellFormed_mapLines body]
  | .branch condition thenBranch none => by
    simp [Stmt.mapLines, Stmt.wellFormed, Expr.wellFormed_mapLines,
      Stmt.wellFormed_mapLines thenBranch]
  | .branch condition thenBranch (some elseBranch) => by
    simp [Stmt.mapLines, Stmt.wellFormed, Expr.wellFormed_mapLines, Stmt.endsOpen_mapLines,
      Stmt.wellFormed_mapLines thenBranch, Stmt.wellFormed_mapLines elseBranch]
  | .loop condition body => by
    simp [Stmt.mapLines, Stmt.wellFormed, Expr.wellFormed_mapLines, Stmt.wellFormed_mapLines body]
  | .leave line value => by simp [Stmt.mapLines, Stmt.wellFormed]
  | .function ⟨name, params, body⟩ => by
    simp [Stmt.mapLines, FunctionDecl.mapLines, Stmt.wellFormed, FunctionDecl.wellFormed,
      Stmt.listWellFormed_mapLines body]
  | .classOf ⟨name, methods⟩ => by
    simp [Stmt.mapLines, ClassDecl.mapLines, Stmt.wellFormed,
      FunctionDecl.listWellFormed_mapLines methods]

/-- On other lines statements have a shape of the grammar just if they have one on their own. -/
theorem Stmt.listWellFormed_mapLines : (body : List Stmt) →
    Stmt.listWellFormed (Stmt.listMapLines f body) = Stmt.listWellFormed body
  | [] => rfl
  | s :: rest => by
    simp [Stmt.listMapLines, Stmt.listWellFormed, Stmt.wellFormed_mapLines s,
      Stmt.listWellFormed_mapLines rest]

/-- On other lines methods have a shape of the grammar just if they have one on their own. -/
theorem FunctionDecl.listWellFormed_mapLines : (methods : List FunctionDecl) →
    FunctionDecl.listWellFormed (FunctionDecl.listMapLines f methods) =
      FunctionDecl.listWellFormed methods
  | [] => rfl
  | ⟨name, params, body⟩ :: rest => by
    simp [FunctionDecl.listMapLines, FunctionDecl.mapLines, FunctionDecl.listWellFormed,
      FunctionDecl.wellFormed, Stmt.listWellFormed_mapLines body,
      FunctionDecl.listWellFormed_mapLines rest]

end

/-- On other lines a program has a shape of the grammar just if it has one on its own. -/
theorem Program.wellFormed_mapLines (program : Program) :
    (program.mapLines f).wellFormed = program.wellFormed :=
  Stmt.listWellFormed_mapLines f program.declarations

/-! ## Sites and uses -/

/-- The scope, its class on other lines. -/
def Level.mapLines (level : Level) : Level :=
  { level with classOf? := level.classOf?.map (ClassDecl.mapLines f) }

/-- The site on other lines. -/
def Site.mapLines (p : Site) : Site :=
  ⟨p.here.mapLines f, p.around.map (Level.mapLines f), p.captured.map (Level.mapLines f)⟩

/-- The use on another line. -/
def Use.mapLines (use : Use) : Use :=
  { use with name := use.name.mapLine f, site := use.site.mapLines f }

/-- The variable of a constant does not depend on its lines. -/
@[simp] theorem Stmt.constant?_mapLines (s : Stmt) : (s.mapLines f).constant? = s.constant? := by
  cases s with
  | branch condition thenBranch elseBranch => cases elseBranch <;> rfl
  | function declaration => simp [Stmt.mapLines, Stmt.constant?]
  | classOf declaration => simp [Stmt.mapLines, Stmt.constant?]
  | _ => rfl

/-- On other lines statements declare the same functions and classes. -/
theorem constants_mapLines (body : List Stmt) :
    constants (Stmt.listMapLines f body) = constants body := by
  have hsame : Stmt.constant? ∘ Stmt.mapLines f = Stmt.constant? :=
    funext fun s => s.constant?_mapLines f
  rw [Stmt.listMapLines_eq_map, constants, List.filterMap_map, hsame, constants]

/-- A statement on other lines declares in its scope what it declares on its own. -/
theorem Level.after_mapLines (level : Level) (s : Stmt) :
    (level.mapLines f).after (s.mapLines f) = (level.after s).mapLines f := by
  cases s with
  | branch condition thenBranch elseBranch => cases elseBranch <;> rfl
  | function declaration => simp [Stmt.mapLines, Level.after, Level.declare, Level.mapLines]
  | classOf declaration => simp [Stmt.mapLines, Level.after, Level.declare, Level.mapLines]
  | _ => rfl

namespace Site

/-- The site behind a statement on other lines is the site behind it, on those lines. -/
theorem after_mapLines (p : Site) (s : Stmt) :
    (p.mapLines f).after (s.mapLines f) = (p.after s).mapLines f := by
  simp [after, mapLines, Level.after_mapLines]

/-- The site inside a block on other lines is the site inside it, on those lines. -/
theorem insideBlock_mapLines (p : Site) (body : List Stmt) :
    (p.mapLines f).insideBlock (Stmt.listMapLines f body) = (p.insideBlock body).mapLines f := by
  simp [insideBlock, mapLines, Level.ofBody, Level.mapLines, constants_mapLines]

/-- The levels of a site on other lines are its levels, on those lines. -/
theorem levels_mapLines (p : Site) : (p.mapLines f).levels = p.levels.map (Level.mapLines f) := by
  simp [levels, mapLines]

/-- The site in the body of a function on other lines is that in its body, on those lines. -/
theorem ofFunction_mapLines (captured : List Level) (params : List Name) (body : List Stmt) :
    ofFunction (captured.map (Level.mapLines f)) (params.map (Name.mapLine f))
        (Stmt.listMapLines f body) = (ofFunction captured params body).mapLines f := by
  simp [ofFunction, mapLines, Level.ofBody, Level.mapLines, constants_mapLines,
    Frame.declareAll_mapLine]

/-- The site at the top of a program on other lines is that at its top, on those lines. -/
theorem top_mapLines (body : List Stmt) :
    top (Stmt.listMapLines f body) = (top body).mapLines f := by
  simp [top, mapLines, Level.ofBody, Level.mapLines, constants_mapLines]

/-- The classes around a site on other lines are those around it, on these lines. -/
theorem classes_mapLines (p : Site) :
    (p.mapLines f).classes = p.classes.map (ClassDecl.mapLines f) := by
  rw [classes, levels_mapLines, List.filterMap_map, classes, List.map_filterMap]
  rfl

/-- Whether a name may have been declared late does not depend on lines. -/
theorem isLate_mapLines (p : Site) (name : String) :
    (p.mapLines f).isLate name = p.isLate name := by
  have hlate : ∀ levels : List Level,
      lateIn (levels.map (Level.mapLines f)) name = lateIn levels name := by
    intro levels
    induction levels with
    | nil => rfl
    | cons level rest ih =>
      rw [List.map_cons, lateIn, lateIn, ih]
      rfl
  have hnames : (List.map (Level.mapLines f) (p.here :: p.around)).any
      (fun level => level.names.contains name) =
        (p.here :: p.around).any fun level => level.names.contains name := by
    rw [List.any_map]
    rfl
  rw [isLate, isLate, ← hnames, ← hlate p.captured]
  rfl

end Site

mutual

/-- The uses of an expression on other lines are its uses, on these lines. -/
theorem Expr.uses_mapLines (p : Site) : (e : Expr) →
    (e.mapLines f).uses (p.mapLines f) = (e.uses p).map (Use.mapLines f)
  | .literal value line => by simp [Expr.mapLines, Expr.uses]
  | .unary operator operand => by simp [Expr.mapLines, Expr.uses, Expr.uses_mapLines p operand]
  | .binary left operator right => by
    simp [Expr.mapLines, Expr.uses, Expr.uses_mapLines p left, Expr.uses_mapLines p right]
  | .group inner => by simp [Expr.mapLines, Expr.uses, Expr.uses_mapLines p inner]
  | .reference name => by simp [Expr.mapLines, Expr.uses, Use.mapLines]
  | .assign name value => by
    simp [Expr.mapLines, Expr.uses, Use.mapLines, Expr.uses_mapLines p value]
  | .call callee arguments line => by
    simp [Expr.mapLines, Expr.uses, Expr.uses_mapLines p callee,
      Expr.listUses_mapLines p arguments]
  | .get object property => by simp [Expr.mapLines, Expr.uses, Expr.uses_mapLines p object]
  | .set object property value => by
    simp [Expr.mapLines, Expr.uses, Expr.uses_mapLines p object, Expr.uses_mapLines p value]
  | .this line => by simp [Expr.mapLines, Expr.uses]

/-- The uses of expressions on other lines are their uses, on these lines. -/
theorem Expr.listUses_mapLines (p : Site) : (es : List Expr) →
    Expr.listUses (p.mapLines f) (Expr.listMapLines f es) =
      (Expr.listUses p es).map (Use.mapLines f)
  | [] => rfl
  | e :: rest => by
    simp [Expr.listMapLines, Expr.listUses, Expr.uses_mapLines p e, Expr.listUses_mapLines p rest]

end

/-- The uses of an expression that may be missing, on other lines. -/
theorem Expr.optionUses_mapLines (p : Site) (e : Option Expr) :
    Expr.optionUses (p.mapLines f) (e.map (Expr.mapLines f)) =
      (Expr.optionUses p e).map (Use.mapLines f) := by
  cases e with
  | none => rfl
  | some e => exact Expr.uses_mapLines f p e

mutual

/-- The uses of a statement on other lines are its uses, on these lines. -/
theorem Stmt.uses_mapLines : (s : Stmt) → ∀ p : Site,
    (s.mapLines f).uses (p.mapLines f) = (s.uses p).map (Use.mapLines f)
  | .expression value, p => by simp [Stmt.mapLines, Stmt.uses, Expr.uses_mapLines]
  | .print value, p => by simp [Stmt.mapLines, Stmt.uses, Expr.uses_mapLines]
  | .declare name initial, p => by simp [Stmt.mapLines, Stmt.uses, Expr.optionUses_mapLines]
  | .block body, p => by
    rw [Stmt.mapLines, Stmt.uses, Stmt.uses, Site.insideBlock_mapLines,
      Stmt.listUses_mapLines body]
  | .branch condition thenBranch none, p => by
    simp [Stmt.mapLines, Stmt.uses, Expr.uses_mapLines, Stmt.uses_mapLines thenBranch]
  | .branch condition thenBranch (some elseBranch), p => by
    simp [Stmt.mapLines, Stmt.uses, Expr.uses_mapLines, Stmt.uses_mapLines thenBranch,
      Stmt.uses_mapLines elseBranch]
  | .loop condition body, p => by
    simp [Stmt.mapLines, Stmt.uses, Expr.uses_mapLines, Stmt.uses_mapLines body]
  | .leave line value, p => by simp [Stmt.mapLines, Stmt.uses, Expr.optionUses_mapLines]
  | .function ⟨name, params, body⟩, p => by
    have hafter := p.after_mapLines f (.function ⟨name, params, body⟩)
    rw [Stmt.mapLines, FunctionDecl.mapLines] at hafter ⊢
    rw [Stmt.uses, Stmt.uses, hafter, Site.levels_mapLines, Site.ofFunction_mapLines,
      Stmt.listUses_mapLines body]
  | .classOf ⟨name, methods⟩, p => by
    have hafter := p.after_mapLines f (.classOf ⟨name, methods⟩)
    have hmethods := FunctionDecl.listUses_mapLines methods
      (p.after (.classOf ⟨name, methods⟩)).levels ⟨name, methods⟩ .ofClass
    rw [ClassDecl.mapLines] at hmethods
    rw [Stmt.mapLines, ClassDecl.mapLines] at hafter ⊢
    rw [Stmt.uses, Stmt.uses, hafter, Site.levels_mapLines, hmethods]

/-- The uses of statements on other lines are their uses, on these lines. -/
theorem Stmt.listUses_mapLines : (body : List Stmt) → ∀ p : Site,
    Stmt.listUses (p.mapLines f) (Stmt.listMapLines f body) =
      (Stmt.listUses p body).map (Use.mapLines f)
  | [], _ => rfl
  | s :: rest, p => by
    rw [Stmt.listMapLines, Stmt.listUses, Stmt.listUses, Site.after_mapLines,
      Stmt.uses_mapLines s, Stmt.listUses_mapLines rest, List.map_append]

/-- The uses of methods on other lines are their uses, on these lines. -/
theorem FunctionDecl.listUses_mapLines : (methods : List FunctionDecl) →
    ∀ (captured : List Level) (c : ClassDecl) (names : Frame),
      FunctionDecl.listUses (captured.map (Level.mapLines f)) (c.mapLines f) names
          (FunctionDecl.listMapLines f methods) =
        (FunctionDecl.listUses captured c names methods).map (Use.mapLines f)
  | [], _, _, _ => rfl
  | ⟨name, params, body⟩ :: rest, captured, c, names => by
    have hcaptured : ⟨names.insert name.text .function, [], some (c.mapLines f)⟩
          :: captured.map (Level.mapLines f) =
        (⟨names.insert name.text .function, [], some c⟩ :: captured).map (Level.mapLines f) := rfl
    rw [FunctionDecl.listMapLines, FunctionDecl.mapLines, FunctionDecl.listUses,
      FunctionDecl.listUses, List.map_append]
    rw [Name.text_mapLine, hcaptured, Site.ofFunction_mapLines, Stmt.listUses_mapLines body,
      FunctionDecl.listUses_mapLines rest]

end

/-- The uses of a program on other lines are its uses, on these lines. -/
theorem Program.uses_mapLines (program : Program) :
    (program.mapLines f).uses = program.uses.map (Use.mapLines f) := by
  rw [Program.uses, Program.mapLines, Site.top_mapLines, Stmt.listUses_mapLines, Program.uses]

end Quill

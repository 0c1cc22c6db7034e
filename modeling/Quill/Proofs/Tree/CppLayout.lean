import Mathlib.Data.List.Forall2
import Quill.Proofs.Tree.CppUnits
import Quill.Proofs.Tree.SexpReading

/-!
# Lines, braces and indentation of C++ text

The C++ text of a program is made of lines that read one by one (`cpp_laid_out`). Reading a line
changes the number of braces that are open, and says for how many a line has to be indented: two
blanks for each brace that is open in front of it, but one level less for a line that starts with a
closing brace or makes everything public.

`Laid before lines strings after` says that lines follow this rule, starting with so many braces open
and ending with so many, and which text literals each of them has. Lists of such lines are put
together like the lists (`Laid.append`), so the lines of a statement leave as many braces open as they
find (`Stmt.laid`), by recursion on the tree.
-/

namespace Quill

/-! ## Lines of units -/

/-- The end of a line. -/
def CppUnit.lineEnd : CppUnit := .char '\n'

/-- Lines in order, each with its end. -/
def joinLines (lines : List (List CppUnit)) : List CppUnit :=
  lines.flatMap fun line => line ++ [.lineEnd]

/-- The number of braces that are open behind a unit, unless it closes one that is not open. -/
def CppUnit.bracesBehind? (before : Nat) (unit : CppUnit) : Option Nat :=
  if unit = .char '\x7b' then some (before + 1)
  else if unit = .char '\x7d' then if before = 0 then none else some (before - 1)
  else some before

/-- The number of braces that are open behind units, unless one is closed that is not open. -/
def bracesOpen? (before : Nat) (units : List CppUnit) : Option Nat :=
  units.foldlM CppUnit.bracesBehind? before

/-- The number of blanks at the front of a line. -/
def indentation (line : List CppUnit) : Nat :=
  (line.takeWhile (· == .char ' ')).length

/-- A text that stands one level further out than the braces in front of it say. -/
def outdents (text : List CppUnit) : Bool :=
  text.head? == some (.char '\x7d') || text == "public:".toList.map .char

/-- The blanks that a line has to start with, for the braces that are open in front of it. -/
def IsIndented (before : Nat) (line : List CppUnit) : Prop :=
  indentation line + (if outdents (line.dropWhile (· == .char ' ')) then 2 else 0) = 2 * before

/-- The braces that are open are counted through units one after another. -/
theorem bracesOpen?_append {before middle : Nat} {first : List CppUnit}
    (h : bracesOpen? before first = some middle) (second : List CppUnit) :
    bracesOpen? before (first ++ second) = bracesOpen? middle second := by
  rw [bracesOpen?, List.foldlM_append]
  exact congrArg (· >>= _) h

/-- Units of one line without braces leave as many open as before. -/
theorem bracesOpen?_of_isInline {units : List CppUnit} (h : ∀ unit ∈ units, unit.isInline = true)
    (before : Nat) : bracesOpen? before units = some before := by
  induction units with
  | nil => rfl
  | cons unit rest ih =>
    obtain ⟨hunit, hrest⟩ := List.forall_mem_cons.1 h
    have hopen : unit ≠ .char '\x7b' := by rintro rfl; cases hunit
    have hclose : unit ≠ .char '\x7d' := by rintro rfl; cases hunit
    have hbehind : unit.bracesBehind? before = some before := by
      rw [CppUnit.bracesBehind?, if_neg hopen, if_neg hclose]
    rw [bracesOpen?, List.foldlM_cons, hbehind]
    exact ih hrest

/-- Behind blanks, a text that starts with none is indented by them. -/
theorem isIndented_replicate {level before : Nat} {text : List CppUnit}
    (hfirst : ∀ unit ∈ text.head?, unit ≠ .char ' ')
    (hlevel : 2 * level + (if outdents text then 2 else 0) = 2 * before) :
    IsIndented before (List.replicate (2 * level) (.char ' ') ++ text) := by
  have hblanks : ∀ unit ∈ List.replicate (2 * level) (CppUnit.char ' '),
      (unit == .char ' ') = true := by
    intro unit hunit
    rw [List.eq_of_mem_replicate hunit]
    rfl
  have hnone : text.takeWhile (· == .char ' ') = [] ∧ text.dropWhile (· == .char ' ') = text := by
    cases text with
    | nil => exact ⟨rfl, rfl⟩
    | cons unit rest =>
      have hunit : ¬ (unit == .char ' ') = true := by simpa using hfirst unit rfl
      exact ⟨List.takeWhile_cons_of_neg hunit, List.dropWhile_cons_of_neg hunit⟩
  rw [IsIndented, indentation, List.takeWhile_append_of_pos hblanks, hnone.1, List.append_nil,
    List.length_replicate, List.dropWhile_append_of_pos hblanks, hnone.2]
  exact hlevel

/-! ## Lines that are laid out -/

/-- A line is read as these units, is indented for the braces that are open in front of it, and leaves
so many open. -/
structure LaidLine (before : Nat) (line : CppLine) (units : List CppUnit) (after : Nat) : Prop where
  reads : ReadsAs line.render.toList (units ++ [.lineEnd])
  oneLine : .lineEnd ∉ units
  braces : bracesOpen? before units = some after
  indented : units ≠ [] → IsIndented before units

/-- Lines that are laid out one behind the other, with the contents of the literals on each. -/
inductive Laid : (before : Nat) → List CppLine → (strings : List (List String)) → (after : Nat) → Prop
  | nil {before : Nat} : Laid before [] [] before
  | cons {before middle after : Nat} {line : CppLine} {units : List CppUnit} {rest : List CppLine}
      {strings : List (List String)} (first : LaidLine before line units middle)
      (others : Laid middle rest strings after) :
      Laid before (line :: rest) (units.filterMap CppUnit.contents? :: strings) after

/-- Lines that are laid out may follow one another. -/
theorem Laid.append {before middle after : Nat} {first second : List CppLine}
    {strings strings' : List (List String)} (h : Laid before first strings middle)
    (h' : Laid middle second strings' after) :
    Laid before (first ++ second) (strings ++ strings') after := by
  induction h with
  | nil => exact h'
  | cons hline _ ih => exact .cons hline (ih h')

/-- A blank line is laid out anywhere. -/
theorem laid_blank (before : Nat) : Laid before [.blank] [[]] before :=
  .cons ⟨readsAs_chars (by decide), List.not_mem_nil, rfl, fun h => absurd rfl h⟩ .nil

/-- A text on a line of its own. -/
theorem laid_text {before level after : Nat} {content : String} {units : List CppUnit}
    (hreads : ReadsAs content.toList units) (honeLine : .lineEnd ∉ units)
    (hfirst : ∀ unit ∈ units.head?, unit ≠ .char ' ')
    (hlevel : 2 * level + (if outdents units then 2 else 0) = 2 * before)
    (hbraces : bracesOpen? before units = some after) :
    Laid before [.text level content] [units.filterMap CppUnit.contents?] after := by
  have hblanks : ∀ unit ∈ List.replicate (2 * level) (CppUnit.char ' '), unit = .char ' ' :=
    fun unit => List.eq_of_mem_replicate
  have hinline : ∀ unit ∈ List.replicate (2 * level) (CppUnit.char ' '),
      unit.isInline = true := by
    intro unit hunit
    rw [hblanks unit hunit]
    rfl
  have hstrings : (List.replicate (2 * level) (CppUnit.char ' ') ++ units).filterMap
      CppUnit.contents? = units.filterMap CppUnit.contents? := by
    rw [List.filterMap_append, List.filterMap_replicate]
    rfl
  rw [← hstrings]
  refine .cons ⟨?_, ?_, ?_, fun _ => isIndented_replicate hfirst hlevel⟩ .nil
  · have hspaces := readsAs_chars
      (fun hquote : '"' ∈ List.replicate (2 * level) ' ' =>
        absurd (List.eq_of_mem_replicate hquote) (by decide))
    rw [List.map_replicate] at hspaces
    rw [CppLine.render, String.toList_append, String.toList_append, String.toList_ofList]
    exact (hspaces.append hreads).append (readsAs_chars (by decide))
  · intro hmem
    rcases List.mem_append.1 hmem with hmem | hmem
    · exact absurd (hinline _ hmem) (by decide)
    · exact honeLine hmem
  · rw [bracesOpen?_append (bracesOpen?_of_isInline hinline before)]
    exact hbraces

/-- A fixed text without quotes. -/
theorem laid_fixed {before level after : Nat} {content : String}
    (hcontent : (content.toList.head?.all (· != ' ')
      && content.toList.all fun c => c != '"' && c != '\n') = true)
    (hlevel : level + (if outdents (content.toList.map .char) then 1 else 0) = before)
    (hbraces : bracesOpen? before (content.toList.map .char) = some after) :
    Laid before [.text level content] [[]] after := by
  simp only [Bool.and_eq_true, List.all_eq_true, bne_iff_ne, Option.all_eq_true] at hcontent
  obtain ⟨hblank, hall⟩ := hcontent
  have hstrings : (content.toList.map CppUnit.char).filterMap CppUnit.contents? = [] := by
    rw [List.filterMap_map]
    exact List.filterMap_eq_nil_iff.2 fun c _ => rfl
  rw [← hstrings]
  refine laid_text (readsAs_chars fun hquote => (hall _ hquote).1 rfl) ?_ ?_ ?_ hbraces
  · intro hmem
    obtain ⟨c, hc, hline⟩ := List.mem_map.1 hmem
    exact (hall c hc).2 (CppUnit.char.inj hline)
  · rw [List.head?_map]
    rintro unit hunit rfl
    obtain ⟨c, hc, hspace⟩ := Option.map_eq_some_iff.1 hunit
    exact hblank c hc (CppUnit.char.inj hspace)
  · rw [← hlevel]
    split <;> omega

/-- The first character of a text is its first unit, unless it is a quote. -/
theorem ReadsAs.head? {text : String} {units : List CppUnit} (h : ReadsAs text.toList units)
    (hopens : Opens text) : ∃ c, units.head? = some (.char c) ∧ c ≠ ' ' := by
  obtain ⟨c, hc, hblank, hquote⟩ := hopens
  obtain ⟨cs, hcs⟩ := List.head?_eq_some_iff.1 hc
  have hread := h.cppUnits?
  rw [Quill.cppUnits?, hcs, cppUnitsFrom?, if_neg hquote] at hread
  obtain ⟨behind, -, rfl⟩ := Option.map_eq_some_iff.1 hread
  exact ⟨c, rfl, hblank⟩

/-- A text of one line, and behind it a character that may be a brace that opens. -/
theorem laid_singleton {level after : Nat} {text : String} {strings : List String} {c : Char}
    (hc : c ≠ '"' ∧ c ≠ '\n' ∧ c ≠ ':') (hbraces : bracesOpen? level [.char c] = some after)
    (h : Inline text strings) (hopens : Opens text) :
    Laid level [.text level (text ++ String.singleton c)] [strings] after := by
  obtain ⟨units, hreads, hinline, rfl⟩ := h
  obtain ⟨d, hhead, hblank⟩ := hreads.head? hopens
  have hends : ReadsAs (text ++ String.singleton c).toList (units ++ [.char c]) := by
    rw [String.toList_append, String.toList_singleton]
    exact hreads.append (readsAs_chars fun hquote => hc.1 (List.mem_singleton.1 hquote).symm)
  have hstrings : (units ++ [CppUnit.char c]).filterMap CppUnit.contents? =
      units.filterMap CppUnit.contents? := by
    rw [List.filterMap_append]
    exact List.append_nil _
  have hfirst : (units ++ [CppUnit.char c]).head? = some (.char d) := by
    rw [List.head?_append, hhead]
    rfl
  have hinside : outdents (units ++ [.char c]) = false := by
    refine Bool.eq_false_iff.2 fun houtdents => ?_
    rw [outdents, hfirst, Bool.or_eq_true, beq_iff_eq, beq_iff_eq] at houtdents
    rcases houtdents with hclosing | hpublic
    · have hd := hinline _ (List.mem_of_mem_head? hhead)
      rw [Option.some.inj hclosing] at hd
      cases hd
    · have hlast := congrArg List.getLast? hpublic
      rw [List.getLast?_append, List.getLast?_singleton] at hlast
      exact hc.2.2 (CppUnit.char.inj (Option.some.inj hlast))
  rw [← hstrings]
  refine laid_text hends ?_ ?_ (by rw [hinside]; rfl) ?_
  · intro hmem
    rcases List.mem_append.1 hmem with hmem | hmem
    · exact absurd (hinline _ hmem) (by decide)
    · exact hc.2.1 (CppUnit.char.inj (List.mem_singleton.1 hmem)).symm
  · rw [hfirst]
    rintro unit ⟨⟩ hspace
    exact hblank (CppUnit.char.inj hspace)
  · rw [bracesOpen?_append (bracesOpen?_of_isInline hinline level)]
    exact hbraces

/-- A text of one line with a fixed ending, of which the last character may be a brace that opens. -/
theorem laid_ended {level after : Nat} {text ending : String} {strings : List String} {c : Char}
    (hc : c ≠ '"' ∧ c ≠ '\n' ∧ c ≠ ':') (hbraces : bracesOpen? level [.char c] = some after)
    (hending : (ending.toList.dropLast.all isInlineChar && ending.toList.getLast? == some c) = true)
    (h : Inline text strings) (hopens : Opens text) :
    Laid level [.text level (text ++ ending)] [strings] after := by
  simp only [Bool.and_eq_true, beq_iff_eq] at hending
  obtain ⟨hinline, hlast⟩ := hending
  have hmiddle : Inline (String.ofList ending.toList.dropLast) [] :=
    inline_of_all (by rwa [String.toList_ofList])
  have htext : text ++ ending =
      text ++ String.ofList ending.toList.dropLast ++ String.singleton c := by
    rw [← String.toList_inj]
    simp only [String.toList_append, String.toList_ofList, String.toList_singleton,
      List.append_assoc, List.dropLast_append_getLast? c hlast]
  rw [htext]
  exact laid_singleton hc hbraces (h.append_nil hmiddle) (hopens.append _)

/-- The ending of a statement. -/
theorem laid_statement {level : Nat} {text ending : String} {strings : List String}
    (hending : (ending.toList.dropLast.all isInlineChar && ending.toList.getLast? == some ';')
      = true)
    (h : Inline text strings) (hopens : Opens text) :
    Laid level [.text level (text ++ ending)] [strings] level :=
  laid_ended (by decide) rfl hending h hopens

/-- The ending of what opens a brace. -/
theorem laid_header {level : Nat} {text ending : String} {strings : List String}
    (hending : (ending.toList.dropLast.all isInlineChar && ending.toList.getLast? == some '\x7b')
      = true)
    (h : Inline text strings) (hopens : Opens text) :
    Laid level [.text level (text ++ ending)] [strings] (level + 1) :=
  laid_ended (by decide) rfl hending h hopens

/-! ## Values of lines -/

mutual

/-- The expression on each line of a statement, if there is one. -/
def Stmt.cppValues (braced : Bool) : Stmt → List (Option Expr)
  | .expression value => [some value]
  | .print value => [some value]
  | .declare _ initial => [initial]
  | .block body =>
    if braced then Stmt.listCppValues body else none :: Stmt.listCppValues body ++ [none]
  | .branch condition thenBranch none => some condition :: thenBranch.cppValues true ++ [none]
  | .branch condition thenBranch (some elseBranch) =>
    some condition :: thenBranch.cppValues true ++ none :: elseBranch.cppValues true ++ [none]
  | .loop condition body => some condition :: body.cppValues true ++ [none]
  | .leave _ value => [value]
  | .function ⟨_, _, body⟩ => none :: Stmt.listCppValues body ++ [none]
  | .classOf declaration => declaration.cppValues

/-- The expressions on the lines of statements. -/
def Stmt.listCppValues : List Stmt → List (Option Expr)
  | [] => []
  | s :: rest => s.cppValues false ++ Stmt.listCppValues rest

/-- The expressions on the lines of a function of the top level or of a class. -/
def FunctionDecl.cppValues : FunctionDecl → List (Option Expr)
  | ⟨_, _, body⟩ => none :: Stmt.listCppValues body ++ [none, none]

/-- The expressions on the lines of methods. -/
def FunctionDecl.listCppValues : List FunctionDecl → List (Option Expr)
  | [] => []
  | f :: rest => f.cppValues ++ FunctionDecl.listCppValues rest

/-- The expressions on the lines of a class. -/
def ClassDecl.cppValues : ClassDecl → List (Option Expr)
  | ⟨_, methods⟩ => none :: none :: FunctionDecl.listCppValues methods ++ [none, none]

end

/-- The expressions on the lines of a declaration that moves in front of `main`. -/
def Stmt.cppHoistedValues : Stmt → List (Option Expr)
  | .function declaration => declaration.cppValues
  | .classOf declaration => declaration.cppValues
  | _ => []

/-- The expressions on the lines of a program. -/
def Program.cppValues (program : Program) : List (Option Expr) :=
  [none, none, none, none] ++ program.declarations.flatMap Stmt.cppHoistedValues
    ++ none :: Stmt.listCppValues (program.declarations.filter Stmt.staysInMain)
    ++ [none, none]

/-- The contents of the text literals on a line with this expression. -/
def Expr.optionStrings : Option Expr → List String
  | none => []
  | some e => e.strings

/-! ## Statements -/

/-- Parameters stand on one line. -/
theorem inline_cppParameters {params : List Name} (h : ∀ p ∈ params, IsWord p.text) :
    Inline (cppParameters params) [] := by
  have hall : List.Forall₂ Inline (params.map fun p => "auto " ++ p.text)
      (params.map fun _ => []) := by
    rw [List.forall₂_map_left_iff, List.forall₂_map_right_iff, List.forall₂_same]
    exact fun p hp => (inline_of_all (by decide)).append (h p hp).inline
  have hnone : (params.map fun _ => ([] : List String)).flatten = [] := by
    simp
  rw [cppParameters, ← hnone]
  exact inline_intercalate hall

/-- Lines between the braces that a header opens and a closing closes. -/
theorem Laid.enclosed {level : Nat} {header : CppLine} {lines closing : List CppLine}
    {first : List String} {strings behind : List (List String)}
    (hopen : Laid level [header] [first] (level + 1))
    (h : Laid (level + 1) lines strings (level + 1))
    (hclose : Laid (level + 1) closing behind level) :
    Laid level (header :: lines ++ closing) (first :: strings ++ behind) level :=
  (hopen.append h).append hclose

/-- A function, whatever stands before its parameters and behind its body. -/
theorem FunctionDecl.laid_of_body {f : FunctionDecl} (hlegible : Legible f.spelling) {level : Nat}
    {between : String} {closing : List CppLine} {strings behind : List (List String)}
    (hbetween : between.toList.all isInlineChar = true)
    (hbody : Laid (level + 1) (Stmt.listCpp (level + 1) f.body) strings (level + 1))
    (hclosing : Laid (level + 1) closing behind level) :
    Laid level
      (.text level ("auto " ++ f.name.text ++ between ++ cppParameters f.params ++ ") \x7b")
        :: Stmt.listCpp (level + 1) f.body ++ closing)
      ([] :: strings ++ behind) level := by
  have hauto : Inline "auto " [] := inline_of_all (by decide)
  have hfront := (hauto.append (mark_name hlegible).name.inline).append (inline_of_all hbetween)
  have hparams := inline_cppParameters fun p hp => (mark_param hlegible hp).name
  exact .enclosed (laid_header (by decide) (hfront.append hparams)
    ((((opens_of_any (by decide)).append _).append _).append _)) hbody hclosing

/-- A function of the top level or of a class. -/
theorem FunctionDecl.laid_cpp : {f : FunctionDecl} → Legible f.spelling → {level : Nat} →
    Laid (level + 1) (Stmt.listCpp (level + 1) f.body)
      ((Stmt.listCppValues f.body).map Expr.optionStrings) (level + 1) →
    Laid level (f.cpp level) (f.cppValues.map Expr.optionStrings) level
  | ⟨name, params, body⟩, hlegible, level, hbody => by
    have hclose : Laid (level + 1) [.text level "\x7d"] [[]] level :=
      laid_fixed (by decide) rfl rfl
    have hparen : "(".toList.all isInlineChar = true := by decide
    rw [FunctionDecl.cpp, FunctionDecl.cppValues, List.map_append]
    exact laid_of_body hlegible hparen hbody (hclose.append (laid_blank level))

/-- A class. -/
theorem ClassDecl.laid_cpp {name : Name} {methods : List FunctionDecl} (hname : IsWord name.text)
    (level : Nat)
    (hmethods : Laid (level + 1) (FunctionDecl.listCpp (level + 1) methods)
      ((FunctionDecl.listCppValues methods).map Expr.optionStrings) (level + 1)) :
    Laid level (ClassDecl.cpp level ⟨name, methods⟩)
      ((ClassDecl.cppValues ⟨name, methods⟩).map Expr.optionStrings) level := by
  have hkeyword : Inline "class " [] := inline_of_all (by decide)
  have hheader : Laid level [.text level ("class " ++ name.text ++ " \x7b")] [[]] (level + 1) :=
    laid_header (by decide) (hkeyword.append hname.inline) ((opens_of_any (by decide)).append _)
  have hpublic : Laid (level + 1) [.text level "public:"] [[]] (level + 1) :=
    laid_fixed (by decide) rfl rfl
  have hclose : Laid (level + 1) [.text level "\x7d;"] [[]] level :=
    laid_fixed (by decide) rfl rfl
  rw [ClassDecl.cpp, ClassDecl.cppValues, List.map_append]
  exact .enclosed hheader (hpublic.append hmethods) (hclose.append (laid_blank level))

/-- The header of a branch or loop. -/
theorem laid_condition (word : String) {condition : Expr}
    (hword : word.toList.all isInlineChar = true) (hopens : Opens word)
    (hlegible : Legible condition.spelling) (hwf : condition.wellFormed = true) (level : Nat) :
    Laid level [.text level (word ++ condition.cpp ++ ") \x7b")] [condition.strings] (level + 1) :=
  laid_header (by decide) ((inline_of_all hword).append (condition.inline hlegible hwf))
    (hopens.append _)

/-- An expression that may be missing. -/
theorem Expr.inline_of_mem {lead : List Mark} {value : Option Expr}
    (hlegible : Legible (optionSpelling lead value)) (hwf : optionWellFormed value = true) :
    ∀ e ∈ value, Inline e.cpp e.strings := by
  rintro e ⟨⟩
  exact inline e (legible_append.1 hlegible).2 hwf

/-- The line of a variable is laid out, with the strings of its value. -/
theorem Stmt.laid_declare {name : Name} {initial : Option Expr} (hname : IsWord name.text)
    (h : ∀ e ∈ initial, Inline e.cpp e.strings) (level : Nat) (braced : Bool) :
    Laid level ((Stmt.declare name initial).cpp level braced) [Expr.optionStrings initial] level := by
  have hfront : Inline ("auto " ++ name.text) [] := (inline_of_all (by decide)).append hname.inline
  have hopens : Opens ("auto " ++ name.text) := (opens_of_any (by decide)).append _
  cases initial with
  | none => exact laid_statement (by decide) hfront hopens
  | some e =>
    exact laid_statement (by decide)
      ((hfront.append_nil (inline_of_all (by decide))).append (h e rfl))
      ((hopens.append _).append _)

/-- The line of a return is laid out, with the strings of its value. -/
theorem Stmt.laid_leave {line : Nat} {value : Option Expr}
    (h : ∀ e ∈ value, Inline e.cpp e.strings) (level : Nat) (braced : Bool) :
    Laid level ((Stmt.leave line value).cpp level braced) [Expr.optionStrings value] level := by
  cases value with
  | none => exact laid_fixed (by decide) rfl rfl
  | some e =>
    exact laid_statement (by decide) ((inline_of_all (by decide)).append (h e rfl))
      ((opens_of_any (by decide)).append _)

mutual

/-- The lines of a statement are laid out, and leave as many braces open as they find. -/
theorem Stmt.laid : (s : Stmt) → Legible s.spelling → s.wellFormed = true →
    (level : Nat) → (braced : Bool) →
    Laid level (s.cpp level braced) ((s.cppValues braced).map Expr.optionStrings) level
  | .expression value, hlegible, hwf, level, _ => by
    simp only [Stmt.spelling, legible_append] at hlegible
    exact laid_statement (by decide) (value.inline hlegible.1 hwf) (value.opens hlegible.1)
  | .print value, hlegible, hwf, level, _ => by
    simp only [Stmt.spelling, legible_append, List.cons_append, legible_cons] at hlegible
    exact laid_statement (by decide)
      ((inline_of_all (by decide)).append (value.inline hlegible.2.1 hwf))
      ((opens_of_any (by decide)).append _)
  | .declare name initial, hlegible, hwf, level, braced => by
    simp only [Stmt.spelling, legible_append, List.cons_append, legible_cons] at hlegible
    exact Stmt.laid_declare hlegible.2.1.name (Expr.inline_of_mem hlegible.2.2.1 hwf) level braced
  | .block body, hlegible, hwf, level, braced => by
    simp only [Stmt.spelling, legible_append, List.cons_append, legible_cons] at hlegible
    have hbody := Stmt.listLaid body (fun s hs => hlegible.2.1.part (Stmt.infix_listSpelling hs))
      (Stmt.listWellFormed_iff.1 hwf)
    rw [Stmt.cpp, Stmt.cppValues]
    cases braced with
    | true => exact hbody level
    | false =>
      rw [if_neg Bool.false_ne_true, if_neg Bool.false_ne_true, List.map_append]
      exact .enclosed (laid_fixed (by decide) rfl rfl) (hbody (level + 1))
        (laid_fixed (by decide) rfl rfl)
  | .branch condition thenBranch none, hlegible, hwf, level, _ => by
    simp only [Stmt.spelling, legible_append, List.cons_append, legible_cons] at hlegible
    simp only [Stmt.wellFormed, Bool.and_eq_true] at hwf
    have hthen := Stmt.laid thenBranch hlegible.2.2.2.2 hwf.2 (level + 1) true
    rw [Stmt.cpp, Stmt.cppValues, List.map_append]
    exact .enclosed
      (laid_condition "if (" (by decide) (opens_of_any (by decide)) hlegible.2.2.1 hwf.1.1 level)
      hthen (laid_fixed (by decide) rfl rfl)
  | .branch condition thenBranch (some elseBranch), hlegible, hwf, level, _ => by
    simp only [Stmt.spelling, legible_append, List.cons_append, legible_cons] at hlegible
    simp only [Stmt.wellFormed, Bool.and_eq_true] at hwf
    have hthen := Stmt.laid thenBranch hlegible.2.2.1.2.2 hwf.1.1.1.2 (level + 1) true
    have helse := Stmt.laid elseBranch hlegible.2.2.2.2 hwf.2 (level + 1) true
    have hheader := laid_condition "if (" (by decide) (opens_of_any (by decide)) hlegible.2.2.1.1
      hwf.1.1.1.1.1 level
    have hbetween : Laid (level + 1) [.text level "\x7d else \x7b"] [[]] (level + 1) :=
      laid_fixed (by decide) rfl rfl
    have hclose : Laid (level + 1) [.text level "\x7d"] [[]] level :=
      laid_fixed (by decide) rfl rfl
    rw [Stmt.cpp, Stmt.cppValues, List.map_append, List.map_append]
    exact ((hheader.append hthen).append (hbetween.append helse)).append hclose
  | .loop condition body, hlegible, hwf, level, _ => by
    simp only [Stmt.spelling, legible_append, List.cons_append, legible_cons] at hlegible
    simp only [Stmt.wellFormed, Bool.and_eq_true] at hwf
    have hbody := Stmt.laid body hlegible.2.2.2.2 hwf.2 (level + 1) true
    rw [Stmt.cpp, Stmt.cppValues, List.map_append]
    exact .enclosed
      (laid_condition "while (" (by decide) (opens_of_any (by decide)) hlegible.2.2.1 hwf.1.1 level)
      hbody (laid_fixed (by decide) rfl rfl)
  | .leave line value, hlegible, hwf, level, braced => by
    simp only [Stmt.spelling, legible_append, List.cons_append, legible_cons] at hlegible
    exact Stmt.laid_leave (Expr.inline_of_mem hlegible.2.1 hwf) level braced
  | .function ⟨name, params, body⟩, hlegible, hwf, level, _ => by
    rw [Stmt.spelling, legible_cons] at hlegible
    have hbody := FunctionDecl.bodyLaid ⟨name, params, body⟩ hlegible.2 hwf (level + 1)
    have hcapture : " = [&](".toList.all isInlineChar = true := by decide
    rw [Stmt.cpp, Stmt.cppValues, List.map_append]
    exact FunctionDecl.laid_of_body hlegible.2 hcapture hbody (laid_fixed (by decide) rfl rfl)
  | .classOf ⟨name, methods⟩, hlegible, hwf, level, _ => by
    simp only [Stmt.spelling, legible_append, List.cons_append, legible_cons] at hlegible
    rw [Stmt.cpp, Stmt.cppValues]
    exact ClassDecl.laid_cpp hlegible.2.1.name level
      (FunctionDecl.listLaid methods
        (fun f hf => hlegible.2.2.2.1.part (FunctionDecl.infix_methodSpelling hf))
        (FunctionDecl.listWellFormed_iff.1 hwf) (level + 1))

/-- The lines of statements are laid out. -/
theorem Stmt.listLaid : (body : List Stmt) → (∀ s ∈ body, Legible s.spelling) →
    (∀ s ∈ body, s.wellFormed = true) → (level : Nat) →
    Laid level (Stmt.listCpp level body) ((Stmt.listCppValues body).map Expr.optionStrings) level
  | [], _, _, _ => .nil
  | s :: rest, hlegible, hwf, level => by
    have hhead := Stmt.laid s (hlegible s (.head _)) (hwf s (.head _)) level false
    rw [Stmt.listCpp, Stmt.listCppValues, List.map_append]
    exact hhead.append (Stmt.listLaid rest (fun s' hs => hlegible s' (.tail _ hs))
      (fun s' hs => hwf s' (.tail _ hs)) level)

/-- The lines in the body of a function are laid out. -/
theorem FunctionDecl.bodyLaid : (f : FunctionDecl) → Legible f.spelling →
    f.wellFormed = true → (level : Nat) →
    Laid level (Stmt.listCpp level f.body) ((Stmt.listCppValues f.body).map Expr.optionStrings) level
  | ⟨name, params, body⟩, hlegible, hwf, level => by
    simp only [FunctionDecl.wellFormed, Bool.and_eq_true] at hwf
    exact Stmt.listLaid body (fun s hs => hlegible.part (FunctionDecl.infix_body hs))
      (Stmt.listWellFormed_iff.1 hwf.2) level

/-- The lines of methods are laid out. -/
theorem FunctionDecl.listLaid : (methods : List FunctionDecl) →
    (∀ f ∈ methods, Legible f.spelling) → (∀ f ∈ methods, f.wellFormed = true) → (level : Nat) →
    Laid level (FunctionDecl.listCpp level methods)
      ((FunctionDecl.listCppValues methods).map Expr.optionStrings) level
  | [], _, _, _ => .nil
  | f :: rest, hlegible, hwf, level => by
    have hlegible' := hlegible f (.head _)
    have hhead := FunctionDecl.laid_cpp hlegible'
      (FunctionDecl.bodyLaid f hlegible' (hwf f (.head _)) (level + 1))
    rw [FunctionDecl.listCpp, FunctionDecl.listCppValues, List.map_append]
    exact hhead.append (FunctionDecl.listLaid rest (fun f' hf => hlegible f' (.tail _ hf))
      (fun f' hf => hwf f' (.tail _ hf)) level)

end

/-! ## Programs -/

/-- What moves in front of `main` is laid out like what stays. -/
theorem Stmt.laid_cppHoisted {s : Stmt} (hlegible : Legible s.spelling)
    (hwf : s.wellFormed = true) :
    Laid 0 s.cppHoisted (s.cppHoistedValues.map Expr.optionStrings) 0 := by
  cases s with
  | function f =>
    rw [spelling, legible_cons] at hlegible
    exact FunctionDecl.laid_cpp hlegible.2 (f.bodyLaid hlegible.2 hwf 1)
  | classOf declaration => exact Stmt.laid (.classOf declaration) hlegible hwf 0 false
  | _ => exact .nil

/-- The lines of a program are laid out. -/
theorem Program.laid {program : Program}
    (hlegible : ∀ s ∈ program.declarations, Legible s.spelling)
    (hwf : ∀ s ∈ program.declarations, s.wellFormed = true) :
    Laid 0 program.cppLines (program.cppValues.map Expr.optionStrings) 0 := by
  have hfirst : Laid 0
      [.text 0 "// Generated code", .text 0 "#include <iostream>", .text 0 "#include <string>",
        .blank] ([none, none, none, none].map Expr.optionStrings) 0 := by
    have hline : Laid 0 [.text 0 "// Generated code"] [[]] 0 := laid_fixed (by decide) rfl rfl
    have hstream : Laid 0 [.text 0 "#include <iostream>"] [[]] 0 := laid_fixed (by decide) rfl rfl
    have hstring : Laid 0 [.text 0 "#include <string>"] [[]] 0 := laid_fixed (by decide) rfl rfl
    exact hline.append (hstream.append (hstring.append (laid_blank 0)))
  have hhoisted : ∀ body ⊆ program.declarations, Laid 0 (body.flatMap Stmt.cppHoisted)
      ((body.flatMap Stmt.cppHoistedValues).map Expr.optionStrings) 0 := by
    intro body
    induction body with
    | nil => exact fun _ => .nil
    | cons s rest ih =>
      intro hsub
      obtain ⟨hs, hrest⟩ := List.cons_subset.1 hsub
      rw [List.flatMap_cons, List.flatMap_cons, List.map_append]
      exact (Stmt.laid_cppHoisted (hlegible s hs) (hwf s hs)).append (ih hrest)
  have hmain := Stmt.listLaid (program.declarations.filter Stmt.staysInMain)
    (fun s hs => hlegible s (List.mem_filter.1 hs).1) (fun s hs => hwf s (List.mem_filter.1 hs).1) 1
  have hopen : Laid 0 [.text 0 "int main() \x7b"] [[]] 1 := laid_fixed (by decide) rfl rfl
  have hreturn : Laid 1 [.text 1 "return 0;"] [[]] 1 := laid_fixed (by decide) rfl rfl
  have hclose : Laid 1 [.text 0 "\x7d"] [[]] 0 := laid_fixed (by decide) rfl rfl
  simp only [cppLines, cppValues, List.map_append]
  exact ((hfirst.append (hhoisted _ fun _ => id)).append (hopen.append hmain)).append
    (hreturn.append hclose)

/-- Names are no text literals. -/
theorem FunctionDecl.strings_spelling (name : Name) (params : List Name) (body : List Stmt) :
    stringsOf (spelling ⟨name, params, body⟩) = stringsOf (Stmt.listSpelling body) := by
  have hparams : stringsOf (commaSeparated (params.map fun p => [.name p])) = [] := by
    rw [stringsOf_commaSeparated, List.flatMap_map]
    exact List.flatMap_eq_nil_iff.2 fun p _ => rfl
  simp [spelling, Mark.contents?, hparams]

mutual

/-- The text literals on the lines of a statement are those of the statement, in order. -/
theorem Stmt.strings_cppValues : (s : Stmt) → (braced : Bool) →
    (s.cppValues braced).flatMap Expr.optionStrings = stringsOf s.spelling
  | .expression value, _ => by
    simp [Stmt.cppValues, Expr.optionStrings, Expr.strings, Stmt.spelling, Mark.contents?]
  | .print value, _ => by
    simp [Stmt.cppValues, Expr.optionStrings, Expr.strings, Stmt.spelling, Mark.contents?]
  | .declare _ none, _ => by
    simp [Stmt.cppValues, Expr.optionStrings, Expr.optionSpelling, Stmt.spelling, Mark.contents?]
  | .declare _ (some initial), _ => by
    simp [Stmt.cppValues, Expr.optionStrings, Expr.strings, Expr.optionSpelling, Stmt.spelling,
      Mark.contents?]
  | .block body, braced => by
    have hbody := Stmt.listStrings_cppValues body
    cases braced <;>
      simp [Stmt.cppValues, Expr.optionStrings, Stmt.spelling, Mark.contents?, hbody]
  | .branch condition thenBranch none, _ => by
    have hthen := Stmt.strings_cppValues thenBranch true
    simp [Stmt.cppValues, Expr.optionStrings, Expr.strings, Stmt.spelling, Mark.contents?, hthen]
  | .branch condition thenBranch (some elseBranch), _ => by
    have hthen := Stmt.strings_cppValues thenBranch true
    have helse := Stmt.strings_cppValues elseBranch true
    simp [Stmt.cppValues, Expr.optionStrings, Expr.strings, Stmt.spelling, Mark.contents?, hthen,
      helse]
  | .loop condition body, _ => by
    have hbody := Stmt.strings_cppValues body true
    simp [Stmt.cppValues, Expr.optionStrings, Expr.strings, Stmt.spelling, Mark.contents?, hbody]
  | .leave _ none, _ => by
    simp [Stmt.cppValues, Expr.optionStrings, Expr.optionSpelling, Stmt.spelling, Mark.contents?]
  | .leave _ (some value), _ => by
    simp [Stmt.cppValues, Expr.optionStrings, Expr.strings, Expr.optionSpelling, Stmt.spelling,
      Mark.contents?]
  | .function ⟨name, params, body⟩, _ => by
    have hbody := Stmt.listStrings_cppValues body
    simp [Stmt.cppValues, Expr.optionStrings, Stmt.spelling, Mark.contents?,
      FunctionDecl.strings_spelling, hbody]
  | .classOf ⟨name, methods⟩, _ => by
    have hmethods := FunctionDecl.listStrings_cppValues methods
    simp [Stmt.cppValues, ClassDecl.cppValues, Expr.optionStrings, Stmt.spelling, Mark.contents?,
      hmethods]

/-- The strings on the lines of statements are those of their text. -/
theorem Stmt.listStrings_cppValues : (body : List Stmt) →
    (Stmt.listCppValues body).flatMap Expr.optionStrings = stringsOf (Stmt.listSpelling body)
  | [] => rfl
  | s :: rest => by
    rw [Stmt.listCppValues, List.flatMap_append, Stmt.strings_cppValues s false,
      Stmt.listStrings_cppValues rest, Stmt.listSpelling, stringsOf_append]

/-- The strings on the lines of a function are those of its text. -/
theorem FunctionDecl.strings_cppValues : (f : FunctionDecl) →
    f.cppValues.flatMap Expr.optionStrings = stringsOf f.spelling
  | ⟨name, params, body⟩ => by
    have hbody := Stmt.listStrings_cppValues body
    simp [FunctionDecl.cppValues, Expr.optionStrings, FunctionDecl.strings_spelling, hbody]

/-- The strings on the lines of methods are those of their text. -/
theorem FunctionDecl.listStrings_cppValues : (methods : List FunctionDecl) →
    (FunctionDecl.listCppValues methods).flatMap Expr.optionStrings =
      stringsOf (FunctionDecl.methodSpelling methods)
  | [] => rfl
  | f :: rest => by
    have hhead := FunctionDecl.strings_cppValues f
    have hrest := FunctionDecl.listStrings_cppValues rest
    simp [FunctionDecl.listCppValues, FunctionDecl.methodSpelling, Mark.contents?, hhead, hrest]

end

/-- The declarations of a program in the order of its C++ text. -/
def Program.cppOrder (program : Program) : List Stmt :=
  program.declarations.filter (!·.staysInMain) ++ program.declarations.filter Stmt.staysInMain

/-- The strings on the lines of a program are those of its declarations in the order of C++. -/
theorem Program.strings_cppValues (program : Program) :
    program.cppValues.flatMap Expr.optionStrings = stringsOf (Stmt.listSpelling program.cppOrder) := by
  have hhoisted : ∀ body : List Stmt,
      (body.flatMap Stmt.cppHoistedValues).flatMap Expr.optionStrings =
        stringsOf (Stmt.listSpelling (body.filter (!·.staysInMain))) := by
    intro body
    induction body with
    | nil => rfl
    | cons s rest ih =>
      rw [List.flatMap_cons, List.flatMap_append, ih]
      cases s with
      | function f =>
        have hf := f.strings_cppValues
        simp [Stmt.cppHoistedValues, Stmt.staysInMain, Stmt.listSpelling, Stmt.spelling,
          Mark.contents?, hf]
      | classOf declaration =>
        have hclass := Stmt.strings_cppValues (.classOf declaration) false
        rw [Stmt.cppValues] at hclass
        simp [Stmt.cppHoistedValues, Stmt.staysInMain, Stmt.listSpelling, hclass]
      | _ => simp [Stmt.cppHoistedValues, Stmt.staysInMain]
  have happend : ∀ first second : List Stmt,
      stringsOf (Stmt.listSpelling (first ++ second)) =
        stringsOf (Stmt.listSpelling first) ++ stringsOf (Stmt.listSpelling second) := by
    intro first second
    induction first with
    | nil => rfl
    | cons s rest ih => simp [Stmt.listSpelling, ih]
  rw [cppOrder, happend, ← hhoisted, ← Stmt.listStrings_cppValues]
  simp [cppValues, Expr.optionStrings]

/-- The lines start with so many braces open and end with so many, none of them has the end of a line
in it, and each is indented for the braces that are open in front of it. -/
structure IsLaidOut (before : Nat) (lines : List (List CppUnit)) (after : Nat) : Prop where
  oneLine : ∀ line ∈ lines, .lineEnd ∉ line
  balanced : bracesOpen? before (joinLines lines) = some after
  indented : ∀ above line below, lines = above ++ line :: below → line ≠ [] →
    ∃ opened, bracesOpen? before (joinLines above) = some opened ∧ IsIndented opened line

/-- Lines that are laid out are read as units that are laid out. -/
theorem Laid.exists_lines {before after : Nat} {lines : List CppLine}
    {strings : List (List String)} (h : Laid before lines strings after) :
    ∃ units, ReadsAs (lines.flatMap (·.render.toList)) (joinLines units)
      ∧ IsLaidOut before units after ∧ units.map (List.filterMap CppUnit.contents?) = strings := by
  induction h with
  | nil => exact ⟨[], readsAs_chars nofun, ⟨nofun, rfl, by simp⟩, rfl⟩
  | @cons before middle after line units rest strings hline _ ih =>
    obtain ⟨others, hreads, hothers, rfl⟩ := ih
    have hends : bracesOpen? before (units ++ [.lineEnd]) = some middle := by
      rw [bracesOpen?_append hline.braces]
      rfl
    refine ⟨units :: others, hline.reads.append hreads, ⟨?_, ?_, ?_⟩, rfl⟩
    · exact List.forall_mem_cons.2 ⟨hline.oneLine, hothers.oneLine⟩
    · exact (bracesOpen?_append hends _).trans hothers.balanced
    · intro above line' below hsplit hsome
      cases above with
      | nil =>
        obtain ⟨rfl, -⟩ := List.cons.inj hsplit
        exact ⟨before, rfl, hline.indented hsome⟩
      | cons first above =>
        obtain ⟨rfl, hbelow⟩ := List.cons.inj hsplit
        obtain ⟨opened, hopened, hindented⟩ := hothers.indented above line' below hbelow hsome
        exact ⟨opened, (bracesOpen?_append hends _).trans hopened, hindented⟩

/-- The C++ text of a program that is read from a source is made of lines. Every literal is closed on
its line, and the literals on a line are those of the expression that is written there, with the same
contents; together they are the literals of the program, with what moves in front of `main` first.
Outside of literals the braces are balanced, and every line that is not empty is indented for the
braces that are open in front of it. -/
theorem cpp_laid_out {source : String} {program : Program} (h : parse source = .ok program) :
    ∃ lines, cppUnits? program.cpp = some (joinLines lines) ∧ IsLaidOut 0 lines 0
      ∧ lines.map (List.filterMap CppUnit.contents?) = program.cppValues.map Expr.optionStrings
      ∧ program.cppValues.flatMap Expr.optionStrings =
        stringsOf (Stmt.listSpelling program.cppOrder) := by
  have hlaid := Program.laid
    (fun s hs => (legible_of_parse h).part (Stmt.infix_listSpelling hs))
    (Stmt.listWellFormed_iff.1 (spells_of_parse h).2)
  obtain ⟨lines, hreads, hlines, hstrings⟩ := hlaid.exists_lines
  refine ⟨lines, ReadsAs.cppUnits? ?_, hlines, hstrings, program.strings_cppValues⟩
  rw [Program.cpp, String.toList_join, List.flatMap_map]
  exact hreads

/-- Braces, backslashes and ends of lines in literals are no more than contents. -/
theorem cpp_laid_out_class :
    ∃ program, parse ("print \"\n\x7d\"; class A \x7b fn go(x) \x7b "
        ++ "if (x) print \"\x7b\\\"; else \x7b return x; \x7d \x7d \x7d") = .ok program
      ∧ ∃ lines, cppUnits? program.cpp = some (joinLines lines) ∧ IsLaidOut 0 lines 0
        ∧ lines.map (List.filterMap CppUnit.contents?) =
          program.cppValues.map Expr.optionStrings
        ∧ program.cppValues.flatMap Expr.optionStrings = ["\x7b\\", "\n\x7d"] := by
  have hstrings : (parse ("print \"\n\x7d\"; class A \x7b fn go(x) \x7b "
      ++ "if (x) print \"\x7b\\\"; else \x7b return x; \x7d \x7d \x7d")).toOption.map
        (fun program => program.cppValues.flatMap Expr.optionStrings) =
      some ["\x7b\\", "\n\x7d"] := by
    decide +kernel
  obtain ⟨program, hsome, hvalues⟩ := Option.map_eq_some_iff.1 hstrings
  have hparse := parse_eq_ok_of_toOption hsome
  obtain ⟨lines, hreads, hlines, hcontents, -⟩ := cpp_laid_out hparse
  exact ⟨program, hparse, lines, hreads, hlines, hcontents, hvalues⟩

end Quill

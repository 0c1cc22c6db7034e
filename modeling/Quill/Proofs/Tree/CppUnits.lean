import Quill.Proofs.Number.ReadBack
import Quill.Proofs.Tree.Legible

/-!
# C++ text unit by unit

C++ text is read as units: characters, and string literals with what they stand for (`cppUnits?`). A
literal has to be closed on its line, and a backslash in it starts one of the escape sequences that
there are. `ReadsAs` says that a text has a reading wherever it stands outside of literals, so the
readings of texts are put together like the texts.

The text of an expression stands on one line and has no braces outside of literals (`Inline`), and
its literals are those of the expression, in order and with the same contents (`Expr.inline`). This
needs the lexical rules: names, operators and numbers have neither quotes nor braces in them.
-/

namespace Quill

/-! ## Units -/

/-- A unit of C++ text. -/
inductive CppUnit where
  /-- A character outside of literals. -/
  | char (c : Char)
  /-- A string literal, with what it stands for. -/
  | literal (contents : String)
deriving DecidableEq

/-- What a unit stands for, if it is a literal. -/
def CppUnit.contents? : CppUnit → Option String
  | char _ => none
  | literal contents => some contents

/-- What stands for itself on a line without braces. -/
def CppUnit.isInline : CppUnit → Bool
  | char c => c != '\x7b' && c != '\x7d' && c != '\n'
  | literal _ => true

/-- The character that an escape sequence stands for, by what is behind its backslash. -/
def cppUnescape? : Char → Option Char
  | '"' => some '"'
  | '\\' => some '\\'
  | 'n' => some '\n'
  | 't' => some '\t'
  | 'r' => some '\r'
  | _ => none

/-- Where a reader of C++ text is. -/
inductive CppPlace where
  /-- Outside of literals. -/
  | code
  /-- In a literal that stands for these characters so far. -/
  | literal (contents : List Char)
  /-- Behind a backslash in such a literal. -/
  | escape (contents : List Char)

/-- The units that are read from a place on. There are none if a literal is not closed on its line,
which a carriage return ends too, or if an escape sequence in it has no meaning. -/
def cppUnitsFrom? : CppPlace → List Char → Option (List CppUnit)
  | .code, [] => some []
  | .literal _, [] => none
  | .escape _, [] => none
  | .code, c :: rest =>
    if c = '"' then cppUnitsFrom? (.literal []) rest
    else (cppUnitsFrom? .code rest).map (.char c :: ·)
  | .literal contents, c :: rest =>
    if c = '"' then
      (cppUnitsFrom? .code rest).map (.literal (String.ofList contents) :: ·)
    else if c = '\\' then cppUnitsFrom? (.escape contents) rest
    else if c = '\n' ∨ c = '\r' then none
    else cppUnitsFrom? (.literal (contents ++ [c])) rest
  | .escape contents, c :: rest =>
    (cppUnescape? c).bind fun d => cppUnitsFrom? (.literal (contents ++ [d])) rest

/-- The units of a text. -/
def cppUnits? (text : String) : Option (List CppUnit) :=
  cppUnitsFrom? .code text.toList

/-! ## Readings -/

/-- Wherever the characters stand outside of literals, they are read as these units. -/
def ReadsAs (cs : List Char) (units : List CppUnit) : Prop :=
  ∀ rest, cppUnitsFrom? .code (cs ++ rest) = (cppUnitsFrom? .code rest).map (units ++ ·)

/-- Texts one after another are read as their units one after another. -/
theorem ReadsAs.append {cs ds : List Char} {units more : List CppUnit} (h : ReadsAs cs units)
    (h' : ReadsAs ds more) : ReadsAs (cs ++ ds) (units ++ more) := by
  intro rest
  rw [List.append_assoc, h, h', Option.map_map]
  refine congrArg (Option.map · _) (funext fun read => ?_)
  exact (List.append_assoc _ _ _).symm

/-- A text that is read anywhere is read by itself. -/
theorem ReadsAs.cppUnits? {text : String} {units : List CppUnit} (h : ReadsAs text.toList units) :
    cppUnits? text = some units := by
  have hread := h []
  simpa [cppUnitsFrom?, Quill.cppUnits?] using hread

/-- Without quotes every character is a unit. -/
theorem readsAs_chars {cs : List Char} (h : '"' ∉ cs) : ReadsAs cs (cs.map .char) := by
  intro rest
  induction cs with
  | nil => simp
  | cons c cs ih =>
    rw [List.mem_cons, not_or] at h
    rw [List.cons_append, cppUnitsFrom?, if_neg (Ne.symm h.1), ih h.2, Option.map_map]
    rfl

/-- An escaped character is read as itself. -/
theorem cppUnitsFrom?_escapeChar (contents : List Char) (c : Char) (rest : List Char) :
    cppUnitsFrom? (.literal contents) (cppEscapeChar c ++ rest) =
      cppUnitsFrom? (.literal (contents ++ [c])) rest := by
  unfold cppEscapeChar
  split
  · next h => rw [h]; rfl
  · next hquote =>
    split
    · next h => rw [h]; rfl
    · next hbackslash =>
      split
      · next h => rw [h]; rfl
      · next hline =>
        split
        · next h => rw [h]; rfl
        · split
          · next h => rw [h]; rfl
          · next hreturn => simp [cppUnitsFrom?, hquote, hbackslash, hline, hreturn]

/-- A literal is read as what has been escaped in it. -/
theorem readsAs_literal (contents : String) :
    ReadsAs ('"' :: (cppEscape contents).toList ++ ['"']) [.literal contents] := by
  have hescaped : ∀ (cs before rest : List Char),
      cppUnitsFrom? (.literal before) (cs.flatMap cppEscapeChar ++ '"' :: rest) =
        (cppUnitsFrom? .code rest).map (.literal (String.ofList (before ++ cs)) :: ·) := by
    intro cs
    induction cs with
    | nil =>
      intro before rest
      rw [List.flatMap_nil, List.nil_append, cppUnitsFrom?, if_pos rfl, List.append_nil]
    | cons c cs ih =>
      intro before rest
      rw [List.flatMap_cons, List.append_assoc, cppUnitsFrom?_escapeChar, ih, List.append_assoc]
      rfl
  intro rest
  have hread := hescaped contents.toList [] rest
  rw [List.nil_append, String.ofList_toList] at hread
  rw [cppEscape, String.toList_ofList, List.cons_append, List.cons_append, List.append_assoc,
    cppUnitsFrom?, if_pos rfl]
  exact hread

/-! ## Texts of one line -/

/-- The text is read as units of one line without braces, with literals that stand for these
contents. -/
def Inline (text : String) (strings : List String) : Prop :=
  ∃ units, ReadsAs text.toList units ∧ (∀ unit ∈ units, unit.isInline = true)
    ∧ units.filterMap CppUnit.contents? = strings

/-- Characters that are units of their own on one line, and no braces. -/
def isInlineChar (c : Char) : Bool :=
  c != '"' && (CppUnit.char c).isInline

/-- A character of a word may stand on a line by itself. -/
theorem isInlineChar_of_isWordRest {c : Char} (h : isWordRest c = true) :
    isInlineChar c = true := by
  have hne : ∀ d, isWordRest d = false → c ≠ d := by
    rintro d hd rfl
    rw [h] at hd
    cases hd
  simp [isInlineChar, CppUnit.isInline, hne '"' (by decide), hne '\x7b' (by decide),
    hne '\x7d' (by decide), hne '\n' (by decide)]

/-- Characters that may stand on a line make a text of one line, without strings. -/
theorem inline_of_chars {text : String} (h : ∀ c ∈ text.toList, isInlineChar c = true) :
    Inline text [] := by
  refine ⟨_, readsAs_chars fun hquote => absurd (h _ hquote) (by decide), ?_, ?_⟩
  · intro unit hunit
    obtain ⟨c, hc, rfl⟩ := List.mem_map.1 hunit
    exact (Bool.and_eq_true _ _ ▸ h c hc).2
  · rw [List.filterMap_map]
    exact List.filterMap_eq_nil_iff.2 fun c _ => rfl

/-- For fixed texts. -/
theorem inline_of_all {text : String} (h : text.toList.all isInlineChar = true) :
    Inline text [] :=
  inline_of_chars (List.all_eq_true.1 h)

/-- A word is a text of one line. -/
theorem IsWord.inline {text : String} (h : IsWord text) : Inline text [] :=
  inline_of_chars fun c hc => isInlineChar_of_isWordRest (h.isWordRest c hc)

/-- An operator other than a brace is a text of one line. -/
theorem Token.IsOperator.inline {t : Token} {s : Symbol} (h : t.IsOperator s)
    (hs : s ≠ .leftBrace ∧ s ≠ .rightBrace) : Inline t.lexeme [] := by
  rw [h.text]
  cases s with
  | leftBrace => exact absurd rfl hs.1
  | rightBrace => exact absurd rfl hs.2
  | _ => exact inline_of_all (by decide)

namespace Inline

variable {text text' : String} {strings strings' : List String}

/-- Texts of one line may follow one another on it. -/
theorem append (h : Inline text strings) (h' : Inline text' strings') :
    Inline (text ++ text') (strings ++ strings') := by
  obtain ⟨units, hreads, hall, rfl⟩ := h
  obtain ⟨units', hreads', hall', rfl⟩ := h'
  refine ⟨units ++ units', ?_, List.forall_mem_append.2 ⟨hall, hall'⟩, List.filterMap_append⟩
  rw [String.toList_append]
  exact hreads.append hreads'

/-- A text without strings adds none. -/
theorem append_nil (h : Inline text strings) (h' : Inline text' []) :
    Inline (text ++ text') strings := by
  have happend := h.append h'
  rwa [List.append_nil] at happend

/-- A literal is a text of one line and stands for its contents. -/
theorem literal (contents : String) : Inline ("\"" ++ cppEscape contents ++ "\"") [contents] := by
  refine ⟨[.literal contents], ?_, by simp [CppUnit.isInline], rfl⟩
  have hreads := readsAs_literal contents
  rw [String.toList_append, String.toList_append]
  exact hreads

end Inline

/-- The text of a number stands on one line. -/
theorem inline_number {n : Number} {lexeme : List Char} (h : Spelled (.number n) lexeme) :
    Inline n.text [] := by
  obtain ⟨hsign, hnan⟩ := Number.unsigned_of_spelled h
  rw [Number.text]
  cases hfinite : n.isFinite with
  | false =>
    rw [Number.chars_of_not_isFinite hsign hnan hfinite]
    exact inline_of_all (by decide)
  | true =>
    have hdigit : ∀ {c}, isDigit c = true → isInlineChar c = true :=
      fun hc => isInlineChar_of_isWordRest (isWordRest_of_isDigit hc)
    have hspelled := Number.spelled_chars hsign hfinite
    refine inline_of_chars ?_
    rw [String.toList_ofList]
    intro c hc
    generalize n.chars = cs at hspelled hc
    cases hspelled with
    | integer _ hall => exact hdigit (hall c hc)
    | fraction _ hwhole _ hdigits =>
      rcases List.mem_append.1 hc with hc | hc
      · exact hdigit (hwhole c hc)
      · rcases List.mem_cons.1 hc with rfl | hc
        · rfl
        · exact hdigit (hdigits c hc)

/-! ## Strings of trees -/

/-- The contents of the text literal that a mark describes. -/
def Mark.contents? : Mark → Option String
  | placed (.string contents) _ => some contents
  | _ => none

/-- The contents of text literals, in order. -/
def stringsOf (marks : List Mark) : List String :=
  marks.filterMap Mark.contents?

@[simp] theorem stringsOf_nil : stringsOf [] = [] := rfl

@[simp] theorem stringsOf_append (first second : List Mark) :
    stringsOf (first ++ second) = stringsOf first ++ stringsOf second :=
  List.filterMap_append

@[simp] theorem stringsOf_cons (mark : Mark) (marks : List Mark) :
    stringsOf (mark :: marks) = mark.contents?.toList ++ stringsOf marks := by
  rw [stringsOf, List.filterMap_cons]
  cases mark.contents? <;> rfl

/-- The strings of a list are those of its items. -/
theorem stringsOf_commaSeparated (lists : List (List Mark)) :
    stringsOf (commaSeparated lists) = lists.flatMap stringsOf := by
  induction lists with
  | nil => rfl
  | cons marks rest ih =>
    cases rest with
    | nil => rw [commaSeparated, List.flatMap_singleton]
    | cons next rest =>
      rw [commaSeparated, stringsOf_append, stringsOf_cons, ih]
      · rfl
      · exact nofun

/-- The contents of the text literals in an expression, in order. -/
def Expr.strings (e : Expr) : List String :=
  stringsOf e.spelling

namespace Expr

/-- The strings of a unary expression are those of its operand. -/
theorem strings_unary (operator : Token) (operand : Expr) :
    (unary operator operand).strings = operand.strings := by
  simp [strings, spelling, Mark.contents?]

/-- The strings of a binary expression are those of its operands in order. -/
theorem strings_binary (left : Expr) (operator : Token) (right : Expr) :
    (binary left operator right).strings = left.strings ++ right.strings := by
  simp [strings, spelling, Mark.contents?]

/-- The strings of a group are those of the expression inside. -/
theorem strings_group (inner : Expr) : (group inner).strings = inner.strings := by
  simp [strings, spelling, Mark.contents?]

/-- The strings of an assignment are those of its value. -/
theorem strings_assign (name : Name) (value : Expr) :
    (assign name value).strings = value.strings := by
  simp [strings, spelling, Mark.contents?]

/-- The strings of a call are those of its callee and then of its arguments. -/
theorem strings_call (callee : Expr) (arguments : List Expr) (line : Nat) :
    (call callee arguments line).strings =
      callee.strings ++ (arguments.map strings).flatten := by
  have harguments : (listSpelling arguments).flatMap stringsOf =
      (arguments.map strings).flatten := by
    rw [listSpelling_eq_map, List.flatMap_map]
    rfl
  simp [strings, spelling, Mark.contents?, stringsOf_commaSeparated, harguments]

/-- The strings of a property are those of its object. -/
theorem strings_get (object : Expr) (property : Name) :
    (get object property).strings = object.strings := by
  simp [strings, spelling, Mark.contents?]

/-- The strings of an assignment to a property are those of its object and then of its value. -/
theorem strings_set (object : Expr) (property : Name) (value : Expr) :
    (set object property value).strings = object.strings ++ value.strings := by
  simp [strings, spelling, Mark.contents?]

/-- The receiver has no text literals in it. -/
theorem strings_of_isReceiver {e : Expr} (h : e.isReceiver = true) : e.strings = [] := by
  cases e with
  | this => rfl
  | _ => cases h

end Expr

/-! ## Expressions -/

/-- A constant is a text of one line and stands for its own string, if it is one. -/
theorem Literal.inline {value : Literal} {line : Nat}
    (h : (Mark.placed value.kind line).Legible) :
    Inline value.cpp (stringsOf [.placed value.kind line]) := by
  obtain ⟨lexeme, hspelled⟩ := h.literal
  cases value with
  | number value => exact inline_number hspelled
  | string contents =>
    have hopen : "std::string(\"" = "std::string(" ++ "\"" := rfl
    have hclose : "\")" = "\"" ++ ")" := rfl
    have htext : Literal.cpp (.string contents) =
        "std::string(" ++ ("\"" ++ cppEscape contents ++ "\"") ++ ")" := by
      rw [cpp, hopen, hclose]
      simp only [String.append_assoc]
    rw [htext]
    exact ((inline_of_all (by decide)).append (.literal contents)).append_nil
      (inline_of_all (by decide))
  | boolean b => cases b <;> exact inline_of_all (by decide)
  | nil => exact inline_of_all (by decide)

/-- Texts with commas between them. -/
theorem inline_intercalate {texts : List String} {strings : List (List String)}
    (h : List.Forall₂ Inline texts strings) : Inline (", ".intercalate texts) strings.flatten := by
  induction h with
  | nil => exact inline_of_all (by decide)
  | @cons text strings texts lists hfirst hrest ih =>
    cases hrest with
    | nil => simpa using hfirst
    | cons hsecond hrest =>
      rw [String.intercalate_cons_cons, List.flatten_cons]
      exact (hfirst.append_nil (inline_of_all (by decide))).append ih

/-- What stands before the name of a property. -/
theorem Expr.inline_access {object : Expr} (h : Inline object.cpp object.strings) :
    Inline (if object.isReceiver then "this->" else object.cpp ++ ".") object.strings := by
  split
  · next hreceiver =>
    rw [strings_of_isReceiver hreceiver]
    exact inline_of_all (by decide)
  · exact h.append_nil (inline_of_all (by decide))

mutual

/-- The text of an expression stands on one line without braces, and its literals are those of the
expression. -/
theorem Expr.inline : (e : Expr) → Legible e.spelling → e.wellFormed = true →
    Inline e.cpp e.strings
  | .literal value line, hlegible, _ => Literal.inline (legible_cons.1 hlegible).1
  | .unary operator operand, hlegible, hwf => by
    rw [spelling, legible_cons] at hlegible
    simp only [wellFormed, Bool.and_eq_true, Bool.or_eq_true, beq_iff_eq] at hwf
    have hoperand := inline operand hlegible.2 hwf.2
    obtain ⟨s, hs, hoperator⟩ := hlegible.1.before hwf.1.1
    have hlexeme := hoperator.inline (by rcases hs with rfl | rfl <;> simp)
    rw [cpp, strings_unary]
    exact (((inline_of_all (by decide)).append hlexeme).append hoperand).append_nil
      (inline_of_all (by decide))
  | .binary left operator right, hlegible, hwf => by
    rw [spelling, legible_append, legible_cons] at hlegible
    obtain ⟨tier, htier, -, -, hwfleft, hwfright⟩ := wellFormed_binary hwf
    have hleft := inline left hlegible.1 hwfleft
    have hright := inline right hlegible.2.2 hwfright
    obtain ⟨s, hs, hoperator⟩ := hlegible.2.1.between htier
    have hlexeme := hoperator.inline (by constructor <;> rintro rfl <;> cases hs)
    have hopen : Inline "(" [] := inline_of_all (by decide)
    have hblank : Inline " " [] := inline_of_all (by decide)
    have hbetween := (((hopen.append hleft).append_nil hblank).append_nil hlexeme).append_nil hblank
    rw [cpp, strings_binary]
    exact (hbetween.append hright).append_nil (inline_of_all (by decide))
  | .group inner, hlegible, hwf => by
    rw [spelling, List.cons_append, legible_cons, legible_append] at hlegible
    rw [cpp, strings_group]
    exact inline inner hlegible.2.1 hwf
  | .reference name, hlegible, _ => (legible_cons.1 hlegible).1.name.inline
  | .assign name value, hlegible, hwf => by
    simp only [spelling, legible_cons] at hlegible
    have hvalue := inline value hlegible.2.2 hwf
    rw [cpp, strings_assign]
    exact (hlegible.1.name.inline.append_nil (inline_of_all (by decide))).append hvalue
  | .call callee arguments line, hlegible, hwf => by
    simp only [spelling, legible_append, legible_cons] at hlegible
    simp only [wellFormed, Bool.and_eq_true] at hwf
    have hcallee := inline callee hlegible.1.1 hwf.1.1.2
    have harguments := inline_intercalate (listInline arguments (fun e he => hlegible.1.2.2.part (by
      rw [listSpelling_eq_map]
      exact infix_commaSeparated (List.mem_map_of_mem he))) hwf.2)
    rw [cpp, strings_call]
    exact ((hcallee.append_nil (inline_of_all (by decide))).append harguments).append_nil
      (inline_of_all (by decide))
  | .get object property, hlegible, hwf => by
    simp only [spelling, legible_append, legible_cons] at hlegible
    simp only [wellFormed, Bool.and_eq_true] at hwf
    rw [cpp_get, strings_get]
    exact (inline_access (inline object hlegible.1 hwf.2)).append_nil hlegible.2.2.1.name.inline
  | .set object property value, hlegible, hwf => by
    simp only [spelling, legible_append, legible_cons] at hlegible
    simp only [wellFormed, Bool.and_eq_true] at hwf
    have hobject := inline_access (inline object hlegible.1 hwf.1.2)
    have hvalue := inline value hlegible.2.2.2.2 hwf.2
    rw [cpp_set, strings_set]
    exact ((hobject.append_nil hlegible.2.2.1.name.inline).append_nil
      (inline_of_all (by decide))).append hvalue
  | .this _, _, _ => by
    rw [cpp]
    exact inline_of_all (by decide)

/-- Arguments are texts of one line with strings of their own. -/
theorem Expr.listInline : (es : List Expr) → (∀ e ∈ es, Legible e.spelling) →
    listWellFormed es = true → List.Forall₂ Inline (listCpp es) (es.map strings)
  | [], _, _ => .nil
  | e :: rest, hlegible, hwf => by
    simp only [listWellFormed, Bool.and_eq_true] at hwf
    exact .cons (inline e (hlegible e List.mem_cons_self) hwf.1)
      (listInline rest (fun e' he' => hlegible e' (.tail _ he')) hwf.2)

end

/-! ## First characters -/

/-- The text starts with a character that is neither a blank nor a quote. -/
def Opens (text : String) : Prop :=
  ∃ c ∈ text.toList.head?, c ≠ ' ' ∧ c ≠ '"'

/-- For fixed texts. -/
theorem opens_of_any {text : String}
    (h : (text.toList.head?.any fun c => c != ' ' && c != '"') = true) : Opens text := by
  obtain ⟨c, hc, hne⟩ := (Option.any_eq_true _ _).1 h
  exact ⟨c, hc, by simpa using hne⟩

/-- What a text starts with does not depend on what is behind it. -/
theorem Opens.append {text : String} (h : Opens text) (behind : String) :
    Opens (text ++ behind) := by
  obtain ⟨c, hc, hne⟩ := h
  obtain ⟨cs, hcs⟩ := List.head?_eq_some_iff.1 hc
  refine ⟨c, ?_, hne⟩
  rw [String.toList_append, hcs]
  rfl

/-- A text that starts with a character of a word starts right. -/
theorem opens_of_isWordRest {text : String} {c : Char} {cs : List Char}
    (htext : text.toList = c :: cs) (hc : isWordRest c = true) : Opens text := by
  refine ⟨c, by rw [htext]; rfl, ?_, ?_⟩
  · rintro rfl
    cases hc
  · rintro rfl
    cases hc

/-- A word starts right. -/
theorem IsWord.opens {text : String} (h : IsWord text) : Opens text := by
  obtain ⟨c, cs, htext, hstart⟩ := h.exists_cons
  exact opens_of_isWordRest htext (isWordRest_of_isWordStart hstart)

/-- The text of a number starts right. -/
theorem opens_number {n : Number} {lexeme : List Char} (h : Spelled (.number n) lexeme) :
    Opens n.text := by
  obtain ⟨hsign, hnan⟩ := Number.unsigned_of_spelled h
  rw [Number.text]
  cases hfinite : n.isFinite with
  | false =>
    rw [Number.chars_of_not_isFinite hsign hnan hfinite]
    exact opens_of_any (by decide)
  | true =>
    have hfirst : ∀ {digits behind}, digits ≠ [] → (∀ d ∈ digits, isDigit d = true) →
        Opens (String.ofList (digits ++ behind)) := by
      intro digits behind hsome hall
      obtain ⟨c, cs, rfl⟩ := List.exists_cons_of_ne_nil hsome
      exact opens_of_isWordRest String.toList_ofList
        (isWordRest_of_isDigit (hall c List.mem_cons_self))
    have hspelled := Number.spelled_chars hsign hfinite
    generalize n.chars = cs at hspelled
    cases hspelled with
    | integer hsome hall => exact List.append_nil cs ▸ hfirst hsome hall
    | fraction hsome hall => exact hfirst hsome hall

/-- A constant starts right. -/
theorem Literal.opens {value : Literal} {line : Nat}
    (h : (Mark.placed value.kind line).Legible) : Opens value.cpp := by
  obtain ⟨lexeme, hspelled⟩ := h.literal
  cases value with
  | number value => exact opens_number hspelled
  | string contents =>
    rw [cpp, String.append_assoc]
    exact (opens_of_any (by decide)).append _
  | boolean b => cases b <;> exact opens_of_any (by decide)
  | nil => exact opens_of_any (by decide)

/-- An access starts right if its object does. -/
theorem Expr.opens_access {object : Expr} (h : Opens object.cpp) :
    Opens (if object.isReceiver then "this->" else object.cpp ++ ".") := by
  split
  · exact opens_of_any (by decide)
  · exact h.append _

/-- The text of an expression starts with a character that is neither a blank nor a quote. -/
theorem Expr.opens : (e : Expr) → Legible e.spelling → Opens e.cpp
  | .literal value line, hlegible => by
    rw [cpp]
    exact Literal.opens (legible_cons.1 hlegible).1
  | .unary operator operand, _ => by
    rw [cpp, String.append_assoc, String.append_assoc]
    exact (opens_of_any (by decide)).append _
  | .binary left operator right, _ => by
    simp only [cpp, String.append_assoc]
    exact (opens_of_any (by decide)).append _
  | .group inner, hlegible => by
    rw [spelling, List.cons_append, legible_cons, legible_append] at hlegible
    rw [cpp]
    exact opens inner hlegible.2.1
  | .reference name, hlegible => by
    rw [cpp]
    exact (legible_cons.1 hlegible).1.name.opens
  | .assign name value, hlegible => by
    rw [cpp, String.append_assoc]
    exact (legible_cons.1 hlegible).1.name.opens.append _
  | .call callee arguments line, hlegible => by
    simp only [spelling, legible_append] at hlegible
    rw [cpp, String.append_assoc, String.append_assoc]
    exact (opens callee hlegible.1.1).append _
  | .get object property, hlegible => by
    rw [spelling, legible_append] at hlegible
    rw [cpp_get]
    exact (opens_access (opens object hlegible.1)).append _
  | .set object property value, hlegible => by
    rw [spelling, legible_append] at hlegible
    rw [cpp_set]
    exact (((opens_access (opens object hlegible.1)).append _).append _).append _
  | .this _, _ => by
    rw [cpp]
    exact opens_of_any (by decide)

end Quill

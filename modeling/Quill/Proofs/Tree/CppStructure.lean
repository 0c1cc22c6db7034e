import Quill.Proofs.Tree.CppForms

/-!
# The structure of expressions in C++

C++ text drops the parentheses of the source. It has parentheses of its own around operators and
around the receiver, but none around assignments, so `(a = b)(c)` and `a = b(c)` are the same text
(`same_cpp_called_assignment`). Where no assignment is called or accessed, the text shows everything
but lines and parentheses (`outline_eq_of_cpp_eq`).

The chunks of an expression show its form, and each form has its own place where the text splits
into the parts of the expression: an operator stands behind the first chunks that are an operand
(`Chunk.Operand`), the name of a property is the last word, arguments end at commas.
-/

namespace Quill

open Chunk

/-! ## Where text splits -/

/-- Text without blanks, or such texts with equals signs between blanks. -/
inductive Chunk.Operand : List Chunk → Prop
  | single {xs} (h : .char ' ' ∉ xs) : Operand xs
  | assigned {target value} (htarget : .char ' ' ∉ target) (hvalue : Operand value) :
    Operand (target ++ .char ' ' :: .char '=' :: .char ' ' :: value)

/-- No blank is in a word. -/
theorem IsWord.blank_not_mem {text : String} (h : IsWord text) :
    .char ' ' ∉ ofChars text.toList :=
  fun hc => absurd (h.isWordRest ' ' (char_mem_ofChars.1 hc)) (by decide)

/-- The text of a plain expression may stand as an operand. -/
theorem Expr.Plain.operand {e : Expr} (h : e.Plain) : Operand e.chunks := by
  induction h with
  | group _ ih => exact ih
  | assign hname _ ih => exact .assigned hname.blank_not_mem ih
  | set hopen h hname _ _ ihvalue =>
    exact .assigned ((Expr.Plain.get hopen h hname).blank_not_mem nofun) ihvalue
  | unary | binary | this => exact .single (by simp [chunks])
  | reference hname => exact .single hname.blank_not_mem
  | call hopen h =>
    refine .single fun hc => ?_
    rcases List.mem_append.1 hc with hc | hc
    · exact h.blank_not_mem hopen hc
    · cases List.mem_singleton.1 hc
  | get hopen h hname => exact .single ((Expr.Plain.get hopen h hname).blank_not_mem nofun)

/-- An operator other than the equals sign shows where its left operand ends. -/
theorem Chunk.Operand.append_inj {xs xs' : List Chunk} (h : Operand xs) (h' : Operand xs')
    {operator operator' ys ys' : List Chunk} (hblank : .char ' ' ∉ operator)
    (hblank' : .char ' ' ∉ operator') (hequal : operator ≠ [.char '='])
    (hequal' : operator' ≠ [.char '='])
    (heq : xs ++ .char ' ' :: (operator ++ .char ' ' :: ys) =
      xs' ++ .char ' ' :: (operator' ++ .char ' ' :: ys')) :
    xs = xs' ∧ operator = operator' ∧ ys = ys' := by
  induction h generalizing xs' with
  | single hxs =>
    cases h' with
    | single hxs' =>
      obtain ⟨rfl, hrest⟩ := append_cons_inj_of_not_mem hxs hxs' heq
      exact ⟨rfl, append_cons_inj_of_not_mem hblank hblank' hrest⟩
    | assigned htarget' hvalue' =>
      simp only [List.append_assoc, List.cons_append] at heq
      obtain ⟨-, hrest⟩ := append_cons_inj_of_not_mem hxs htarget' heq
      have hword : operator ++ .char ' ' :: ys = [.char '='] ++ .char ' ' :: _ := hrest
      exact absurd (append_cons_inj_of_not_mem hblank (by simp) hword).1 hequal
  | assigned htarget _ ih =>
    cases h' with
    | single hxs' =>
      simp only [List.append_assoc, List.cons_append] at heq
      obtain ⟨-, hrest⟩ := append_cons_inj_of_not_mem htarget hxs' heq
      have hword : operator' ++ .char ' ' :: ys' = [.char '='] ++ .char ' ' :: _ := hrest.symm
      exact absurd (append_cons_inj_of_not_mem hblank' (by simp) hword).1 hequal'
    | assigned htarget' hvalue' =>
      simp only [List.append_assoc, List.cons_append] at heq
      obtain ⟨rfl, hrest⟩ := append_cons_inj_of_not_mem htarget htarget' heq
      simp only [List.cons.injEq, true_and] at hrest
      obtain ⟨rfl, hbehind⟩ := ih hvalue' hrest
      exact ⟨rfl, hbehind⟩

/-- The name of a property is the last word of its text. -/
theorem Chunk.access_inj {isReceiver isReceiver' : Bool} {object object' : List Chunk}
    {name name' : String} (hname : IsWord name) (hname' : IsWord name')
    (heq : access isReceiver object ++ ofChars name.toList =
      access isReceiver' object' ++ ofChars name'.toList) :
    access isReceiver object = access isReceiver' object' ∧ name = name' := by
  have hword : ∀ {name : String}, IsWord name →
      ∀ chunk ∈ ofChars name.toList, ∃ c, chunk = char c ∧ Quill.isWordRest c = true := by
    intro name hname chunk hchunk
    obtain ⟨c, hc, rfl⟩ := List.mem_map.1 hchunk
    exact ⟨c, rfl, hname.isWordRest c hc⟩
  have haccess : ∀ (isReceiver : Bool) (object : List Chunk),
      ∀ chunk ∈ (access isReceiver object).getLast?,
        ¬∃ c, chunk = char c ∧ Quill.isWordRest c = true := by
    rintro isReceiver object chunk hchunk ⟨c, rfl, hc⟩
    rw [access] at hchunk
    split at hchunk
    · cases hchunk
      exact absurd hc (by decide)
    · rw [List.getLast?_concat] at hchunk
      cases hchunk
      exact absurd hc (by decide)
  obtain ⟨hobject, htext⟩ := append_inj_of_boundary' (hword hname) (hword hname')
    (haccess _ _) (haccess _ _) heq
  exact ⟨hobject, String.toList_injective (ofChars_injective htext)⟩

/-- An access through the receiver is no other. -/
theorem Chunk.access_ne (object object' : List Chunk) :
    access true object ≠ access false object' := by
  intro heq
  have hlast := congrArg List.getLast? heq
  simp only [access, Bool.false_eq_true, if_false, if_true, List.getLast?_concat] at hlast
  cases hlast

/-- Behind an object the access shows the object. -/
theorem Chunk.access_false_inj {object object' : List Chunk}
    (h : access false object = access false object') : object = object' :=
  List.append_cancel_right h

/-! ## The same text -/

namespace Expr.Plain

variable {e e' : Expr}

/-- Plain expressions of one text are of one form. -/
theorem form_eq (h : e.Plain) (h' : e'.Plain) (heq : e.chunks = e'.chunks) : e.form = e'.form := by
  rw [← h.ofChunks_chunks, heq, h'.ofChunks_chunks]

/-- A property of the same object, if it is reached the same way. -/
theorem outline_of_access {object object' : Expr}
    (ih : object.chunks = object'.chunks → object.outline = object'.outline)
    (heq : access object.isReceiver object.chunks = access object'.isReceiver object'.chunks) :
    object.outline = object'.outline := by
  have hthis : ∀ e : Expr, e.isReceiver = true → e.outline = .this 0 := by
    intro e he
    cases e with
    | this => rfl
    | _ => cases he
  cases hobject : object.isReceiver <;> cases hobject' : object'.isReceiver <;>
    rw [hobject, hobject'] at heq
  · exact ih (access_false_inj heq)
  · exact absurd heq.symm (access_ne _ _)
  · exact absurd heq (access_ne _ _)
  · rw [hthis _ hobject, hthis _ hobject']

/-- An argument has some text. -/
theorem listChunks_ne_nil (h : e.Plain) (rest : List Expr) : listChunks (e :: rest) ≠ [] := by
  obtain ⟨_, _, hcons, -⟩ := h.opensOperand
  cases rest with
  | nil => simp [listChunks, hcons]
  | cons => simp [listChunks]

/-- The text of the expression shows what it is but for lines and parentheses. -/
def ShowsOutline (e : Expr) : Prop :=
  ∀ {e' : Expr}, e'.Plain → e.chunks = e'.chunks → e.outline = e'.outline

/-- Arguments of the same text are the same one by one. -/
theorem outline_of_listChunks : {es es' : List Expr} → (∀ e ∈ es, e.Plain) →
    (∀ e ∈ es', e.Plain) → (∀ e ∈ es, ShowsOutline e) → listChunks es = listChunks es' →
    es.map outline = es'.map outline
  | [], [], _, _, _, _ => rfl
  | [], e' :: rest', _, h', _, heq =>
    absurd heq.symm ((h' e' List.mem_cons_self).listChunks_ne_nil rest')
  | e :: rest, [], h, _, _, heq => absurd heq ((h e List.mem_cons_self).listChunks_ne_nil rest)
  | [e], [e'], h, h', ih, heq => by
    rw [List.map_singleton, ih e List.mem_cons_self (h' e' List.mem_cons_self) heq,
      List.map_singleton]
  | [e], e' :: _ :: _, h, _, _, heq => by
    have hcomma := (h e List.mem_cons_self).comma_not_mem
    exact absurd (by simp [show e.chunks = _ from heq, listChunks]) hcomma
  | e :: _ :: _, [e'], _, h', _, heq => by
    have hcomma := (h' e' List.mem_cons_self).comma_not_mem
    exact absurd (by simp [show e'.chunks = _ from heq.symm, listChunks]) hcomma
  | e :: next :: rest, e' :: next' :: rest', h, h', ih, heq => by
    obtain ⟨hhead, htail⟩ := append_cons_inj_of_not_mem (h e List.mem_cons_self).comma_not_mem
      (h' e' List.mem_cons_self).comma_not_mem heq
    have hrest := outline_of_listChunks (fun a ha => h a (.tail _ ha))
      (fun a ha => h' a (.tail _ ha)) (fun a ha => ih a (.tail _ ha)) (List.cons.inj htail).2
    exact congrArg₂ List.cons (ih e List.mem_cons_self (h' e' List.mem_cons_self) hhead) hrest

/-! What remains is to read each form off its chunks. The other expression may have parentheses
around it, so each case goes through these by induction. -/

/-- An operator before an operand shows its outline if the operand does. -/
theorem showsOutline_unary {operator : Token} {operand : Expr} {s : Symbol}
    (hs : s = .bang ∨ s = .minus) (hoperator : operator.IsOperator s) (h : operand.Plain)
    (ih : ShowsOutline operand) : ShowsOutline (.unary operator operand) := by
  intro e' h' heq
  have hform := (Expr.Plain.unary hs hoperator h).form_eq h' heq
  induction h' with
  | unary hs' hoperator' hoperand' =>
    have hlength : ∀ {t : Token} {s}, t.IsOperator s → s = .bang ∨ s = .minus →
        (ofChars t.lexeme.toList).length = 1 := by
      rintro t s ht (rfl | rfl) <;> rw [ht.text] <;> rfl
    simp only [chunks, List.cons.injEq, Chunk.paren.injEq, and_true] at heq
    obtain ⟨hsame, hbehind⟩ := List.append_inj heq
      ((hlength hoperator hs).trans (hlength hoperator' hs').symm)
    exact congrArg₂ Expr.unary (hoperator.mapLine_eq hoperator' hsame) (ih hoperand' hbehind)
  | group _ ih' => exact ih' heq hform
  | _ => cases hform

/-- An operator between operands shows its outline if both of them do. -/
theorem showsOutline_binary {left right : Expr} {operator : Token} {s : Symbol} {tier : Nat}
    (hs : s.tier? = some tier) (hoperator : operator.IsOperator s) (hleft : left.Plain)
    (hright : right.Plain) (ihleft : ShowsOutline left) (ihright : ShowsOutline right) :
    ShowsOutline (.binary left operator right) := by
  intro e' h' heq
  have hform := (Expr.Plain.binary hs hoperator hleft hright).form_eq h' heq
  induction h' with
  | binary hs' hoperator' hleft' hright' =>
    simp only [chunks, List.append_assoc, List.cons_append, List.cons.injEq, Chunk.paren.injEq,
      and_true] at heq
    obtain ⟨hbefore, hsame, hbehind⟩ := hleft.operand.append_inj hleft'.operand
      hoperator.blank_not_mem hoperator'.blank_not_mem (hoperator.ne_equal hs)
      (hoperator'.ne_equal hs') heq
    rw [outline_binary, outline_binary, ihleft hleft' hbefore,
      hoperator.mapLine_eq hoperator' hsame, ihright hright' hbehind]
  | group _ ih' => exact ih' heq hform
  | _ => cases hform

/-- A name shows its outline. -/
theorem showsOutline_reference {name : Name} (hname : IsWord name.text) :
    ShowsOutline (.reference name) := by
  intro e' h' heq
  have hform := (Expr.Plain.reference hname).form_eq h' heq
  induction h' with
  | reference =>
    exact congrArg Expr.reference
      (Name.mapLine_noLine_eq (String.toList_injective (ofChars_injective heq)))
  | group _ ih' => exact ih' heq hform
  | _ => cases hform

/-- A call shows its outline if its callee and arguments do. -/
theorem showsOutline_call {callee : Expr} {arguments : List Expr} {line : Nat}
    (hopen : callee.form ≠ .assignment) (h : callee.Plain) (harguments : ∀ e ∈ arguments, e.Plain)
    (ih : ShowsOutline callee) (iharguments : ∀ e ∈ arguments, ShowsOutline e) :
    ShowsOutline (.call callee arguments line) := by
  intro e' h' heq
  have hcall : (Expr.call callee arguments line).Plain := .call hopen h harguments
  have hform := hcall.form_eq h' heq
  induction h' with
  | call _ hcallee' harguments' =>
    obtain ⟨hcallee, hinner⟩ := List.append_inj' heq rfl
    simp only [List.cons.injEq, Chunk.paren.injEq, and_true] at hinner
    rw [outline_call, outline_call, ih hcallee' hcallee,
      outline_of_listChunks harguments harguments' iharguments hinner]
  | group _ ih' => exact ih' heq hform
  | _ => cases hform

/-- A property shows its outline if its object does. -/
theorem showsOutline_get {object : Expr} {property : Name} (hopen : object.form ≠ .assignment)
    (h : object.Plain) (hname : IsWord property.text) (ih : ShowsOutline object) :
    ShowsOutline (.get object property) := by
  intro e' h' heq
  have hform := (Expr.Plain.get hopen h hname).form_eq h' heq
  induction h' with
  | get _ hobject' hname' =>
    obtain ⟨haccess, htext⟩ := access_inj hname hname' heq
    exact congrArg₂ Expr.get (outline_of_access (ih hobject') haccess)
      (Name.mapLine_noLine_eq htext)
  | group _ ih' => exact ih' heq hform
  | _ => cases hform

/-- An assignment shows its outline if its value does. -/
theorem showsOutline_assign {name : Name} {value : Expr} (hname : IsWord name.text)
    (h : value.Plain) (ih : ShowsOutline value) : ShowsOutline (.assign name value) := by
  intro e' h' heq
  have hform := (Expr.Plain.assign hname h).form_eq h' heq
  induction h' with
  | assign hname' hvalue' =>
    obtain ⟨htarget, hbehind⟩ :=
      append_cons_inj_of_not_mem hname.blank_not_mem hname'.blank_not_mem heq
    simp only [List.cons.injEq, true_and] at hbehind
    exact congrArg₂ Expr.assign
      (Name.mapLine_noLine_eq (String.toList_injective (ofChars_injective htarget)))
      (ih hvalue' hbehind)
  | set hopen' hobject' hname' =>
    have hget' := Expr.Plain.get hopen' hobject' hname'
    have htarget := (append_cons_inj_of_not_mem hname.blank_not_mem
      (hget'.blank_not_mem nofun) heq).1
    exact nomatch (Expr.Plain.reference hname).form_eq hget' htarget
  | group _ ih' => exact ih' heq hform
  | _ => cases hform

/-- An assignment to a property shows its outline if its object and value do. -/
theorem showsOutline_set {object value : Expr} {property : Name}
    (hopen : object.form ≠ .assignment) (h : object.Plain) (hname : IsWord property.text)
    (hvalue : value.Plain) (ih : ShowsOutline object) (ihvalue : ShowsOutline value) :
    ShowsOutline (.set object property value) := by
  intro e' h' heq
  have hget := Expr.Plain.get hopen h hname
  have hform := (Expr.Plain.set hopen h hname hvalue).form_eq h' heq
  induction h' with
  | assign hname' =>
    have htarget := (append_cons_inj_of_not_mem (hget.blank_not_mem nofun)
      hname'.blank_not_mem heq).1
    exact nomatch hget.form_eq (Expr.Plain.reference hname') htarget
  | set hopen' hobject' hname' hvalue' =>
    obtain ⟨htarget, hbehind⟩ := append_cons_inj_of_not_mem (hget.blank_not_mem nofun)
      ((Expr.Plain.get hopen' hobject' hname').blank_not_mem nofun) heq
    simp only [List.cons.injEq, true_and] at hbehind
    obtain ⟨haccess, htext⟩ := access_inj hname hname' htarget
    rw [outline_set, outline_set, outline_of_access (ih hobject') haccess,
      Name.mapLine_noLine_eq htext, ihvalue hvalue' hbehind]
  | group _ ih' => exact ih' heq hform
  | _ => cases hform

/-- The receiver shows its outline. -/
theorem showsOutline_this {line : Nat} : ShowsOutline (.this line) := by
  intro e' h' heq
  have hthis : (Expr.this line).Plain := .this
  have hform := hthis.form_eq h' heq
  induction h' with
  | this => rfl
  | group _ ih' => exact ih' heq hform
  | _ => cases hform

/-- The text of a plain expression shows what it is. -/
theorem showsOutline (h : e.Plain) : ShowsOutline e := by
  induction h with
  | unary hs hoperator h ih => exact showsOutline_unary hs hoperator h ih
  | binary hs hoperator hleft hright ihleft ihright =>
    exact showsOutline_binary hs hoperator hleft hright ihleft ihright
  | group _ ih => exact ih
  | reference hname => exact showsOutline_reference hname
  | assign hname h ih => exact showsOutline_assign hname h ih
  | call hopen h harguments ih iharguments =>
    exact showsOutline_call hopen h harguments ih iharguments
  | get hopen h hname ih => exact showsOutline_get hopen h hname ih
  | set hopen h hname hvalue ih ihvalue => exact showsOutline_set hopen h hname hvalue ih ihvalue
  | this => exact showsOutline_this

end Expr.Plain

/-! ## Expressions of programs -/

/-- Expressions of programs that have the same text in C++ are the same but for lines and
parentheses, if there are no constants in them and no assignment is called or accessed. -/
theorem outline_eq_of_cpp_eq {e e' : Expr} (h : e.Occurs Stmt.Parsed) (h' : e'.Occurs Stmt.Parsed)
    (hfree : e.isLiteralFree = true) (hfree' : e'.isLiteralFree = true)
    (hopen : e.opensNoAssignment = true) (hopen' : e'.opensNoAssignment = true)
    (hcpp : e.cpp = e'.cpp) : e.outline = e'.outline := by
  have hwf : ∀ s : Stmt, s.Parsed → s.wellFormed = true := fun s hs => hs.wellFormed
  have hplain := e.plain h.legible (h.wellFormed hwf) hfree hopen
  have hplain' := e'.plain h'.legible (h'.wellFormed hwf) hfree' hopen'
  have hchars : listChars e.chunks ++ [] = listChars e'.chunks ++ [] := by
    rw [Expr.listChars_chunks, Expr.listChars_chunks, hcpp]
  exact hplain.showsOutline hplain'
    (listChars_inj _ _ hplain.listClosed hplain'.listClosed (by simp) (by simp) hchars).1

/-- The expression that a source consists of. -/
def parsedExpression? (source : String) : Option Expr :=
  match parse source with
  | .ok ⟨[.expression e]⟩ => some e
  | _ => none

/-- The expression that a source consists of occurs in parsed code. -/
theorem occurs_of_parsedExpression? {source : String} {e : Expr}
    (h : parsedExpression? source = some e) : e.Occurs Stmt.Parsed := by
  unfold parsedExpression? at h
  split at h
  · rename_i hparse
    cases h
    exact .effect (.top ⟨source, _, hparse, List.mem_cons_self⟩)
  · cases h

/-- The parentheses of the first source are gone in C++. -/
theorem outline_eq_of_cpp_eq_parentheses :
    ∃ e e', parsedExpression? "(a.b)(-(c));" = some e ∧ parsedExpression? "a.b(-c);" = some e'
      ∧ e.cpp = e'.cpp ∧ e.outline = e'.outline := by
  have hshape : ∀ source ∈ ["(a.b)(-(c));", "a.b(-c);"],
      (parsedExpression? source).map (fun e => (e.isLiteralFree, e.opensNoAssignment, e.cpp)) =
        some (true, true, "a.b((-c))") := by
    decide +kernel
  obtain ⟨e, he, hshown⟩ := Option.map_eq_some_iff.1 (hshape "(a.b)(-(c));" (by simp))
  obtain ⟨e', he', hshown'⟩ := Option.map_eq_some_iff.1 (hshape "a.b(-c);" (by simp))
  simp only [Prod.mk.injEq] at hshown hshown'
  have hcpp := hshown.2.2.trans hshown'.2.2.symm
  exact ⟨e, e', he, he', hcpp, outline_eq_of_cpp_eq (occurs_of_parsedExpression? he)
    (occurs_of_parsedExpression? he') hshown.1 hshown'.1 hshown.2.1 hshown'.2.1 hcpp⟩

/-- What an expression is does not lie in its lines and parentheses. -/
theorem Expr.form_outline : (e : Expr) → e.outline.form = e.form
  | .group inner => Expr.form_outline inner
  | .literal _ _ | .unary _ _ | .binary _ _ _ | .reference _ | .assign _ _ | .call _ _ _ | .get _ _
  | .set _ _ _ | .this _ => rfl

/-- Without its parentheses, an assignment that is called becomes an assignment of a call. -/
theorem same_cpp_called_assignment :
    ∃ e e', parsedExpression? "(a = b)(c);" = some e ∧ parsedExpression? "a = b(c);" = some e'
      ∧ e.isLiteralFree = true ∧ e'.isLiteralFree = true
      ∧ e.cpp = e'.cpp ∧ e.outline ≠ e'.outline := by
  have hcall : (parsedExpression? "(a = b)(c);").map (fun e => (e.isLiteralFree, e.form, e.cpp)) =
      some (true, .call, "a = b(c)") := by
    decide +kernel
  have hassign : (parsedExpression? "a = b(c);").map (fun e => (e.isLiteralFree, e.form, e.cpp)) =
      some (true, .assignment, "a = b(c)") := by
    decide +kernel
  obtain ⟨e, he, hshown⟩ := Option.map_eq_some_iff.1 hcall
  obtain ⟨e', he', hshown'⟩ := Option.map_eq_some_iff.1 hassign
  simp only [Prod.mk.injEq] at hshown hshown'
  refine ⟨e, e', he, he', hshown.1, hshown'.1, hshown.2.2.trans hshown'.2.2.symm, fun heq => ?_⟩
  have hform := congrArg Expr.form heq
  rw [Expr.form_outline, Expr.form_outline, hshown.2.1, hshown'.2.1] at hform
  cases hform

end Quill

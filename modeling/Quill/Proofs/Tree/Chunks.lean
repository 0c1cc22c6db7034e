import Mathlib.Data.List.Basic
import Quill.Proofs.Lines.Relabelling
import Quill.Proofs.Token.Spelled

/-!
# The parentheses of C++ text

A text with parentheses is a list of chunks: characters, and texts in parentheses, which are lists
of chunks again. A text has no more than one such list, if its characters are no parentheses
(`Chunk.listChars_inj`).

`Expr.chunks` are the chunks of an expression in C++, so expressions with the same text have the
same chunks. What is in parentheses stays closed there: a list of chunks can be split at a blank or
a comma without a look at the parentheses inside of it.
-/

namespace Quill

/-! ## Chunks -/

/-- A character, or a text in parentheses. -/
inductive Chunk where
  /-- A character. -/
  | char (c : Char)
  /-- What stands in a pair of parentheses. -/
  | paren (inner : List Chunk)

namespace Chunk

mutual

/-- The characters of a chunk. -/
def chars : Chunk → List Char
  | char c => [c]
  | paren inner => '(' :: listChars inner ++ [')']

/-- The characters of chunks in order. -/
def listChars : List Chunk → List Char
  | [] => []
  | chunk :: rest => chunk.chars ++ listChars rest

end

mutual

/-- No character of the chunk is a parenthesis. -/
def Closed : Chunk → Prop
  | char c => c ≠ '(' ∧ c ≠ ')'
  | paren inner => ListClosed inner

/-- No character of the chunks is a parenthesis. -/
def ListClosed : List Chunk → Prop
  | [] => True
  | chunk :: rest => chunk.Closed ∧ ListClosed rest

end

@[simp] theorem closed_char {c : Char} : (char c).Closed ↔ c ≠ '(' ∧ c ≠ ')' :=
  Iff.rfl

@[simp] theorem closed_paren {inner : List Chunk} : (paren inner).Closed ↔ ListClosed inner :=
  Iff.rfl

@[simp] theorem listClosed_nil : ListClosed [] :=
  trivial

@[simp] theorem listClosed_cons {chunk : Chunk} {rest : List Chunk} :
    ListClosed (chunk :: rest) ↔ chunk.Closed ∧ ListClosed rest :=
  Iff.rfl

/-- The characters of chunks one after another are those of each. -/
theorem listChars_append (first second : List Chunk) :
    listChars (first ++ second) = listChars first ++ listChars second := by
  induction first with
  | nil => rfl
  | cons chunk rest ih => rw [List.cons_append, listChars, ih, listChars, List.append_assoc]

@[simp] theorem listClosed_append {first second : List Chunk} :
    ListClosed (first ++ second) ↔ ListClosed first ∧ ListClosed second := by
  induction first with
  | nil => simp
  | cons chunk rest ih => simp [ih, and_assoc]

/-- Characters as chunks. -/
def ofChars (cs : List Char) : List Chunk :=
  cs.map char

/-- Characters that are made into chunks are found in them again. -/
theorem listChars_ofChars (cs : List Char) : listChars (ofChars cs) = cs := by
  induction cs with
  | nil => rfl
  | cons c rest ih =>
    rw [ofChars, List.map_cons, listChars, chars, ← ofChars, ih]
    rfl

/-- Characters are closed chunks if no parenthesis is among them. -/
theorem listClosed_ofChars {cs : List Char} :
    ListClosed (ofChars cs) ↔ '(' ∉ cs ∧ ')' ∉ cs := by
  induction cs with
  | nil => simp [ofChars]
  | cons c rest ih =>
    rw [ofChars, List.map_cons, listClosed_cons, closed_char, ← ofChars, ih]
    grind

/-- Different characters make different chunks. -/
theorem ofChars_injective : Function.Injective ofChars :=
  List.map_injective_iff.2 fun _ _ h => Chunk.char.inj h

/-- What stands before the name of a property: an arrow of the receiver, or a point behind another
object. -/
def access (isReceiver : Bool) (object : List Chunk) : List Chunk :=
  if isReceiver then ofChars "this->".toList else object ++ [char '.']

/-- A text up to a closing parenthesis has one list of chunks. -/
theorem listChars_inj : (xs ys : List Chunk) → ListClosed xs → ListClosed ys →
    ∀ {r s : List Char}, (∀ c ∈ r.head?, c = ')') → (∀ c ∈ s.head?, c = ')') →
    listChars xs ++ r = listChars ys ++ s → xs = ys ∧ r = s
  | [], [], _, _, _, _, _, _, h => ⟨rfl, h⟩
  | [], .char c :: rest, _, hys, r, s, hr, _, h => by
    have hhead : c ∈ r.head? := by
      rw [show r = _ from h]
      rfl
    exact absurd (hr c hhead) hys.1.2
  | [], .paren inner :: rest, _, _, r, s, hr, _, h => by
    have hhead : '(' ∈ r.head? := by
      rw [show r = _ from h]
      rfl
    exact absurd (hr '(' hhead) (by decide)
  | .char c :: rest, [], hxs, _, r, s, _, hs, h => by
    have hhead : c ∈ s.head? := by
      rw [show s = _ from h.symm]
      rfl
    exact absurd (hs c hhead) hxs.1.2
  | .paren inner :: rest, [], _, _, r, s, _, hs, h => by
    have hhead : '(' ∈ s.head? := by
      rw [show s = _ from h.symm]
      rfl
    exact absurd (hs '(' hhead) (by decide)
  | .char c :: xs, .char d :: ys, hxs, hys, r, s, hr, hs, h => by
    obtain ⟨rfl, hrest⟩ := List.cons.inj h
    obtain ⟨rfl, hend⟩ := listChars_inj xs ys hxs.2 hys.2 hr hs hrest
    exact ⟨rfl, hend⟩
  | .char c :: xs, .paren inner :: ys, hxs, _, r, s, _, _, h =>
    absurd (List.cons.inj h).1 hxs.1.1
  | .paren inner :: xs, .char d :: ys, _, hys, r, s, _, _, h =>
    absurd (List.cons.inj h).1.symm hys.1.1
  | .paren inner :: xs, .paren inner' :: ys, hxs, hys, r, s, hr, hs, h => by
    simp only [listChars, chars, List.cons_append, List.append_assoc, List.nil_append,
      List.cons.injEq, true_and] at h
    obtain ⟨rfl, hrest⟩ := listChars_inj inner inner' hxs.1 hys.1 (by simp) (by simp) h
    obtain ⟨rfl, hend⟩ := listChars_inj xs ys hxs.2 hys.2 hr hs (List.cons.inj hrest).2
    exact ⟨rfl, hend⟩

end Chunk

/-! ## Expressions -/

open Chunk

mutual

/-- The chunks of an expression in C++. -/
def Expr.chunks : Expr → List Chunk
  | .literal value _ => ofChars value.cpp.toList
  | .unary operator operand => [.paren (ofChars operator.lexeme.toList ++ operand.chunks)]
  | .binary left operator right =>
    [.paren
      (left.chunks ++ .char ' ' :: ofChars operator.lexeme.toList ++ .char ' ' :: right.chunks)]
  | .group inner => inner.chunks
  | .reference name => ofChars name.text.toList
  | .assign name value =>
    ofChars name.text.toList ++ .char ' ' :: .char '=' :: .char ' ' :: value.chunks
  | .call callee arguments _ => callee.chunks ++ [.paren (Expr.listChunks arguments)]
  | .get object property =>
    access object.isReceiver object.chunks ++ ofChars property.text.toList
  | .set object property value =>
    access object.isReceiver object.chunks ++ ofChars property.text.toList
      ++ .char ' ' :: .char '=' :: .char ' ' :: value.chunks
  | .this _ => [.paren (ofChars "*this".toList)]

/-- The chunks of expressions with commas between them. -/
def Expr.listChunks : List Expr → List Chunk
  | [] => []
  | [e] => e.chunks
  | e :: e' :: rest => e.chunks ++ .char ',' :: .char ' ' :: Expr.listChunks (e' :: rest)

end

mutual

/-- The characters of the chunks are those of the expression. -/
theorem Expr.listChars_chunks : (e : Expr) → listChars e.chunks = e.cpp.toList
  | .literal value _ => by rw [chunks, listChars_ofChars, cpp]
  | .unary operator operand => by
    simp [chunks, cpp, listChars, chars, listChars_append, listChars_ofChars,
      listChars_chunks operand]
  | .binary left operator right => by
    simp [chunks, cpp, listChars, chars, listChars_append, listChars_ofChars,
      listChars_chunks left, listChars_chunks right]
  | .group inner => by rw [chunks, cpp, listChars_chunks inner]
  | .reference name => by rw [chunks, listChars_ofChars, cpp]
  | .assign name value => by
    simp [chunks, cpp, listChars, chars, listChars_append, listChars_ofChars,
      listChars_chunks value]
  | .call callee arguments _ => by
    simp [chunks, cpp, listChars, chars, listChars_append, listChars_chunks callee,
      listChars_listChunks arguments]
  | .get object property => by
    rw [chunks, cpp_get, access]
    split <;>
      simp [listChars, chars, listChars_append, listChars_ofChars, listChars_chunks object]
  | .set object property value => by
    rw [chunks, cpp_set, access]
    split <;>
      simp [listChars, chars, listChars_append, listChars_ofChars, listChars_chunks object,
        listChars_chunks value]
  | .this _ => by simp [chunks, cpp, listChars, chars, listChars_ofChars]

/-- The chunks of arguments are their text. -/
theorem Expr.listChars_listChunks : (es : List Expr) →
    listChars (listChunks es) = (", ".intercalate (listCpp es)).toList
  | [] => by simp [listChunks, listCpp, listChars]
  | [e] => by simp [listChunks, listCpp, listChars_chunks e]
  | e :: e' :: rest => by
    have hrest := listChars_listChunks (e' :: rest)
    simp only [listCpp] at hrest ⊢
    rw [listChunks, String.intercalate_cons_cons, listChars_append, listChars, listChars, hrest,
      listChars_chunks e]
    simp [chars]

end

end Quill

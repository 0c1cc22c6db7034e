import Quill.Proofs.Token.Spelled

/-!
# Parenthesised text

Printed trees are words, texts in quotes, and lists of these in parentheses. A text has at most one
reading as such items, if words have no delimiters in them and texts no quotes
(`Sexp.chars_inj`, `Sexp.listChars_inj`): an item ends where a delimiter follows, whatever stands
inside of its parentheses and quotes.
-/

namespace Quill

/-- An item of printed trees. -/
inductive Sexp where
  /-- A word. -/
  | word (text : String)
  /-- A text in quotes. -/
  | quoted (contents : String)
  /-- Items in parentheses. -/
  | list (items : List Sexp)

/-- Characters that stand around words and are not in them. -/
def isDelimiter (c : Char) : Bool :=
  c == ' ' || c == '\n' || c == '(' || c == ')' || c == '"'

namespace Sexp

/-! ## The text of items -/

mutual

/-- The characters of an item. -/
def chars : Sexp → List Char
  | word text => text.toList
  | quoted contents => '"' :: contents.toList ++ ['"']
  | list [] => ['(', ')']
  | list (item :: rest) => '(' :: item.chars ++ tailChars ' ' rest ++ [')']

/-- The characters of items, each behind a separator. -/
def tailChars (separator : Char) : List Sexp → List Char
  | [] => []
  | item :: rest => separator :: item.chars ++ tailChars separator rest

end

/-- The characters of items with separators between them. -/
def listChars (separator : Char) : List Sexp → List Char
  | [] => []
  | item :: rest => item.chars ++ tailChars separator rest

/-- The words have no delimiters in them, and the texts no quotes. -/
inductive Closed : Sexp → Prop
  | word {text} (hsome : text.toList ≠ []) (h : ∀ c ∈ text.toList, isDelimiter c = false) :
    Closed (word text)
  | quoted {contents} (h : '"' ∉ contents.toList) : Closed (quoted contents)
  | list {items} (h : ∀ item ∈ items, Closed item) : Closed (list items)

/-- A text without delimiters is a closed word. -/
theorem closed_word {text : String}
    (h : (!text.toList.isEmpty && text.toList.all fun c => !isDelimiter c) = true) :
    Closed (word text) := by
  simp only [Bool.and_eq_true, Bool.not_eq_true', List.isEmpty_eq_false_iff, List.all_eq_true] at h
  exact .word h.1 h.2

/-- What may stand behind an item: nothing, a separator, or the end of a list. -/
def Ends (behind : List Char) : Prop :=
  ∀ c ∈ behind.head?, c = ' ' ∨ c = '\n' ∨ c = ')'

/-- What may stand behind the last item: nothing, or the end of a list. -/
def EndsList (behind : List Char) : Prop :=
  ∀ c ∈ behind.head?, c = ')'

/-- Only a delimiter stands behind an item. -/
theorem Ends.isDelimiter {behind : List Char} (h : Ends behind) :
    ∀ c ∈ behind.head?, ¬Quill.isDelimiter c = false := by
  intro c hc
  rcases h c hc with rfl | rfl | rfl <;> decide

/-- Behind an item there may stand others, each behind a separator. -/
theorem EndsList.tailChars {separator : Char} (hseparator : separator = ' ' ∨ separator = '\n')
    {behind : List Char} (h : EndsList behind) (items : List Sexp) :
    Ends (tailChars separator items ++ behind) := by
  cases items with
  | nil => exact fun c hc => .inr (.inr (h c hc))
  | cons item rest =>
    rintro c ⟨⟩
    exact hseparator.imp_right .inl

/-- The end of a list may stand behind its last item. -/
theorem endsList_close (behind : List Char) : EndsList (')' :: behind) := by
  rintro c ⟨⟩
  rfl

/-- An item does not start like what may stand behind one. -/
theorem Closed.exists_cons {item : Sexp} (h : item.Closed) :
    ∃ c cs, item.chars = c :: cs ∧ c ≠ ')' := by
  cases h with
  | @word text hsome h =>
    obtain ⟨c, cs, htext⟩ := List.exists_cons_of_ne_nil hsome
    refine ⟨c, cs, htext, ?_⟩
    rintro rfl
    exact absurd (h ')' (by rw [htext]; exact List.mem_cons_self)) (by decide)
  | quoted => exact ⟨'"', _, rfl, by decide⟩
  | @list items =>
    cases items with
    | nil => exact ⟨'(', _, rfl, by decide⟩
    | cons => exact ⟨'(', _, rfl, by decide⟩

/-- A word is not the start of an item in quotes or parentheses. -/
theorem Closed.word_ne {text : String} (h : Closed (.word text)) {c : Char}
    (hc : Quill.isDelimiter c = true) {behind behind' : List Char} :
    text.toList ++ behind ≠ c :: behind' := by
  cases h with
  | word hsome h =>
    obtain ⟨d, ds, htext⟩ := List.exists_cons_of_ne_nil hsome
    intro heq
    rw [htext] at heq
    have hd := h d (by rw [htext]; exact List.mem_cons_self)
    rw [(List.cons.inj heq).1, hc] at hd
    cases hd

/-! ## One reading -/

mutual

/-- An item up to a delimiter has one reading. -/
theorem chars_inj : (x y : Sexp) → x.Closed → y.Closed → ∀ {r s : List Char}, Ends r → Ends s →
    x.chars ++ r = y.chars ++ s → x = y ∧ r = s
  | word text, word text', .word _ h, .word _ h', r, s, hr, hs, heq => by
    obtain ⟨htext, hbehind⟩ := append_inj_of_boundary h h' hr.isDelimiter hs.isDelimiter heq
    exact ⟨congrArg word (String.toList_injective htext), hbehind⟩
  | word text, quoted contents, h, _, r, s, _, _, heq => absurd heq (h.word_ne (by decide))
  | word text, list [], h, _, r, s, _, _, heq => absurd heq (h.word_ne (by decide))
  | word text, list (_ :: _), h, _, r, s, _, _, heq => absurd heq (h.word_ne (by decide))
  | quoted contents, word text, _, h, r, s, _, _, heq => absurd heq.symm (h.word_ne (by decide))
  | list [], word text, _, h, r, s, _, _, heq => absurd heq.symm (h.word_ne (by decide))
  | list (_ :: _), word text, _, h, r, s, _, _, heq => absurd heq.symm (h.word_ne (by decide))
  | quoted contents, quoted contents', .quoted h, .quoted h', r, s, _, _, heq => by
    simp only [chars, List.cons_append, List.append_assoc, List.nil_append, List.cons.injEq,
      true_and] at heq
    obtain ⟨hcontents, hbehind⟩ := append_cons_inj_of_not_mem h h' heq
    exact ⟨congrArg quoted (String.toList_injective hcontents), hbehind⟩
  | quoted contents, list [], _, _, r, s, _, _, heq => absurd (List.cons.inj heq).1 (by decide)
  | quoted contents, list (_ :: _), _, _, r, s, _, _, heq =>
    absurd (List.cons.inj heq).1 (by decide)
  | list [], quoted contents, _, _, r, s, _, _, heq => absurd (List.cons.inj heq).1 (by decide)
  | list (_ :: _), quoted contents, _, _, r, s, _, _, heq =>
    absurd (List.cons.inj heq).1 (by decide)
  | list [], list [], _, _, r, s, _, _, heq => ⟨rfl, by simpa [chars] using heq⟩
  | list [], list (y :: ys), _, .list h', r, s, _, _, heq => by
    obtain ⟨c, cs, hy, hc⟩ := (h' y List.mem_cons_self).exists_cons
    simp [chars, hy] at heq
    exact absurd heq.1.symm hc
  | list (x :: xs), list [], .list h, _, r, s, _, _, heq => by
    obtain ⟨c, cs, hx, hc⟩ := (h x List.mem_cons_self).exists_cons
    simp [chars, hx] at heq
    exact absurd heq.1 hc
  | list (x :: xs), list (y :: ys), .list h, .list h', r, s, hr, hs, heq => by
    simp only [chars, List.cons_append, List.append_assoc, List.nil_append, List.cons.injEq,
      true_and] at heq
    obtain ⟨rfl, htail⟩ := chars_inj x y (h x List.mem_cons_self) (h' y List.mem_cons_self)
      ((endsList_close r).tailChars (.inl rfl) xs) ((endsList_close s).tailChars (.inl rfl) ys) heq
    obtain ⟨rfl, hbehind⟩ := tailChars_inj xs ys (fun item hitem => h item (.tail _ hitem))
      (fun item hitem => h' item (.tail _ hitem)) (.inl rfl) (endsList_close r) (endsList_close s)
      htail
    exact ⟨rfl, (List.cons.inj hbehind).2⟩

/-- Items up to the end of a list have one reading. -/
theorem tailChars_inj : (xs ys : List Sexp) → (∀ x ∈ xs, x.Closed) → (∀ y ∈ ys, y.Closed) →
    ∀ {separator : Char} {r s : List Char}, separator = ' ' ∨ separator = '\n' → EndsList r →
    EndsList s → tailChars separator xs ++ r = tailChars separator ys ++ s → xs = ys ∧ r = s
  | [], [], _, _, _, r, s, _, _, _, heq => ⟨rfl, heq⟩
  | [], y :: ys, _, _, separator, r, s, hseparator, hr, _, heq => by
    have hhead := hr separator (by rw [show r = _ from heq]; rfl)
    rcases hseparator with rfl | rfl <;> cases hhead
  | x :: xs, [], _, _, separator, r, s, hseparator, _, hs, heq => by
    have hhead := hs separator (by rw [show s = _ from heq.symm]; rfl)
    rcases hseparator with rfl | rfl <;> cases hhead
  | x :: xs, y :: ys, h, h', separator, r, s, hseparator, hr, hs, heq => by
    simp only [tailChars, List.cons_append, List.append_assoc, List.cons.injEq, true_and] at heq
    obtain ⟨rfl, htail⟩ := chars_inj x y (h x List.mem_cons_self) (h' y List.mem_cons_self)
      (hr.tailChars hseparator xs) (hs.tailChars hseparator ys) heq
    obtain ⟨rfl, hbehind⟩ := tailChars_inj xs ys (fun item hitem => h item (.tail _ hitem))
      (fun item hitem => h' item (.tail _ hitem)) hseparator hr hs htail
    exact ⟨rfl, hbehind⟩

end

/-- Text with separators between items has one reading. -/
theorem listChars_inj {xs ys : List Sexp} (h : ∀ x ∈ xs, x.Closed) (h' : ∀ y ∈ ys, y.Closed)
    {separator : Char} (hseparator : separator = ' ' ∨ separator = '\n')
    (heq : listChars separator xs = listChars separator ys) : xs = ys := by
  cases xs with
  | nil =>
    cases ys with
    | nil => rfl
    | cons y ys =>
      obtain ⟨c, cs, hy, -⟩ := (h' y List.mem_cons_self).exists_cons
      simp [listChars, hy] at heq
  | cons x xs =>
    cases ys with
    | nil =>
      obtain ⟨c, cs, hx, -⟩ := (h x List.mem_cons_self).exists_cons
      simp [listChars, hx] at heq
    | cons y ys =>
      have hend : EndsList [] := by simp [EndsList]
      obtain ⟨rfl, htail⟩ := chars_inj x y (h x List.mem_cons_self) (h' y List.mem_cons_self)
        (by simpa using hend.tailChars hseparator xs) (by simpa using hend.tailChars hseparator ys)
        heq
      have hrest := tailChars_inj xs ys (fun item hitem => h item (.tail _ hitem))
        (fun item hitem => h' item (.tail _ hitem)) hseparator hend hend
        (congrArg (· ++ []) htail)
      exact congrArg (x :: ·) hrest.1

end Sexp

end Quill

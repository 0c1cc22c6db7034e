import Quill.Token.Lexer

/-!
# The text of a token follows from its kind

Symbols, reserved words and text literals have one text each (`Kind.text?`), and a token that the
lexer gives out has just that text. A name has a text of its own, which is never that of a reserved
word; this is why no variable can be called like the receiver. The text of a number is not fixed by
its value, and stray characters have whatever text they have.

`wellSpelled_of_mem_tokenize` says this of all tokens of a source. It rests on the same fact about
the token that starts with a character, one case for each sort of token.
-/

namespace Quill

/-! ## Texts -/

/-- The text of a symbol. -/
def Symbol.text : Symbol → String
  | leftParen => "("
  | rightParen => ")"
  | leftBrace => "\x7b"
  | rightBrace => "\x7d"
  | comma => ","
  | dot => "."
  | semicolon => ";"
  | minus => "-"
  | plus => "+"
  | slash => "/"
  | star => "*"
  | bang => "!"
  | bangEqual => "!="
  | equal => "="
  | equalEqual => "=="
  | greater => ">"
  | greaterEqual => ">="
  | less => "<"
  | lessEqual => "<="

/-- The text of a kind, where all tokens of the kind have the same. -/
def Kind.text? : Kind → Option String
  | symbol s => some s.text
  | keyword k => some k.text
  | string contents => some ("\"" ++ contents ++ "\"")
  | _ => none

/-- The kind and the text of a token go together. -/
structure WellSpelled (kind : Kind) (lexeme : String) : Prop where
  text : ∀ text, kind.text? = some text → lexeme = text
  name : kind = .identifier → Keyword.ofText? lexeme = none

/-! ## One token -/

namespace Taken

/-- A symbol of one character has that character as its text. -/
theorem ofList_of_ofChar? {c : Char} {s : Symbol} (h : Symbol.ofChar? c = some s) :
    String.ofList [c] = s.text := by
  unfold Symbol.ofChar? at h
  split at h
  all_goals first
    | (cases h; rfl)
    | cases h

/-- A symbol with an equals sign has both characters as its text. -/
theorem ofList_of_withEqual? {c : Char} {s t : Symbol} (h : Symbol.ofChar? c = some s)
    (ht : s.withEqual? = some t) : String.ofList [c, '='] = t.text := by
  have hc : String.ofList [c, '='] = String.ofList [c] ++ "=" := by simp
  rw [hc, ofList_of_ofChar? h]
  cases s <;> cases ht <;> rfl

/-- The lexeme of a symbol is its text. -/
theorem wellSpelled_symbol {c : Char} {s : Symbol} (h : Symbol.ofChar? c = some s)
    (cs : List Char) :
    WellSpelled (symbol s c cs).kind (String.ofList (symbol s c cs).lexeme) := by
  unfold symbol
  split
  · next t rest ht =>
    refine ⟨fun text htext => ?_, nofun⟩
    cases htext
    exact ofList_of_withEqual? h ht
  · refine ⟨fun text htext => ?_, nofun⟩
    cases htext
    exact ofList_of_ofChar? h

/-- The lexeme of a text literal is its contents in quotes. -/
theorem wellSpelled_string (cs : List Char) :
    WellSpelled (string '"' cs).kind (String.ofList (string '"' cs).lexeme) := by
  unfold string
  dsimp only
  split
  · next close rest hclose =>
    refine ⟨fun text htext => ?_, nofun⟩
    cases htext
    have hquote : close = '"' := by
      have := List.head?_dropWhile_not (· != '"') cs
      simpa [hclose] using this
    rw [hquote]
    simp [String.append_assoc]
  · exact ⟨nofun, nofun⟩

/-- The lexeme of a number is digits that have its value. -/
theorem wellSpelled_number (cs : List Char) :
    WellSpelled (number cs).kind (String.ofList (number cs).lexeme) := by
  unfold number
  dsimp only
  split
  · split
    · exact ⟨nofun, nofun⟩
    · exact ⟨nofun, nofun⟩
  · exact ⟨nofun, nofun⟩

/-- The lexeme of a word is the reserved word, or the name. -/
theorem wellSpelled_word (cs : List Char) :
    WellSpelled (word cs).kind (String.ofList (word cs).lexeme) := by
  unfold word Kind.ofWord
  dsimp only
  split
  · next k hk =>
    refine ⟨fun text htext => ?_, nofun⟩
    cases htext
    have htext : k.text = String.ofList (cs.takeWhile isWordRest) := by
      simpa using List.find?_some hk
    exact htext.symm
  · next hk => exact ⟨nofun, fun _ => hk⟩

/-- The lexeme of every token goes with its kind. -/
theorem wellSpelled_ofChars (c : Char) (cs : List Char) :
    WellSpelled (ofChars c cs).kind (String.ofList (ofChars c cs).lexeme) := by
  unfold ofChars
  split
  · next s hs => exact wellSpelled_symbol hs cs
  · split
    · next hquote =>
      rw [hquote]
      exact wellSpelled_string cs
    · split
      · exact wellSpelled_number (c :: cs)
      · split
        · exact wellSpelled_word (c :: cs)
        · exact ⟨nofun, nofun⟩

end Taken

/-! ## All tokens -/

namespace Lexer

/-- The next token has a lexeme that goes with its kind. -/
theorem wellSpelled_of_next {l l' : Lexer} {t : Token} (h : l.next = some (t, l')) :
    WellSpelled t.kind t.lexeme := by
  unfold next at h
  split at h
  · cases h
  · dsimp only at h
    split at h
    · cases h
      exact ⟨nofun, nofun⟩
    · next c cs _ =>
      cases h
      exact Taken.wellSpelled_ofChars c cs

/-- The tokens of a lexer have lexemes that go with their kinds. -/
theorem wellSpelled_of_mem_tokensAtFuel {fuel : Nat} {l : Lexer} {t : Token}
    (h : t ∈ l.tokensAtFuel fuel) : WellSpelled t.kind t.lexeme := by
  induction fuel generalizing l with
  | zero => cases h
  | succ fuel ih =>
    unfold tokensAtFuel at h
    split at h
    · cases h
    · next u l' hnext =>
      rcases List.mem_cons.1 h with rfl | h
      · exact wellSpelled_of_next hnext
      · exact ih h

end Lexer

/-- The tokens of a source have lexemes that go with their kinds. -/
theorem wellSpelled_of_mem_tokenize {source : String} {t : Token} (h : t ∈ tokenize source) :
    WellSpelled t.kind t.lexeme :=
  Lexer.wellSpelled_of_mem_tokensAtFuel h

end Quill

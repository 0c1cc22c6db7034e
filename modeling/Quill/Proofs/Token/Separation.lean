import Quill.Proofs.Token.Decomposition

/-!
# Lexemes that are kept apart are read back

Lexemes of any kinds can be written one behind another, if there is a blank behind each of them but
the last. Behind that blank there may be more blanks, and comments that are ended by their line feed
(`Separator`). No lexeme goes on with a blank, and none of them starts inside of a separator, so the
tokens of such a text are its lexemes, each once and in their order (`tokenize_written`).

`Written` is the reverse of reading: it says which texts spell a list of lexemes. A text of this sort
is a decomposition (`Written.exists_lexical`), and decompositions are read as what they are
(`Decomposition.Lexical.map_tokenize`).
-/

namespace Quill

/-! ## Separators -/

/-- Blanks and comments, each comment with the line feed behind it. Unlike a gap, this does not
depend on what follows. -/
inductive ClosedGap : List Char → Prop
  | nil : ClosedGap []
  | blank {c : Char} {gap : List Char} (blank : isBlank c = true) (rest : ClosedGap gap) :
      ClosedGap (c :: gap)
  | comment {text gap : List Char} (line : '\n' ∉ text) (rest : ClosedGap gap) :
      ClosedGap ('/' :: '/' :: text ++ '\n' :: gap)

/-- What keeps two lexemes apart: a blank, and then blanks and comments that are ended. -/
structure Separator (gap : List Char) : Prop where
  blank : ∃ c ∈ gap.head?, isBlank c = true
  closed : ClosedGap gap

/-- Lexemes of given kinds and a text in which they stand one behind another, with a separator
between any two neighbours. -/
inductive Written : List (Kind × List Char) → List Char → Prop
  | nil : Written [] []
  | last {kind : Kind} {lexeme : List Char} (spelled : Spelled kind lexeme) :
      Written [(kind, lexeme)] lexeme
  | cons {kind : Kind} {lexeme gap text : List Char} {next : Kind × List Char}
      {rest : List (Kind × List Char)} (spelled : Spelled kind lexeme) (separator : Separator gap)
      (behind : Written (next :: rest) text) :
      Written ((kind, lexeme) :: next :: rest) (lexeme ++ (gap ++ text))

/-- Where all comments are ended there is a gap, whatever stands behind it. -/
theorem ClosedGap.gap {gap : List Char} (h : ClosedGap gap) (behind : List Char) :
    Gap gap behind := by
  induction h with
  | nil => exact .nil
  | blank hblank _ ih => exact .blank hblank ih
  | comment hline _ ih =>
    apply Gap.comment hline _ (.blank rfl ih)
    intro c hc
    exact (Option.some.inj hc).symm

/-- A blank does not go on with a word. -/
theorem not_isWordRest_of_isBlank {c : Char} (h : isBlank c = true) : isWordRest c = false := by
  rw [Bool.eq_false_iff]
  intro hrest
  rw [(not_blank_of_isWordRest hrest).1] at h
  cases h

/-- No lexeme goes on with a blank. -/
theorem maximal_of_blank {c : Char} (h : isBlank c = true) (kind : Kind)
    (lexeme behind : List Char) : Maximal kind lexeme (c :: behind) := by
  have hword := not_isWordRest_of_isBlank h
  have hdigit : isDigit c = false := by
    rw [Bool.eq_false_iff]
    intro hdigit
    rw [isWordRest_of_isDigit hdigit] at hword
    cases hword
  have hne : ∀ {d : Char}, isBlank d = false → c ≠ d := by
    rintro d hd rfl
    rw [h] at hd
    cases hd
  have hhead : ∀ {p : Char → Bool}, p c = false → ∀ d ∈ (c :: behind).head?, p d = false := by
    intro p hp d hd
    cases hd
    exact hp
  cases kind with
  | symbol s =>
    exact ⟨fun _ heq => hne rfl (Option.some.inj heq), fun _ heq => hne rfl (Option.some.inj heq)⟩
  | keyword k => exact hhead hword
  | identifier => exact hhead hword
  | number value =>
    refine ⟨hhead hdigit, fun _ d rest heq => ?_⟩
    exact absurd (List.cons.inj heq).1 (hne rfl)
  | _ => trivial

/-- A separator goes on with no lexeme. -/
theorem Separator.maximal {gap : List Char} (h : Separator gap) (kind : Kind)
    (lexeme behind : List Char) : Maximal kind lexeme (gap ++ behind) := by
  obtain ⟨c, hhead, hblank⟩ := h.blank
  obtain ⟨rest, rfl⟩ := List.head?_eq_some_iff.1 hhead
  exact maximal_of_blank hblank kind lexeme (rest ++ behind)

/-! ## Reading back -/

/-- A text that has been taken apart is read as the lexemes it has been taken apart into. -/
theorem Decomposition.Lexical.map_tokenize {d : Decomposition} (h : d.Lexical) :
    (tokenize (String.ofList d.source)).map (fun t => (t.kind, t.lexeme)) = d.tokens := by
  have hchars : (Lexer.ofSource (String.ofList d.source)).rest = d.source := String.toList_ofList
  have htokens := Lexer.tokensAtFuel_eq d.source.length (.ofSource (String.ofList d.source)) rfl
    (Nat.le_of_eq (congrArg List.length hchars))
  rw [hchars, h.ofCharsAtFuel_eq _ (Nat.le_refl _)] at htokens
  rw [← htokens, tokenize, Lexer.tokens, hchars]

/-- Behind any closed gap, lexemes that are kept apart are a decomposition of their text. The gap in
front stands for the separator behind the lexeme before. -/
theorem Written.exists_lexical {lexemes : List (Kind × List Char)} {text : List Char}
    (h : Written lexemes text) : ∀ {gap : List Char}, ClosedGap gap →
      ∃ d : Decomposition, d.Lexical ∧ d.source = gap ++ text
        ∧ d.pieces.map (fun p => (p.kind, p.lexeme)) = lexemes := by
  induction h with
  | nil =>
    intro gap hgap
    exact ⟨⟨[], gap, []⟩, .ending (hgap.gap []), by simp [Decomposition.source], rfl⟩
  | @last kind lexeme hspelled =>
    intro gap hgap
    refine ⟨.cons ⟨gap, kind, lexeme⟩ ⟨[], [], []⟩, ?_, ?_, rfl⟩
    · exact .cons (hgap.gap _) hspelled (maximal_nil kind lexeme) (.ending .nil)
    · rw [Decomposition.source_cons]
      simp [Decomposition.source]
  | @cons kind lexeme separator text next rest hspelled hseparator _ ih =>
    intro gap hgap
    obtain ⟨d, hlexical, hsource, hpieces⟩ := ih hseparator.closed
    refine ⟨.cons ⟨gap, kind, lexeme⟩ d, ?_, ?_, ?_⟩
    · refine .cons (hgap.gap _) hspelled ?_ hlexical
      rw [hsource]
      exact hseparator.maximal kind lexeme text
    · rw [Decomposition.source_cons, hsource]
    · exact congrArg ((kind, lexeme) :: ·) hpieces

/-- **Lexemes that are kept apart are read back.** The tokens of a text in which lexemes stand with
separators between them are these lexemes in order, each once, with its text and the kind that the
lexical rules give it, and then the end of the source. -/
theorem tokenize_written {lexemes : List (Kind × List Char)} {text : List Char}
    (h : Written lexemes text) :
    (tokenize (String.ofList text)).map (fun t => (t.kind, t.lexeme)) =
      lexemes.map (fun l => (l.1, String.ofList l.2)) ++ [(.eof, "")] := by
  obtain ⟨d, hlexical, hsource, hpieces⟩ := h.exists_lexical .nil
  rw [List.nil_append] at hsource
  rw [← hsource, hlexical.map_tokenize, ← hpieces, List.map_map]
  rfl

/-- A text with slashes, a line feed and a reserved word between its quotes, a character that is
zero, one of several bytes, and a comment with a quote in it. -/
theorem tokenize_written_hidden_marks :
    (tokenize "print \"//\nlet\" // \"\n\x00\té\r0.50").map (fun t => (t.kind, t.lexeme)) =
      [(.keyword .printWord, "print"), (.string "//\nlet", "\"//\nlet\""), (.unknown, "\x00"),
        (.unknown, "é"), (.number ⟨0x3fe0000000000000⟩, "0.50"), (.eof, "")] := by
  have hcomment : Separator " // \"\n".toList :=
    ⟨⟨' ', rfl, rfl⟩, .blank rfl (@ClosedGap.comment " \"".toList [] (by decide) .nil)⟩
  have hblank : ∀ c : Char, isBlank c = true → Separator [c] :=
    fun _ h => ⟨⟨_, rfl, h⟩, .blank h .nil⟩
  have hword : Spelled (.keyword .printWord) "print".toList := .keyword rfl
  have hstring := @Spelled.string "//\nlet".toList (by decide)
  have hdigits : (∀ d ∈ ['0'], isDigit d = true) ∧ ∀ d ∈ ['5', '0'], isDigit d = true := by
    simp [isDigit]
  have hnumber := @Spelled.fraction ['0'] ['5', '0'] (by simp) hdigits.1 (by simp) hdigits.2
  have hvalue : (Decimal.ofDigitChars (['0'] ++ ['5', '0']) ['5', '0'].length).toNumber =
      ⟨0x3fe0000000000000⟩ := by decide +kernel
  rw [hvalue] at hnumber
  have hwritten : Written _ "print \"//\nlet\" // \"\n\x00\té\r0.50".toList :=
    .cons hword (hblank ' ' rfl) (.cons hstring hcomment
      (.cons (@Spelled.stray '\x00' rfl) (hblank '\t' rfl)
        (.cons (@Spelled.stray 'é' rfl) (hblank '\r' rfl) (.last hnumber))))
  exact tokenize_written hwritten

end Quill

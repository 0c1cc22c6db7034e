import Quill.Proofs.Token.Concatenation

/-!
# The lines of tokens

The lexer keeps no count of lines beside its place in the source. What it has read is the front of
the source, and its place is the one behind that (`Lexer.Past`); a call of `Lexer.next` reads on up
to the end of a token's text (`Lexer.Past.next`), whatever calls there were before
(`Lexer.exists_past_skip`). So the line of a token is that of the end of its text, and counts every
line feed up to there once, in blanks, behind comments and within texts alike.
-/

namespace Quill

/-- Passing characters moves the offset by their bytes. -/
theorem Position.offset_advanceAll (p : Position) (cs : List Char) :
    (p.advanceAll cs).offset = p.offset + (String.ofList cs).utf8ByteSize := by
  induction cs generalizing p with
  | nil => rfl
  | cons c cs ih =>
    have hstep : p.advanceAll (c :: cs) = (p.advance c).advanceAll cs := rfl
    rw [hstep, ih, Position.advance, String.ofList_cons]
    simp [Nat.add_assoc]

namespace Lexer

/-- The lexer has read these characters of a source, and is at the place behind them. -/
structure Past (source read : List Char) (l : Lexer) : Prop where
  source_eq : source = read ++ l.rest
  position : l.position = Position.start.advanceAll read

/-- Nothing of a source has been read at first. -/
theorem past_ofSource (source : String) : (ofSource source).Past source.toList [] := ⟨rfl, rfl⟩

namespace Past

variable {source read : List Char} {l l' : Lexer} {t : Token}

/-- The line is one more than the line feeds that have been read. -/
theorem line (h : l.Past source read) : l.line = 1 + read.count '\n' := by
  rw [Lexer.line, h.position, Position.line_advanceAll]
  rfl

/-- The offset is the number of bytes that have been read. -/
theorem offset (h : l.Past source read) :
    l.position.offset = (String.ofList read).utf8ByteSize := by
  rw [h.position, Position.offset_advanceAll]
  exact Nat.zero_add _

/-- The lexer reads on up to the end of the token, which is then on its line. A token without a text
is the last one: the end of the source, or a text that is not closed. -/
theorem next (h : l.Past source read) (hnext : l.next = some (t, l')) :
    (∃ more, t.lexeme.toList <:+ more ∧ l'.Past source (read ++ more))
      ∧ t.line = l'.line ∧ (t.isEof = true ∨ t.lexeme = "" → l'.rest = []) := by
  have hnew : l.finished = false := by
    rw [Bool.eq_false_iff]
    intro hfinished
    rw [Lexer.next, if_pos hfinished] at hnext
    cases hnext
  have happend := splitGap_append false l.rest
  have hstarts := startsPiece_splitGap false l.rest
  rw [next_eq hnew] at hnext
  generalize (splitGap false l.rest).1 = gap at *
  generalize (splitGap false l.rest).2 = behind at *
  cases behind with
  | nil =>
    cases hnext
    refine ⟨⟨gap, List.nil_suffix, ?_, ?_⟩, rfl, fun _ => rfl⟩
    · rw [h.source_eq, ← happend, List.append_assoc]
    · rw [h.position, Position.advanceAll_append]
  | cons c rest =>
    have hsource := Taken.source_ofChars c rest
    have hfits := Taken.fits_ofChars hstarts
    cases hnext
    generalize Taken.ofChars c rest = taken at *
    refine ⟨⟨gap ++ taken.dropped ++ taken.lexeme, ?_, ?_, ?_⟩, rfl, ?_⟩
    · rw [String.toList_ofList]
      exact List.suffix_append _ _
    · rw [h.source_eq, ← happend, ← hsource, Taken.source]
      simp only [List.append_assoc]
    · rw [h.position]
      simp only [Position.advanceAll_append]
    · intro htextless
      rcases hfits with ⟨-, hspelled, -⟩ | ⟨-, -, hopen⟩
      · have hpos := hspelled.length_pos
        rcases htextless with hend | hempty
        · have hkind : taken.kind = .eof := by simpa [Token.isEof] using hend
          rw [hkind] at hspelled
          cases hspelled
        · rw [String.ofList_eq_empty_iff.1 hempty] at hpos
          cases hpos
      · rw [hopen]

end Past

/-- Wherever a number of calls leads, the lexer is behind the front of the source. -/
theorem exists_past_skip (n : Nat) {source read : List Char} {l : Lexer} (h : l.Past source read) :
    ∃ read, (l.skip n).Past source read := by
  induction n generalizing l read with
  | zero => exact ⟨read, h⟩
  | succ n ih =>
    rw [skip]
    cases hnext : l.next with
    | none => exact ⟨read, h⟩
    | some found =>
      obtain ⟨⟨more, -, hmore⟩, -, -⟩ := h.next hnext
      exact ih hmore

end Lexer

/-- A token of a source is on the line of the end of its text. -/
theorem exists_line_of_mem_tokensAtFuel {fuel : Nat} {source read : List Char} {l : Lexer}
    (h : l.Past source read) {t : Token} (ht : t ∈ l.tokensAtFuel fuel) :
    ∃ upTo rest, source = upTo ++ rest ∧ t.line = 1 + upTo.count '\n' := by
  induction fuel generalizing l read with
  | zero => cases ht
  | succ fuel ih =>
    rw [Lexer.tokensAtFuel] at ht
    split at ht
    · cases ht
    · next u l' hnext =>
      obtain ⟨⟨more, -, hpast⟩, hline, -⟩ := h.next hnext
      rcases List.mem_cons.1 ht with rfl | ht
      · exact ⟨_, _, hpast.source_eq, hline.trans hpast.line⟩
      · exact ih hpast ht

/-- In a source of one line all tokens are on that line. -/
theorem tokenize_of_oneLine {source : String} (h : '\n' ∉ source.toList) :
    tokenize source =
      ((tokenize source).map fun t => (t.kind, t.lexeme)).map fun t => ⟨t.1, t.2, 1⟩ := by
  have hlines : ∀ t ∈ tokenize source, t.line = 1 := by
    intro t ht
    obtain ⟨upTo, rest, hsource, hline⟩ :=
      exists_line_of_mem_tokensAtFuel (Lexer.past_ofSource source) ht
    have hnone : '\n' ∉ upTo := fun hmem => h (hsource ▸ List.mem_append_left rest hmem)
    rw [hline, List.count_eq_zero_of_not_mem hnone]
  rw [List.map_map]
  refine ((List.map_congr_left fun t ht => ?_).trans (List.map_id _)).symm
  exact congrArg (Token.mk t.kind t.lexeme) (hlines t ht).symm

end Quill

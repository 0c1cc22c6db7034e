import Quill.Proofs.Token.Spelled

/-!
# Sources are made of gaps and lexemes

A source is taken apart into gaps and lexemes in exactly one way, if every lexeme follows the
lexical rules and is as long as they allow. The lexer takes it apart in this way.

* `Gap` is a sequence of blanks and comments. A comment runs to the end of its line.
* `Decomposition.Lexical` puts gaps and maximal lexemes together. A text without its closing quote
  has no lexeme; it is the tail of the source.
* `Decomposition.ofCharsAtFuel` splits off gaps and tokens as the lexer does, and is the only
  decomposition of a text (`Lexical.ofCharsAtFuel_eq`).

`tokenize_decomposition` says that the tokens of a source are those of its only decomposition.
-/

namespace Quill

/-! ## Gaps -/

/-- Blanks and comments in front of something. A comment has no line feed in it, and a line feed or
the end of the source is behind it. -/
inductive Gap : (gap behind : List Char) → Prop
  | nil {behind : List Char} : Gap [] behind
  | blank {c : Char} {gap behind : List Char} (blank : isBlank c = true) (rest : Gap gap behind) :
      Gap (c :: gap) behind
  | comment {text gap behind : List Char} (line : '\n' ∉ text)
      (ends : ∀ c ∈ (gap ++ behind).head?, c = '\n') (rest : Gap gap behind) :
      Gap ('/' :: '/' :: text ++ gap) behind

/-- A comment that is open ends in front of a line feed. -/
theorem splitGap_true_append {text behind : List Char} (hline : '\n' ∉ text)
    (hends : ∀ c ∈ behind.head?, c = '\n') :
    splitGap true (text ++ behind) =
      (text ++ (splitGap false behind).1, (splitGap false behind).2) := by
  induction text with
  | nil =>
    cases behind with
    | nil => rfl
    | cons c cs =>
      obtain rfl : c = '\n' := hends c rfl
      rfl
  | cons c cs ih =>
    rw [List.mem_cons, not_or] at hline
    have hopen : (c != '\n') = true := by simpa using Ne.symm hline.1
    rw [List.cons_append, splitGap, if_pos rfl, hopen, ih hline.2]
    rfl

/-- A gap is split off, with what there is of a gap behind it. -/
theorem Gap.splitGap_append {gap behind : List Char} (h : Gap gap behind) :
    splitGap false (gap ++ behind) =
      (gap ++ (splitGap false behind).1, (splitGap false behind).2) := by
  induction h with
  | nil => rfl
  | blank hblank _ ih =>
    rw [List.cons_append, splitGap, if_neg (by simp), if_pos hblank, ih]
    rfl
  | @comment text gap behind hline hends _ ih =>
    have hopen : splitGap true ('/' :: text ++ (gap ++ behind)) =
        ('/' :: text ++ (splitGap false (gap ++ behind)).1,
          (splitGap false (gap ++ behind)).2) :=
      splitGap_true_append (by simpa using hline) hends
    have hfirst : splitGap false ('/' :: ('/' :: text ++ (gap ++ behind))) =
        ('/' :: (splitGap true ('/' :: text ++ (gap ++ behind))).1,
          (splitGap true ('/' :: text ++ (gap ++ behind))).2) := rfl
    rw [ih] at hopen
    rw [List.append_assoc, List.cons_append, hfirst, hopen]
    simp [List.append_assoc]

/-- No gap is split off from what starts a piece. -/
theorem StartsPiece.splitGap_eq {cs : List Char} (h : StartsPiece cs) :
    splitGap false cs = ([], cs) := by
  cases cs with
  | nil => rfl
  | cons c rest =>
    obtain ⟨hblank, hslash⟩ := h c rest rfl
    rw [splitGap, if_neg (by simp), if_neg (by simp [hblank]), if_neg (by simpa using hslash)]

/-- A gap is split off whole in front of what starts a piece. -/
theorem Gap.splitGap_eq {gap behind : List Char} (h : Gap gap behind) (hnext : StartsPiece behind) :
    splitGap false (gap ++ behind) = (gap, behind) := by
  rw [h.splitGap_append, hnext.splitGap_eq, List.append_nil]

/-- The rest of a comment that is open, and then a gap. -/
def OpenGap (gap behind : List Char) : Prop :=
  ∃ text after, gap = text ++ after ∧ '\n' ∉ text ∧ (∀ c ∈ (after ++ behind).head?, c = '\n')
    ∧ Gap after behind

/-- Two slashes open a comment. -/
theorem OpenGap.gap {gap behind : List Char} (h : OpenGap ('/' :: gap) behind) :
    Gap ('/' :: '/' :: gap) behind := by
  obtain ⟨text, after, hgap, hline, hends, hafter⟩ := h
  cases text with
  | nil =>
    rw [List.nil_append] at hgap
    subst hgap
    cases hends '/' rfl
  | cons c text =>
    obtain ⟨rfl, rfl⟩ := List.cons.inj hgap
    exact .comment (fun hmem => hline (List.mem_cons_of_mem _ hmem)) hends hafter

/-- What is split off as a gap is one. -/
theorem gap_splitGap (cs : List Char) :
    Gap (splitGap false cs).1 (splitGap false cs).2
      ∧ OpenGap (splitGap true cs).1 (splitGap true cs).2 := by
  induction cs with
  | nil => exact ⟨.nil, [], [], rfl, nofun, nofun, .nil⟩
  | cons c cs ih =>
    obtain ⟨hgap, hopen⟩ := ih
    constructor
    · rw [splitGap, if_neg (by simp)]
      split
      · next hblank => exact .blank hblank hgap
      · split
        · next hslash =>
          rw [Bool.and_eq_true, beq_iff_eq, beq_iff_eq] at hslash
          obtain ⟨rfl, hhead⟩ := hslash
          obtain ⟨rest, rfl⟩ := List.head?_eq_some_iff.1 hhead
          exact hopen.gap
        · exact .nil
    · rw [splitGap, if_pos rfl]
      by_cases hline : c = '\n'
      · subst hline
        refine ⟨[], _, rfl, nofun, fun d hd => ?_, .blank rfl hgap⟩
        exact (Option.some.inj hd).symm
      · have hstill : (c != '\n') = true := by simpa using hline
        obtain ⟨text, after, htext, hfree, hends, hafter⟩ := hopen
        rw [hstill]
        refine ⟨c :: text, after, ?_, ?_, hends, hafter⟩
        · show c :: (splitGap true cs).1 = _
          rw [htext, List.cons_append]
        · rw [List.mem_cons, not_or]
          exact ⟨Ne.symm hline, hfree⟩

/-- Behind a gap that is split off there is nothing that goes on with it. -/
theorem startsPiece_splitGap (inComment : Bool) (cs : List Char) :
    StartsPiece (splitGap inComment cs).2 := by
  induction cs generalizing inComment with
  | nil => exact nofun
  | cons c cs ih =>
    rw [splitGap]
    split
    · exact ih _
    · split
      · exact ih _
      · next hblank =>
        split
        · exact ih _
        · next hslash =>
          intro d rest heq
          obtain ⟨rfl, rfl⟩ := List.cons.inj heq
          refine ⟨by simpa using hblank, fun hd hrest => hslash ?_⟩
          rw [hd, hrest]
          rfl

/-! ## Decompositions -/

/-- A lexeme with its kind and the gap in front of it. -/
structure Piece where
  /-- The gap. -/
  gap : List Char
  /-- The kind of the lexeme. -/
  kind : Kind
  /-- The lexeme. -/
  lexeme : List Char

/-- A source that has been taken apart. -/
structure Decomposition where
  /-- The lexemes, each behind its gap. -/
  pieces : List Piece
  /-- The gap behind the last lexeme. -/
  gap : List Char
  /-- A text without its closing quote. -/
  tail : List Char

namespace Decomposition

/-- All the characters in order. -/
def source (d : Decomposition) : List Char :=
  d.pieces.flatMap (fun p => p.gap ++ p.lexeme) ++ d.gap ++ d.tail

/-- The decomposition with one more piece in front. -/
def cons (p : Piece) (d : Decomposition) : Decomposition :=
  { d with pieces := p :: d.pieces }

@[simp] theorem source_cons (p : Piece) (d : Decomposition) :
    (cons p d).source = p.gap ++ (p.lexeme ++ d.source) := by
  simp [cons, source, List.append_assoc]

/-- The kinds and texts of the tokens, the end of the source included. -/
def tokens (d : Decomposition) : List (Kind × String) :=
  d.pieces.map (fun p => (p.kind, String.ofList p.lexeme)) ++ [(.eof, "")]

/-- Every lexeme has the kind that the lexical rules give it and is maximal, and everything between
lexemes is a gap. There is a tail only behind the token for an unclosed text, the last one. That
token has no text of its own: the tail stands directly in its place and is the unclosed text, one
quote and no other. -/
inductive Lexical : Decomposition → Prop
  | ending {gap : List Char} (blank : Gap gap []) : Lexical ⟨[], gap, []⟩
  | unclosed {gap cs : List Char} (blank : Gap gap ('"' :: cs)) (unclosed : '"' ∉ cs) :
      Lexical ⟨[⟨gap, .unknown, []⟩], [], '"' :: cs⟩
  | cons {p : Piece} {d : Decomposition} (blank : Gap p.gap (p.lexeme ++ d.source))
      (spelled : Spelled p.kind p.lexeme) (maximal : Maximal p.kind p.lexeme d.source)
      (rest : Lexical d) : Lexical (cons p d)

end Decomposition

/-! ## All tokens -/

namespace Decomposition

/-- A text taken apart: gaps and tokens are split off, at most `fuel` of them. -/
def ofCharsAtFuel : (fuel : Nat) → List Char → Decomposition
  | 0, _ => ⟨[], [], []⟩
  | fuel + 1, cs =>
    match Taken.first? (splitGap false cs).2 with
    | none => ⟨[], (splitGap false cs).1, []⟩
    | some t =>
      if t.lexeme = [] then ⟨[⟨(splitGap false cs).1, t.kind, []⟩], [], t.dropped⟩
      else cons ⟨(splitGap false cs).1, t.kind, t.lexeme⟩ (ofCharsAtFuel fuel t.rest)

section

variable {fuel : Nat} {gap behind : List Char}

/-- A gap alone is taken apart into nothing else. -/
theorem ofCharsAtFuel_ending (h : Gap gap []) : ofCharsAtFuel (fuel + 1) gap = ⟨[], gap, []⟩ := by
  have hsplit := h.splitGap_eq nofun
  rw [List.append_nil] at hsplit
  rw [ofCharsAtFuel, hsplit]
  rfl

/-- A gap and a token behind it are taken apart into a piece and the rest. -/
theorem ofCharsAtFuel_of_first? (h : Gap gap behind) (hnext : StartsPiece behind) {t : Taken}
    (ht : Taken.first? behind = some t) :
    ofCharsAtFuel (fuel + 1) (gap ++ behind) =
      if t.lexeme = [] then ⟨[⟨gap, t.kind, []⟩], [], t.dropped⟩
      else cons ⟨gap, t.kind, t.lexeme⟩ (ofCharsAtFuel fuel t.rest) := by
  rw [ofCharsAtFuel, h.splitGap_eq hnext]
  dsimp only
  rw [ht]

end

/-- There is one decomposition at most: the one that comes from splitting off gaps and tokens. -/
theorem Lexical.ofCharsAtFuel_eq {d : Decomposition} (h : d.Lexical) :
    ∀ fuel, d.source.length ≤ fuel → ofCharsAtFuel (fuel + 1) d.source = d := by
  induction h with
  | @ending gap hgap =>
    intro fuel _
    simpa [source] using ofCharsAtFuel_ending hgap
  | @unclosed gap cs hgap hopen =>
    intro fuel _
    have hnext : StartsPiece ('"' :: cs) := by
      intro c rest heq
      obtain ⟨rfl, rfl⟩ := List.cons.inj heq
      exact ⟨rfl, nofun⟩
    have hfirst := Taken.first?_unclosed hopen
    simpa [source] using ofCharsAtFuel_of_first? hgap hnext hfirst
  | @cons p d hgap hspelled hmax _ ih =>
    intro fuel hfuel
    have hfirst := Taken.first?_of_spelled hspelled hmax
    have hlen := hspelled.length_pos
    rw [source_cons] at hfuel ⊢
    rw [ofCharsAtFuel_of_first? hgap (hspelled.startsPiece hmax) hfirst]
    dsimp only
    simp only [List.length_append] at hfuel
    obtain ⟨fuel, rfl⟩ : ∃ n, fuel = n + 1 := ⟨fuel - 1, by omega⟩
    rw [if_neg (List.ne_nil_of_length_pos hlen), ih fuel (by omega)]

/-- Splitting off gaps and tokens leaves a decomposition of the whole text. -/
theorem lexical_ofCharsAtFuel (fuel : Nat) (cs : List Char) (hfuel : cs.length ≤ fuel) :
    (ofCharsAtFuel (fuel + 1) cs).Lexical ∧ (ofCharsAtFuel (fuel + 1) cs).source = cs := by
  have happend := splitGap_append false cs
  obtain ⟨hgap, -⟩ := gap_splitGap cs
  have hnext := startsPiece_splitGap false cs
  rw [ofCharsAtFuel]
  generalize (splitGap false cs).1 = gap at *
  generalize (splitGap false cs).2 = behind at *
  subst happend
  cases behind with
  | nil => exact ⟨.ending hgap, by simp [source, Taken.first?]⟩
  | cons c rest =>
    show Lexical (if (Taken.ofChars c rest).lexeme = [] then _ else _)
      ∧ source (if (Taken.ofChars c rest).lexeme = [] then _ else _) = _
    rcases Taken.fits_ofChars hnext with ⟨hdropped, hspelled, hmax⟩ | ⟨rfl, hopen, htaken⟩
    · have hsource := Taken.source_ofChars c rest
      generalize Taken.ofChars c rest = t at *
      rw [Taken.source, hdropped, List.nil_append] at hsource
      have hlen := hspelled.length_pos
      rw [← hsource] at hfuel hgap ⊢
      simp only [List.length_append] at hfuel
      obtain ⟨fuel, rfl⟩ : ∃ n, fuel = n + 1 := ⟨fuel - 1, by omega⟩
      obtain ⟨hrest, heq⟩ := lexical_ofCharsAtFuel fuel t.rest (by omega)
      rw [if_neg (List.ne_nil_of_length_pos hlen)]
      refine ⟨.cons ?_ hspelled ?_ hrest, ?_⟩
      · rw [heq]
        exact hgap
      · rw [heq]
        exact hmax
      · rw [source_cons, heq]
    · rw [htaken]
      exact ⟨.unclosed hgap hopen, by simp [source]⟩

end Decomposition

namespace Lexer

/-- What the lexer gives out next, by the gap and the token in front of it. -/
theorem next_eq {l : Lexer} (h : l.finished = false) :
    l.next =
      match Taken.first? (splitGap false l.rest).2 with
      | none =>
        let behind := l.position.advanceAll (splitGap false l.rest).1
        some (⟨.eof, "", behind.line⟩, ⟨[], behind, behind.offset, true⟩)
      | some t =>
        let before := (l.position.advanceAll (splitGap false l.rest).1).advanceAll t.dropped
        let behind := before.advanceAll t.lexeme
        some (⟨t.kind, String.ofList t.lexeme, behind.line⟩,
          ⟨t.rest, behind, before.offset, false⟩) := by
  rw [next, if_neg (by simp [h])]
  dsimp only
  cases (splitGap false l.rest).2 with
  | nil => rfl
  | cons c cs => rfl

/-- A lexer that has finished yields no more tokens. -/
theorem tokensAtFuel_finished {l : Lexer} (h : l.finished = true) (fuel : Nat) :
    l.tokensAtFuel fuel = [] := by
  cases fuel with
  | zero => rfl
  | succ fuel => rw [tokensAtFuel, next, if_pos h]

/-- The tokens are those of the decomposition, and the end of the source. -/
theorem tokensAtFuel_eq (fuel : Nat) (l : Lexer) (hnew : l.finished = false)
    (hfuel : l.rest.length ≤ fuel) :
    (l.tokensAtFuel (fuel + 1)).map (fun t => (t.kind, t.lexeme)) =
      (Decomposition.ofCharsAtFuel (fuel + 1) l.rest).tokens := by
  have happend := splitGap_append false l.rest
  have hnext := startsPiece_splitGap false l.rest
  rw [tokensAtFuel, next_eq hnew, Decomposition.ofCharsAtFuel]
  generalize (splitGap false l.rest).1 = gap at *
  generalize (splitGap false l.rest).2 = behind at *
  rw [← happend, List.length_append] at hfuel
  cases behind with
  | nil =>
    simp [Taken.first?, tokensAtFuel_finished, Decomposition.tokens]
  | cons c rest =>
    obtain ⟨fuel, rfl⟩ : ∃ n, fuel = n + 1 := ⟨fuel - 1, by simp at hfuel; omega⟩
    have hsource := Taken.source_ofChars c rest
    dsimp only [Taken.first?]
    rcases Taken.fits_ofChars hnext with ⟨hdropped, hspelled, -⟩ | ⟨rfl, -, htaken⟩
    · generalize Taken.ofChars c rest = t at *
      have hlen := hspelled.length_pos
      rw [Taken.source, hdropped, List.nil_append] at hsource
      rw [← hsource, List.length_append] at hfuel
      rw [if_neg (List.ne_nil_of_length_pos hlen), List.map_cons,
        tokensAtFuel_eq fuel _ rfl (by dsimp only; omega)]
      rfl
    · rw [htaken, List.map_cons, tokensAtFuel_eq fuel _ rfl (Nat.zero_le _)]
      rfl

/-- Every token but the end takes at least one character. -/
theorem length_rest_of_next {l l' : Lexer} {t : Token} (h : l.next = some (t, l')) :
    l'.finished = true ∨ l'.rest.length < l.rest.length := by
  cases hnew : l.finished with
  | true =>
    rw [next, if_pos hnew] at h
    cases h
  | false =>
    have happend := splitGap_append false l.rest
    have hnext := startsPiece_splitGap false l.rest
    rw [next_eq hnew] at h
    generalize (splitGap false l.rest).1 = gap at *
    generalize (splitGap false l.rest).2 = behind at *
    rw [← happend, List.length_append]
    cases behind with
    | nil =>
      cases h
      exact .inl rfl
    | cons c rest =>
      cases h
      refine .inr ?_
      have hsource := Taken.source_ofChars c rest
      rcases Taken.fits_ofChars hnext with ⟨-, hspelled, -⟩ | ⟨rfl, -, htaken⟩
      · have hpos := hspelled.length_pos
        rw [← hsource, Taken.source, List.length_append, List.length_append]
        dsimp only
        omega
      · rw [htaken]
        exact Nat.lt_of_lt_of_le (Nat.succ_pos _) (Nat.le_add_left _ _)

/-- Behind the last of its tokens a lexer gives out nothing. -/
theorem next_skip_tokensAtFuel {fuel : Nat} {l : Lexer}
    (hfuel : l.finished = true ∨ l.rest.length < fuel) :
    (l.skip (l.tokensAtFuel fuel).length).next = none := by
  induction fuel generalizing l with
  | zero =>
    obtain hfinished | hlen := hfuel
    · show l.next = none
      rw [next, if_pos hfinished]
    · exact absurd hlen (Nat.not_lt_zero _)
  | succ fuel ih =>
    rw [tokensAtFuel]
    cases hnext : l.next with
    | none => exact hnext
    | some found =>
      obtain ⟨t, l'⟩ := found
      rw [List.length_cons, skip, hnext]
      refine ih ?_
      obtain hfinished | hlen := hfuel
      · rw [next, if_pos hfinished] at hnext
        cases hnext
      · obtain hfinished | hshort := length_rest_of_next hnext
        · exact .inl hfinished
        · exact .inr (by omega)

end Lexer

/-- **The tokens of a source take it apart in the only way there is.** There is a decomposition of
the source into gaps and maximal lexemes, perhaps with an unclosed text as its tail. Its kinds and
texts are those of the tokens in order, the end of the source behind them; there is no other one;
and the kind of a lexeme, with its value, follows from the lexeme alone. -/
theorem tokenize_decomposition (source : String) :
    (∃ d : Decomposition, d.Lexical ∧ d.source = source.toList
      ∧ (tokenize source).map (fun t => (t.kind, t.lexeme)) = d.tokens
      ∧ ∀ other : Decomposition, other.Lexical → other.source = source.toList → other = d)
    ∧ ∀ kind kind' lexeme, Spelled kind lexeme → Spelled kind' lexeme → kind = kind' := by
  refine ⟨⟨.ofCharsAtFuel (source.toList.length + 1) source.toList, ?_⟩,
    fun _ _ _ h h' => h.unique h'⟩
  obtain ⟨hlexical, hsource⟩ :=
    Decomposition.lexical_ofCharsAtFuel source.toList.length source.toList (Nat.le_refl _)
  have htokens := Lexer.tokensAtFuel_eq source.toList.length (.ofSource source) rfl (Nat.le_refl _)
  refine ⟨hlexical, hsource, htokens, fun other hother heq => ?_⟩
  have hread := hother.ofCharsAtFuel_eq source.toList.length (Nat.le_of_eq (by rw [heq]))
  rw [heq] at hread
  exact hread.symm

end Quill

import Quill.Proofs.Lines.Relabelling
import Quill.Proofs.Token.Decomposition

/-!
# Tokens of one text behind another

Where no token of a text is unknown, so that none of its texts is left open, a line feed ends it: the
last lexeme does not go on behind the line feed, and a comment that is open stops there. So the
tokens of this text with a line feed and another text behind it are the tokens of the first text
without its end, and then those of the other on the lines further down (`tokenize_append`).

Tokens depend on the characters that are left and on the line, and on nothing else that a lexer
knows (`Lexer.tokensAtFuel_below`). `tokensFrom` is the tokens of characters from a line on.
-/

namespace Quill

/-! ## Before a line feed -/

/-- A gap is one in front of a longer text too, unless nothing was behind it. -/
theorem Gap.append {gap behind : List Char} (h : Gap gap behind) (hne : behind ≠ [])
    (more : List Char) : Gap gap (behind ++ more) := by
  induction h with
  | nil => exact .nil
  | blank hblank _ ih => exact .blank hblank (ih hne)
  | @comment text gap behind hline hends _ ih =>
    apply Gap.comment hline _ (ih hne)
    intro c hc
    have hsome : gap ++ behind ≠ [] := List.append_ne_nil_of_right_ne_nil gap hne
    obtain ⟨d, rest, hcons⟩ := List.exists_cons_of_ne_nil hsome
    rw [hcons] at hends
    rw [← List.append_assoc, hcons] at hc
    exact hends c hc

/-- A gap at the end of a text goes on behind a line feed. -/
theorem Gap.append_lineFeed {gap more behind : List Char} (h : Gap gap []) (h' : Gap more behind) :
    Gap (gap ++ '\n' :: more) behind := by
  generalize hend : ([] : List Char) = last at h
  induction h with
  | nil => exact .blank rfl h'
  | blank hblank _ ih => exact .blank hblank (ih hend)
  | @comment text gap last hline hends _ ih =>
    subst hend
    rw [List.append_assoc]
    apply Gap.comment hline _ (ih rfl)
    intro c hc
    cases gap with
    | nil => exact (Option.some.inj hc).symm
    | cons d gap => exact hends c hc

/-- No lexeme goes on with a line feed. -/
theorem Maximal.append_lineFeed {kind : Kind} {lexeme behind : List Char}
    (h : Maximal kind lexeme behind) (more : List Char) :
    Maximal kind lexeme (behind ++ '\n' :: more) := by
  have hhead : ∀ {p : Char → Bool}, p '\n' = false → (∀ c ∈ behind.head?, p c = false) →
      ∀ c ∈ (behind ++ '\n' :: more).head?, p c = false := by
    intro p hfeed hp c hc
    cases behind with
    | nil =>
      cases hc
      exact hfeed
    | cons d rest => exact hp c hc
  cases kind with
  | symbol s =>
    obtain ⟨hequal, hslash⟩ := h
    have hsame : ∀ {c : Char}, c ≠ '\n' → behind.head? ≠ some c →
        (behind ++ '\n' :: more).head? ≠ some c := by
      intro c hc hne heq
      cases behind with
      | nil => exact hc (Option.some.inj heq).symm
      | cons d rest => exact hne heq
    exact ⟨fun hs => hsame (by decide) (hequal hs), fun hs => hsame (by decide) (hslash hs)⟩
  | keyword k => exact hhead rfl h
  | identifier => exact hhead rfl h
  | number value =>
    obtain ⟨hdigit, hpoint⟩ := h
    refine ⟨hhead rfl hdigit, ?_⟩
    intro hwhole d rest heq
    cases behind with
    | nil => cases heq
    | cons c behind =>
      obtain ⟨rfl, hrest⟩ := List.cons.inj heq
      cases behind with
      | nil =>
        cases hrest
        rfl
      | cons d' behind =>
        obtain ⟨rfl, -⟩ := List.cons.inj hrest
        exact hpoint hwhole d' behind rfl
  | _ => trivial

/-! ## Tokens by characters and line -/

/-- Passing characters moves the line by the line feeds among them. -/
theorem Position.line_advanceAll (p : Position) (cs : List Char) :
    (p.advanceAll cs).line = p.line + cs.count '\n' := by
  induction cs generalizing p with
  | nil => rfl
  | cons c cs ih =>
    have hstep : p.advanceAll (c :: cs) = (p.advance c).advanceAll cs := rfl
    rw [hstep, ih, List.count_cons, Position.advance]
    by_cases hc : c = '\n'
    · simp only [hc, if_true, beq_self_eq_true]
      omega
    · simp [hc]

namespace Lexer

/-- The second lexer has the same characters left, so many lines further down. -/
structure Below (k : Nat) (l l' : Lexer) : Prop where
  rest : l'.rest = l.rest
  line : l'.line = l.line + k
  finished : l'.finished = l.finished

namespace Below

variable {k : Nat} {l l' : Lexer}

/-- A lexer that is some lines below another stays so. -/
theorem line_advanceAll (h : l.Below k l') (cs : List Char) :
    (l'.position.advanceAll cs).line = (l.position.advanceAll cs).line + k := by
  have hline : l'.position.line = l.position.line + k := h.line
  rw [Position.line_advanceAll, Position.line_advanceAll, hline]
  omega

/-- Both give out the same token, so many lines further down. -/
theorem next (h : l.Below k l') :
    (l.next = none ∧ l'.next = none) ∨ ∃ t after after', l.next = some (t, after) ∧
      l'.next = some (t.mapLine (· + k), after') ∧ after.Below k after' := by
  cases hnew : l.finished with
  | true =>
    refine .inl ⟨?_, ?_⟩
    · rw [Lexer.next, if_pos hnew]
    · rw [Lexer.next, if_pos (h.finished.trans hnew)]
  | false =>
    have hnext := next_eq hnew
    have hnext' := next_eq (h.finished.trans hnew)
    rw [h.rest] at hnext'
    cases hfirst : Taken.first? (splitGap false l.rest).2 with
    | none =>
      rw [hfirst] at hnext hnext'
      dsimp only at hnext hnext'
      rw [h.line_advanceAll] at hnext'
      exact .inr ⟨_, _, _, hnext, hnext', rfl, h.line_advanceAll _, rfl⟩
    | some taken =>
      rw [hfirst] at hnext hnext'
      dsimp only at hnext hnext'
      simp only [← Position.advanceAll_append] at hnext hnext'
      rw [h.line_advanceAll] at hnext'
      exact .inr ⟨_, _, _, hnext, hnext', rfl, h.line_advanceAll _, rfl⟩

end Below

/-- Tokens depend on the characters that are left and on the line, and follow the line; more fuel
than there are characters makes no difference. -/
theorem tokensAtFuel_below {k fuel fuel' : Nat} {l l' : Lexer} (h : l.Below k l')
    (hfuel : l.finished = true ∨ l.rest.length < fuel)
    (hfuel' : l.finished = true ∨ l.rest.length < fuel') :
    l'.tokensAtFuel fuel' = (l.tokensAtFuel fuel).map (Token.mapLine (· + k)) := by
  induction fuel generalizing fuel' l l' with
  | zero =>
    rcases hfuel with hend | hlen
    · rw [tokensAtFuel_finished hend, tokensAtFuel_finished (h.finished.trans hend), List.map_nil]
    · exact absurd hlen (Nat.not_lt_zero _)
  | succ fuel ih =>
    cases fuel' with
    | zero =>
      rcases hfuel' with hend | hlen
      · rw [tokensAtFuel_finished hend, tokensAtFuel_finished (h.finished.trans hend),
          List.map_nil]
      · exact absurd hlen (Nat.not_lt_zero _)
    | succ fuel' =>
      rw [tokensAtFuel, tokensAtFuel]
      rcases h.next with ⟨hnone, hnone'⟩ | ⟨t, after, after', hnext, hnext', hafter⟩
      · rw [hnone, hnone']
        rfl
      · have hless : ∀ {n : Nat}, l.finished = true ∨ l.rest.length < n + 1 →
            after.finished = true ∨ after.rest.length < n := by
          intro n hn
          rcases length_rest_of_next hnext with hend | hlen
          · exact .inl hend
          · rcases hn with hend | hn
            · rw [Lexer.next, if_pos hend] at hnext
              cases hnext
            · exact .inr (by omega)
        rw [hnext, hnext', List.map_cons]
        exact congrArg _ (ih hafter (hless hfuel) (hless hfuel'))

end Lexer

/-- The tokens of characters that start on a line, the end included. -/
def tokensFrom (line : Nat) (cs : List Char) : List Token :=
  (Lexer.mk cs ⟨0, line⟩ 0 false).tokens

/-- The tokens of a source are those of its characters from the first line on. -/
theorem tokenize_eq (source : String) : tokenize source = tokensFrom 1 source.toList := rfl

/-- What a lexer has left depends on the characters and the line alone. -/
theorem Lexer.tokensAtFuel_eq_tokensFrom {l : Lexer} {fuel : Nat} (hnew : l.finished = false)
    (hfuel : l.rest.length < fuel) : l.tokensAtFuel fuel = tokensFrom l.line l.rest := by
  have hbelow : Below 0 ⟨l.rest, ⟨0, l.line⟩, 0, false⟩ l := ⟨rfl, rfl, hnew⟩
  rw [tokensAtFuel_below hbelow (.inr (Nat.lt_succ_self _)) (.inr hfuel)]
  exact List.map_id'' (fun _ => rfl) _

/-- Characters further down have the same tokens further down. -/
theorem tokensFrom_add (line k : Nat) (cs : List Char) :
    tokensFrom (line + k) cs = (tokensFrom line cs).map (Token.mapLine (· + k)) :=
  Lexer.tokensAtFuel_below ⟨rfl, rfl, rfl⟩ (.inr (Nat.lt_succ_self _)) (.inr (Nat.lt_succ_self _))

/-- Behind a gap at the end there is only the end. -/
theorem tokensFrom_of_none {cs : List Char} (h : Taken.first? (splitGap false cs).2 = none)
    (line : Nat) :
    tokensFrom line cs = [⟨.eof, "", line + (splitGap false cs).1.count '\n'⟩] := by
  have hnext := Lexer.next_eq (l := ⟨cs, ⟨0, line⟩, 0, false⟩) rfl
  dsimp only at hnext
  rw [h] at hnext
  unfold tokensFrom Lexer.tokens
  rw [Lexer.tokensAtFuel, hnext]
  dsimp only
  rw [Lexer.tokensAtFuel_finished rfl, Position.line_advanceAll]

/-- Behind a gap there is a token, and then what follows it. -/
theorem tokensFrom_of_some {cs : List Char} {t : Taken}
    (h : Taken.first? (splitGap false cs).2 = some t) {line below : Nat}
    (hbelow : below = line + ((splitGap false cs).1 ++ (t.dropped ++ t.lexeme)).count '\n') :
    tokensFrom line cs =
      ⟨t.kind, String.ofList t.lexeme, below⟩ :: tokensFrom below t.rest := by
  have hnext := Lexer.next_eq (l := ⟨cs, ⟨0, line⟩, 0, false⟩) rfl
  dsimp only at hnext
  rw [h] at hnext
  have hshort := Lexer.length_rest_of_next hnext
  unfold tokensFrom Lexer.tokens
  rw [Lexer.tokensAtFuel, hnext]
  dsimp only at hshort ⊢
  rcases hshort with hend | hlen
  · cases hend
  rw [Lexer.tokensAtFuel_eq_tokensFrom rfl hlen]
  have hline : ((((⟨0, line⟩ : Position).advanceAll (splitGap false cs).1).advanceAll
      t.dropped).advanceAll t.lexeme).line = below := by
    rw [← Position.advanceAll_append, ← Position.advanceAll_append, Position.line_advanceAll,
      hbelow]
  dsimp only [Lexer.line]
  rw [hline]
  rfl

/-- There is always a token, if only the end. -/
theorem tokensFrom_ne_nil (line : Nat) (cs : List Char) : tokensFrom line cs ≠ [] := by
  cases hfirst : Taken.first? (splitGap false cs).2 with
  | none =>
    rw [tokensFrom_of_none hfirst]
    exact List.cons_ne_nil _ _
  | some t =>
    rw [tokensFrom_of_some hfirst rfl]
    exact List.cons_ne_nil _ _

/-! ## One text behind another -/

/-- A gap that ends a text goes on behind the line feed. -/
theorem splitGap_append_lineFeed {a : List Char} (h : (splitGap false a).2 = []) (b : List Char) :
    splitGap false (a ++ '\n' :: b) =
      (a ++ '\n' :: (splitGap false b).1, (splitGap false b).2) := by
  have hall := splitGap_append false a
  obtain ⟨hgap, -⟩ := gap_splitGap a
  obtain ⟨hmore, -⟩ := gap_splitGap b
  rw [h, List.append_nil] at hall
  rw [h, hall] at hgap
  have hsplit := (hgap.append_lineFeed hmore).splitGap_eq (startsPiece_splitGap false b)
  rwa [List.append_assoc, List.cons_append, splitGap_append] at hsplit

/-- The tokens behind a gap that ends a text are those behind the line feed. -/
theorem tokensFrom_append_gap {a : List Char} (h : (splitGap false a).2 = []) (b : List Char)
    (line : Nat) :
    tokensFrom line (a ++ '\n' :: b) = tokensFrom (line + (a.count '\n' + 1)) b := by
  have hsplit := splitGap_append_lineFeed h b
  have hcount : ∀ more : List Char, line + (a ++ '\n' :: more).count '\n' =
      line + (a.count '\n' + 1) + more.count '\n' := by
    intro more
    rw [List.count_append, List.count_cons_self]
    omega
  cases hfirst : Taken.first? (splitGap false b).2 with
  | none =>
    rw [tokensFrom_of_none hfirst, tokensFrom_of_none (by rwa [hsplit]), hsplit, hcount]
  | some t =>
    apply (tokensFrom_of_some (by rwa [hsplit]) rfl).trans
    refine (tokensFrom_of_some hfirst ?_).symm
    rw [hsplit, List.append_assoc, List.cons_append, hcount]

/-- A known token behind a gap is a maximal lexeme. -/
theorem fits_of_first? {a : List Char} {t : Taken}
    (h : Taken.first? (splitGap false a).2 = some t) (hknown : t.kind ≠ .unknown) :
    t.Fits ∧ t.lexeme ++ t.rest = (splitGap false a).2 := by
  have hstarts := startsPiece_splitGap false a
  cases hbehind : (splitGap false a).2 with
  | nil =>
    rw [hbehind] at h
    cases h
  | cons c rest =>
    rw [hbehind] at h hstarts
    obtain rfl : Taken.ofChars c rest = t := Option.some.inj h
    rcases Taken.fits_ofChars hstarts with hfits | ⟨-, -, hopen⟩
    · have hsource := Taken.source_ofChars c rest
      rw [Taken.source, hfits.dropped, List.nil_append] at hsource
      exact ⟨hfits, hsource⟩
    · rw [hopen] at hknown
      exact absurd rfl hknown

/-- The lexer takes a known token off in the same way if a line feed and more stand behind the text.
-/
theorem first?_append_lineFeed {a : List Char} {t : Taken}
    (h : Taken.first? (splitGap false a).2 = some t) (hknown : t.kind ≠ .unknown) (b : List Char) :
    (splitGap false (a ++ '\n' :: b)).1 = (splitGap false a).1 ∧
      Taken.first? (splitGap false (a ++ '\n' :: b)).2 =
        some { t with rest := t.rest ++ '\n' :: b } := by
  obtain ⟨⟨hdropped, hspelled, hmax⟩, hsource⟩ := fits_of_first? h hknown
  obtain ⟨hgap, -⟩ := gap_splitGap a
  have hmax' := hmax.append_lineFeed b
  have hsome : t.lexeme ++ t.rest ≠ [] :=
    List.append_ne_nil_of_left_ne_nil (List.ne_nil_of_length_pos hspelled.length_pos) _
  rw [← hsource] at hgap
  have hgap' := hgap.append hsome ('\n' :: b)
  rw [List.append_assoc] at hgap'
  have hsplit := hgap'.splitGap_eq (hspelled.startsPiece hmax')
  have hchars : (splitGap false a).1 ++ (t.lexeme ++ (t.rest ++ '\n' :: b)) = a ++ '\n' :: b := by
    rw [← List.append_assoc t.lexeme, hsource, ← List.append_assoc, splitGap_append]
  rw [hchars] at hsplit
  rw [hsplit, Taken.first?_of_spelled hspelled hmax', hdropped]
  exact ⟨rfl, rfl⟩

/-- Characters whose tokens are all known, with a line feed and others behind them: the end of the
first ones gives way to the tokens of the others. -/
theorem tokensFrom_append (a b : List Char) (line : Nat)
    (hknown : ∀ t ∈ tokensFrom line a, t.isUnknown = false) :
    tokensFrom line (a ++ '\n' :: b) =
      (tokensFrom line a).dropLast ++ tokensFrom (line + (a.count '\n' + 1)) b := by
  cases hfirst : Taken.first? (splitGap false a).2 with
  | none =>
    have hend : (splitGap false a).2 = [] := by
      cases hbehind : (splitGap false a).2 with
      | nil => rfl
      | cons c rest =>
        rw [hbehind] at hfirst
        cases hfirst
    rw [tokensFrom_of_none hfirst, tokensFrom_append_gap hend]
    rfl
  | some t =>
    obtain ⟨below, hbelow⟩ : ∃ below, below =
        line + ((splitGap false a).1 ++ (t.dropped ++ t.lexeme)).count '\n' := ⟨_, rfl⟩
    have htokens := tokensFrom_of_some hfirst hbelow
    rw [htokens] at hknown ⊢
    obtain ⟨hfirstKnown, hrestKnown⟩ := List.forall_mem_cons.1 hknown
    have hkind : t.kind ≠ .unknown := by
      intro hunknown
      rw [Token.isUnknown, hunknown] at hfirstKnown
      cases hfirstKnown
    obtain ⟨hfits, hsource⟩ := fits_of_first? hfirst hkind
    obtain ⟨hgap, hnext⟩ := first?_append_lineFeed hfirst hkind b
    have hall := splitGap_append false a
    rw [← hsource] at hall
    have hshort : t.rest.length < a.length := by
      have hpos := hfits.spelled.length_pos
      rw [← hall, List.length_append, List.length_append]
      omega
    have hline : line + (a.count '\n' + 1) = below + (t.rest.count '\n' + 1) := by
      have hcount := congrArg (List.count '\n') hall
      rw [hfits.dropped] at hbelow
      simp only [List.nil_append, List.count_append] at hbelow hcount
      omega
    have hrest := tokensFrom_append t.rest b below hrestKnown
    rw [← hgap] at hbelow
    rw [tokensFrom_of_some hnext hbelow, hline, hrest,
      List.dropLast_cons_of_ne_nil (tokensFrom_ne_nil _ _), List.cons_append]
termination_by a.length

/-- **Tokens of one text behind another.** Where no token of a text is unknown, the tokens of the text
with a line feed and another text behind it are its own without the end, and then those of the other
on the lines further down. -/
theorem tokenize_append (a b : String) (hknown : ∀ t ∈ tokenize a, t.isUnknown = false) :
    tokenize (a ++ "\n" ++ b) =
      (tokenize a).dropLast
        ++ (tokenize b).map (Token.mapLine (· + (a.toList.count '\n' + 1))) := by
  have hchars : (a ++ "\n" ++ b).toList = a.toList ++ '\n' :: b.toList := by simp
  rw [tokenize_eq, hchars, tokensFrom_append a.toList b.toList 1 hknown, tokensFrom_add]
  rfl

end Quill

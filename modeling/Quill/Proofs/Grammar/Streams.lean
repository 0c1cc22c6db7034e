import Quill.Proofs.Grammar.Passing
import Quill.Proofs.Grammar.Views
import Quill.Proofs.Token.Decomposition

/-!
# Programs of token streams

What a source is read as depends on its tokens alone (`parse_eq`), and what it comes to is a
program or the list of all its problems (`verdict`). A view of the tokens, with other lines or
without the tokens that mark lexical faults, is read as the same program on these lines, or comes to
the problems that the view shows (`parse_views`, and `parseTokens_mapLine` for lines alone).
-/

namespace Quill

/-! ## Verdicts -/

/-- What a source comes to that is read as these declarations with these problems. -/
def verdict (declarations : List Stmt) (problems : List Problem) : Except (List Problem) Program :=
  if problems = [] then .ok ⟨declarations⟩ else .error problems

/-- The problems for which a source is refused, none if it is a program. -/
def problemsOf : Except (List Problem) Program → List Problem
  | .ok _ => []
  | .error problems => problems

@[simp] theorem problemsOf_verdict (declarations : List Stmt) (problems : List Problem) :
    problemsOf (verdict declarations problems) = problems := by
  unfold verdict
  split
  · next hnone => exact hnone.symm
  · rfl

/-- What a source comes to, on other lines. -/
def mapReading (f : Nat → Nat) : Except (List Problem) Program → Except (List Problem) Program
  | .ok program => .ok (program.mapLines f)
  | .error problems => .error (problems.map (Problem.mapLine f))

/-- Lines are mapped in the declarations and the problems of a reading. -/
theorem mapReading_verdict (f : Nat → Nat) (declarations : List Stmt) (problems : List Problem) :
    mapReading f (verdict declarations problems) =
      verdict (Stmt.listMapLines f declarations) (problems.map (Problem.mapLine f)) := by
  unfold verdict
  by_cases hnone : problems = []
  · rw [if_pos hnone, if_pos (List.map_eq_nil_iff.2 hnone)]
    rfl
  · rw [if_neg hnone, if_neg (fun hmap => hnone (List.map_eq_nil_iff.1 hmap))]
    rfl

namespace Cursor

/-- Reading comes to the verdict on the declarations and problems found at the top level. -/
theorem readProgram_eq_verdict {c c' : Cursor} {declarations : List Stmt} (hclosed : c.depth = 0)
    (h : c.topLevel c = .ok declarations c') :
    c.readProgram.1 = verdict declarations c'.problems.toList := by
  rw [readProgram_of_ok hclosed h]
  unfold verdict
  by_cases hnone : c'.problems = #[]
  · rw [if_pos hnone, if_pos (by rw [hnone])]
  · rw [if_neg hnone, if_neg (fun hlist => hnone (Array.toList_eq_nil_iff.1 hlist))]

/-- In a view the source comes to the same declarations on the lines that are shown, and to the
problems that are shown. -/
theorem readProgram_cursor (v : View) {c c' : Cursor} {declarations : List Stmt}
    (hclosed : c.depth = 0) (h : c.topLevel c = .ok declarations c') :
    (v.cursor c).readProgram.1 =
      verdict (Stmt.listMapLines v.line declarations) (c'.problems.toList.filterMap v.problem?) := by
  have hview : (v.cursor c).topLevel (v.cursor c) =
      .ok (Stmt.listMapLines v.line declarations) (v.cursor c') := by
    rw [topLevel_cursor, h, View.result]
  have hclosed' : (v.cursor c).depth = 0 := hclosed
  rw [readProgram_eq_verdict hclosed' hview, View.problems_cursor]

/-! ## Streams -/

/-- The cursor at the front of tokens; the line is that of the end, should there be no token. -/
def ofTokens (line : Nat) (tokens : List Token) : Cursor :=
  Cursor.recordFaults ⟨(Lexing.ofTokens tokens).tokens, lastLine line tokens, #[], 0⟩
    (Lexing.ofTokens tokens).leading

end Cursor

/-- What a stream of tokens is read as. -/
def parseTokens (tokens : List Token) : Except (List Problem) Program :=
  (Cursor.ofTokens 1 tokens).readProgram.1

/-- Sources are read by their tokens. -/
theorem parse_eq (source : String) : parse source = parseTokens (tokenize source) := rfl

namespace View

variable (v : View)

/-- The tokens as they are shown. -/
def tokens (ts : List Token) : List Token :=
  (if v.faults then ts else ts.filter fun t => !t.isUnknown).map (Token.mapLine v.line)

/-- A view shows the first token or leaves it out, and then shows the others. -/
theorem tokens_cons (t : Token) (ts : List Token) :
    v.tokens (t :: ts) =
      if v.faults || !t.isUnknown then t.mapLine v.line :: v.tokens ts else v.tokens ts := by
  unfold tokens
  cases v.faults with
  | true => rfl
  | false =>
    cases h : t.isUnknown with
    | true => simp [h]
    | false => simp [h]

/-- Tokens that are shown are sorted in the same way. -/
theorem lexing_tokens (ts : List Token) :
    Lexing.ofTokens (v.tokens ts) =
      ⟨v.lexical (Lexing.ofTokens ts).leading, (Lexing.ofTokens ts).tokens.map v.lexed⟩ := by
  induction ts with
  | nil =>
    cases h : v.faults with
    | true => simp [tokens, h, Lexing.ofTokens, lexical]
    | false => simp [tokens, h, Lexing.ofTokens, lexical]
  | cons t rest ih =>
    rw [tokens_cons, Lexing.ofTokens]
    cases hunknown : t.isUnknown with
    | true =>
      have hfault : ∃ fault, t.fault? = some fault := by simp [Token.fault?, hunknown]
      obtain ⟨fault, hfault⟩ := hfault
      cases hfaults : v.faults with
      | true => simp [Lexing.ofTokens, ih, Token.fault?_mapLine, hfault, lexical, hfaults]
      | false => simp [ih, hfault, lexical, hfaults]
    | false =>
      have hfault : t.fault? = none := by simp [Token.fault?, hunknown]
      cases hend : t.isEof with
      | true => simp [Lexing.ofTokens, ih, Token.fault?_mapLine, hfault, hend]
      | false =>
        simp only [Bool.not_false, Bool.or_true, if_true, Lexing.ofTokens, ih,
          Token.fault?_mapLine, hfault, Option.map_none, Token.isEof_mapLine, hend]
        cases hfaults : v.faults with
        | true => simp [lexical, lexed, hfaults]
        | false => simp [lexical, lexed, hfaults]

/-- The end of the source is shown: its token marks no fault. -/
def ShowsEnd (ts : List Token) : Prop :=
  v.faults = true ∨ ∃ front last, ts = front ++ [last] ∧ last.isUnknown = false

/-- The last line that is seen is the view of the last line. -/
theorem lastLine_tokens {ts : List Token} (h : v.ShowsEnd ts) (line : Nat) :
    Cursor.lastLine (v.line line) (v.tokens ts) = v.line (Cursor.lastLine line ts) := by
  unfold Cursor.lastLine
  rcases h with hfaults | ⟨front, last, rfl, hknown⟩
  · rw [tokens, if_pos hfaults, List.getLast?_map]
    cases ts.getLast? with
    | none => rfl
    | some t => rfl
  · have hlast : v.tokens (front ++ [last]) = v.tokens front ++ [last.mapLine v.line] := by
      unfold tokens
      cases v.faults with
      | true => simp
      | false => simp [hknown]
    rw [hlast, List.getLast?_concat, List.getLast?_concat]
    rfl

/-- The cursor at the start of what is seen is the view of the cursor at the start. -/
theorem cursor_ofTokens {ts : List Token} (h : v.ShowsEnd ts) (line : Nat) :
    v.cursor (Cursor.ofTokens line ts) = Cursor.ofTokens (v.line line) (v.tokens ts) := by
  unfold Cursor.ofTokens
  rw [lexing_tokens, lastLine_tokens v h, ← recordFaults_cursor]
  rfl

end View

/-! ## Sources -/

/-- No lexeme is the end of a source. -/
theorem Decomposition.Lexical.kind_ne_eof {d : Decomposition} (h : d.Lexical) :
    ∀ p ∈ d.pieces, p.kind ≠ .eof := by
  induction h with
  | ending => exact nofun
  | unclosed =>
    intro p hp
    rw [List.mem_singleton.1 hp]
    exact nofun
  | cons _ hspelled _ _ ih =>
    refine List.forall_mem_cons.2 ⟨?_, ih⟩
    intro hkind
    rw [hkind] at hspelled
    cases hspelled

/-- The tokens of a source end with the end of the source, and none before is its end. -/
theorem tokenize_ends (source : String) :
    ∃ front last, tokenize source = front ++ [last] ∧ last.kind = .eof ∧
      ∀ t ∈ front, t.kind ≠ .eof := by
  have htokens := Lexer.tokensAtFuel_eq source.toList.length (.ofSource source) rfl (Nat.le_refl _)
  obtain ⟨hlexical, -⟩ :=
    Decomposition.lexical_ofCharsAtFuel source.toList.length source.toList (Nat.le_refl _)
  obtain ⟨front, last, hsplit, hfront, hlast⟩ := List.map_eq_append_iff.1 htokens
  obtain ⟨t, rfl, hkind⟩ := List.map_eq_singleton_iff.1 hlast
  refine ⟨front, t, hsplit, congrArg Prod.fst hkind, ?_⟩
  intro u hu
  have hmem := List.mem_map_of_mem (f := fun t : Token => (t.kind, t.lexeme)) hu
  rw [hfront] at hmem
  obtain ⟨p, hp, heq⟩ := List.mem_map.1 hmem
  have hsame : p.kind = u.kind := congrArg Prod.fst heq
  rw [← hsame]
  exact hlexical.kind_ne_eof p hp

/-- But for the end of the source, the tokens are all but the last one. -/
theorem filter_not_isEof_tokenize (source : String) :
    ((tokenize source).filter fun t => !t.isEof) = (tokenize source).dropLast := by
  obtain ⟨front, last, hsplit, hlast, hfront⟩ := tokenize_ends source
  have hkept : (front.filter fun t => !t.isEof) = front := by
    apply List.filter_eq_self.2
    intro t ht
    simpa [Token.isEof] using hfront t ht
  have hend : last.isEof = true := by
    rw [Token.isEof, hlast]
    rfl
  rw [hsplit, List.filter_append, hkept, List.dropLast_concat]
  simp [hend]

/-- Every view of a source shows its end. -/
theorem View.showsEnd_tokenize (v : View) (source : String) : v.ShowsEnd (tokenize source) := by
  obtain ⟨front, last, hsplit, hkind, -⟩ := tokenize_ends source
  refine .inr ⟨front, last, hsplit, ?_⟩
  rw [Token.isUnknown, hkind]
  rfl

/-- The line of the end is that of the last token, if there is one. -/
theorem Cursor.ofTokens_eq_of_ne_nil {ts : List Token} (h : ts ≠ []) (line line' : Nat) :
    ofTokens line ts = ofTokens line' ts := by
  unfold ofTokens lastLine
  rw [List.getLast?_eq_some_getLast h]
  rfl

/-- Something is seen of every source. -/
theorem View.tokens_tokenize_ne_nil (v : View) (source : String) :
    v.tokens (tokenize source) ≠ [] := by
  obtain ⟨front, last, hsplit, hkind, -⟩ := tokenize_ends source
  have hknown : last.isUnknown = false := by
    rw [Token.isUnknown, hkind]
    rfl
  intro hnil
  rw [View.tokens, List.map_eq_nil_iff, hsplit] at hnil
  cases hfaults : v.faults with
  | true => simp [hfaults] at hnil
  | false => simp [hfaults, hknown] at hnil

/-- Reading a source comes to declarations and problems, and among the problems are the lexical
faults that its tokens mark. Any view of its tokens comes to the same declarations on the lines that
are shown, and to the problems that are shown. -/
theorem parse_views (source : String) :
    ∃ declarations problems, parse source = verdict declarations problems ∧
      problems.filterMap Problem.lexical? = (tokenize source).filterMap Token.fault? ∧
      ∀ v : View, parseTokens (v.tokens (tokenize source)) =
        verdict (Stmt.listMapLines v.line declarations) (problems.filterMap v.problem?) := by
  have hclosed : (Cursor.ofTokens 1 (tokenize source)).depth = 0 := rfl
  obtain ⟨declarations, c', hread, hend⟩ :=
    (Cursor.ofTokens 1 (tokenize source)).topLevel_ends
  refine ⟨declarations, c'.problems.toList, ?_, ?_, ?_⟩
  · exact Cursor.readProgram_eq_verdict hclosed hread
  · have hfaults := Cursor.lexicalFaults_topLevel hread hend
    have hall := Cursor.lexicalFaults_ofLexer (.ofSource source)
    exact hfaults.trans hall
  · intro v
    unfold parseTokens
    rw [Cursor.ofTokens_eq_of_ne_nil (v.tokens_tokenize_ne_nil source) 1 (v.line 1),
      ← v.cursor_ofTokens (v.showsEnd_tokenize source), Cursor.readProgram_cursor v hclosed hread]

/-- Where all faults are shown, the problems that are shown are the same ones on other lines. -/
theorem View.filterMap_problem?_of_faults {v : View} (h : v.faults = true)
    (problems : List Problem) :
    problems.filterMap v.problem? = problems.map (Problem.mapLine v.line) := by
  induction problems with
  | nil => rfl
  | cons problem rest ih =>
    cases problem with
    | lexical fault => simp [View.problem?, h, ih, Problem.mapLine]
    | grammatical fault => simp [View.problem?, ih, Problem.mapLine]

/-- Tokens on other lines are read as the same program, or refused for the same problems, on these
lines. -/
theorem parseTokens_mapLine (f : Nat → Nat) (source : String) :
    parseTokens ((tokenize source).map (Token.mapLine f)) = mapReading f (parse source) := by
  obtain ⟨declarations, problems, hread, -, hviews⟩ := parse_views source
  have hview := hviews ⟨f, true⟩
  rw [View.filterMap_problem?_of_faults rfl] at hview
  rw [hread, mapReading_verdict]
  exact hview

end Quill

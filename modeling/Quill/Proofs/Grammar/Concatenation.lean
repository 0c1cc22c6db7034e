import Quill.Proofs.Grammar.Completeness
import Quill.Proofs.Grammar.LexicalFaults
import Quill.Proofs.Grammar.Soundness
import Quill.Proofs.Grammar.Streams
import Quill.Proofs.Token.Concatenation

/-!
# One source behind another

If a source is a program, and no `else` is next behind it, then with a line feed and another source
behind it its declarations are read as before, and the other source is read as it is alone, on the
lines further down (`parse_append`). Neither a rule nor recovery in the other source sees what has
been read before.

Of the first source it is known that its tokens spell its program, and by completeness the rules read
the program from them wherever they stand. Completeness is about cursors without any lexical fault;
the faults in front of the second source stand behind the last token of the first one. They are out
of sight in the view `View.bare`, and that they are recorded when this token is passed, and no others
are, is known from `Cursor.Moves`.
-/

namespace Quill

/-! ## Cursors without faults of the grammar -/

namespace Cursor

/-- The cursor before tokens, with no level open, when nothing but lexical faults have been found. -/
def clean (upcoming : List Lexed) (line : Nat) (faults : List LexicalFault) : Cursor :=
  ⟨upcoming, line, (faults.map Problem.lexical).toArray, 0⟩

/-- A clean cursor has recorded the faults that it was made with, and no others. -/
theorem lexicalFaults_clean (upcoming : List Lexed) (line : Nat) (faults : List LexicalFault) :
    (clean upcoming line faults).lexicalFaults = faults := by
  have hclean := lexicalFaults_recordFaults ⟨upcoming, line, #[], 0⟩ faults
  simpa [recordFaults, clean, lexicalFaults] using hclean

/-- On a clean cursor nothing is known of the tokens behind. -/
theorem cursor_bare_clean (upcoming : List Lexed) (line : Nat) (faults : List LexicalFault) :
    View.bare.cursor (clean upcoming line faults) =
      before (upcoming.map Lexed.token) line #[] := by
  have hnone : (faults.map Problem.lexical).filterMap View.bare.problem? = [] :=
    View.bare.filterMap_lexical faults
  have htokens : upcoming.map View.bare.lexed = (upcoming.map Lexed.token).map Lexed.bare := by
    rw [List.map_map]
    rfl
  show Cursor.mk _ _ ((faults.map Problem.lexical).filterMap View.bare.problem?).toArray 0 = _
  rw [hnone]
  exact congrArg (fun upcoming => Cursor.mk upcoming line #[] 0) htokens

/-- Problems of which none is shown without lexical faults are lexical faults. -/
theorem eq_lexical_of_bare {problems : List Problem}
    (h : problems.filterMap View.bare.problem? = []) :
    problems = (problems.filterMap Problem.lexical?).map Problem.lexical := by
  induction problems with
  | nil => rfl
  | cons problem rest ih =>
    cases problem with
    | lexical fault => exact congrArg (Problem.lexical fault :: ·) (ih h)
    | grammatical fault => cases h

/-- A cursor that shows no problem without its lexical faults has recorded nothing else. -/
theorem eq_clean_of_bare {c : Cursor} {us : List Token} {line : Nat}
    (h : View.bare.cursor c = before us line #[]) :
    c = clean c.upcoming line c.lexicalFaults := by
  obtain ⟨upcoming, endLine, ⟨problems⟩, depth⟩ := c
  have hline : endLine = line := congrArg Cursor.endLine h
  have hdepth : depth = 0 := congrArg Cursor.depth h
  have hnone : problems.filterMap View.bare.problem? = [] :=
    congrArg (fun c : Cursor => c.problems.toList) h
  have hproblems := eq_lexical_of_bare hnone
  subst hline hdepth
  exact congrArg (fun problems => Cursor.mk upcoming endLine ⟨problems⟩ 0) hproblems

end Cursor

open Cursor (clean before)

/-! ## The rules behind a program -/

/-- Two runs that agree on their first step agree on what follows it. -/
theorem Parse.bind_congr {α β : Type} {x y : Parse α} {c c' : Cursor} (h : x c = y c')
    (f : α → Parse β) : (x >>= f) c = (y >>= f) c' := by
  show EStateM.bind x f c = EStateM.bind y f c'
  unfold EStateM.bind
  rw [h]

namespace Grammar

open Parse

variable {levels rounds : Nat}

/-- A declaration is read from the tokens that spell it, and the faults behind them are recorded. -/
theorem declaration_clean {s : Stmt} (hwf : s.wellFormed = true) (hfits : s.nesting ≤ levels)
    {ts us : List Lexed} (hspells : Spells s.spelling (ts.map Lexed.token))
    (hlen : (ts ++ us).length < rounds) (helse : NoElse (us.map Lexed.token)) (line : Nat)
    (faults : List LexicalFault) :
    declaration (Rules.atLevels rounds levels) (clean (ts ++ us) line faults) =
      .ok (some s) (clean us line (faults ++ ts.flatMap Lexed.faults)) := by
  have hleads := leads_recovering (declarationAt_of_wellFormed s hwf levels rounds _
    (us.map Lexed.token) hspells (by simpa using hlen) fun _ => helse)
  have hbare := hleads.arrives hfits line #[]
  have hcarries := carries_recovering (carries_declarationRule
    (Rules.carry_atLevels View.bare rounds levels)) (clean (ts ++ us) line faults)
  have hmoves := moves_recovering (compositional_moves.declarationRule
    (Rules.moves_atLevels rounds levels)) (clean (ts ++ us) line faults)
  unfold CarriesFrom at hcarries
  rw [Cursor.cursor_bare_clean, List.map_append, hbare] at hcarries
  unfold declaration
  generalize recovering (declarationRule (Rules.atLevels rounds levels))
    (clean (ts ++ us) line faults) = result at hcarries hmoves
  cases result with
  | error fault c => cases hcarries
  | ok found c =>
    obtain ⟨hfound, hcursor⟩ := EStateM.Result.ok.inj hcarries
    obtain ⟨t, hsome, ht⟩ := Option.map_eq_some_iff.1 hfound.symm
    have hsame : t = s := (Stmt.mapLines_id t).symm.trans ht
    obtain ⟨passed, hpassed, hfaults⟩ := hmoves
    have hlength : us.length = c.upcoming.length := by
      have hupcoming := congrArg (fun c : Cursor => c.upcoming.length) hcursor
      simpa [before] using hupcoming
    obtain ⟨hts, hus⟩ := List.append_inj' hpassed hlength
    rw [Cursor.lexicalFaults_clean, ← hts] at hfaults
    have hc := Cursor.eq_clean_of_bare hcursor.symm
    rw [ending_ok] at hus hfaults
    rw [hc, hsome, hsame, hfaults, ← hus]

/-- Declarations are read one after another from the tokens that spell them, and then what stands
behind them is read as it would be without them. -/
theorem declarationsAtFuel_clean {us : List Lexed} (helse : NoElse (us.map Lexed.token))
    (line : Nat) :
    ∀ (body : List Stmt), (∀ s ∈ body, s.wellFormed = true) → Stmt.listNesting body ≤ levels →
      ∀ (fuel : Nat) (ts : List Lexed) (faults : List LexicalFault),
        Spells (Stmt.listSpelling body) (ts.map Lexed.token) → (ts ++ us).length < rounds →
        (ts ++ us).length < fuel →
        ∃ left, us.length < left ∧
          declarationsAtFuel (Rules.atLevels rounds levels) atEnd fuel
              (clean (ts ++ us) line faults) =
            (do
              let rest ← declarationsAtFuel (Rules.atLevels rounds levels) atEnd left
              return body ++ rest) (clean us line (faults ++ ts.flatMap Lexed.faults))
  | _, _, _, 0, _, _, _, _, hfuel => absurd hfuel (Nat.not_lt_zero _)
  | [], _, _, fuel + 1, ts, faults, hspells, _, hfuel => by
    have hnil : ts = [] := List.map_eq_nil_iff.1 (spells_nil.1 hspells)
    subst hnil
    refine ⟨fuel + 1, hfuel, ?_⟩
    simp only [List.nil_append, List.flatMap_nil, List.append_nil, bind_pure]
  | s :: body, hwf, hfits, fuel + 1, ts, faults, hspells, hrounds, hfuel => by
    obtain ⟨hs, hbody⟩ := List.forall_mem_cons.1 hwf
    obtain ⟨hsfits, hbodyfits⟩ := Nat.max_le.1 hfits
    obtain ⟨front, behind, hsplit, hfront, hbehind⟩ := spells_append.1 hspells
    obtain ⟨ts, vs, rfl, rfl, rfl⟩ := List.map_eq_append_iff.1 hsplit
    obtain ⟨t, more, hcons, -⟩ := exists_cons_of_spells_declaration hs hfront
    obtain ⟨first, others, rfl, -, -⟩ := List.map_eq_cons_iff.1 hcons
    rw [List.append_assoc] at hrounds hfuel ⊢
    have hnext : NoElse ((vs ++ us).map Lexed.token) := by
      rw [List.map_append]
      cases body with
      | nil =>
        rw [spells_nil.1 hbehind]
        exact helse
      | cons s' body =>
        obtain ⟨ws, xs, hvs, hws, -⟩ := spells_append.1 hbehind
        obtain ⟨u, rest, rfl, hu⟩ :=
          exists_cons_of_spells_declaration (hbody s' List.mem_cons_self) hws
        rw [hvs]
        exact noElse_of_startsDeclaration hu
    have hfirst := declaration_clean hs hsfits hfront hrounds hnext line faults
    simp only [List.cons_append, List.length_cons, List.length_append] at hrounds hfuel
    obtain ⟨left, hleft, hrest⟩ := declarationsAtFuel_clean helse line body hbody hbodyfits fuel vs
      (faults ++ (first :: others).flatMap Lexed.faults) hbehind
      (by rw [List.length_append]; omega) (by rw [List.length_append]; omega)
    refine ⟨left, hleft, ?_⟩
    have hround : declarationsAtFuel (Rules.atLevels rounds levels) atEnd (fuel + 1)
        (clean (first :: others ++ (vs ++ us)) line faults) = (do
          let found ← declaration (Rules.atLevels rounds levels)
          let rest ← declarationsAtFuel (Rules.atLevels rounds levels) atEnd fuel
          return found.toList ++ rest) (clean (first :: others ++ (vs ++ us)) line faults) := rfl
    rw [hround, bind_eq_of_ok hfirst, bind_congr hrest, List.flatMap_append, List.append_assoc]
    simp only [bind_assoc, pure_bind]
    rfl

end Grammar

namespace Cursor

open Grammar

/-- More rounds than there are tokens make no difference. -/
theorem topLevel_rounds {c : Cursor} (hclosed : c.depth = 0) {rounds fuel : Nat}
    (hrounds : c.upcoming.length < rounds) (hfuel : c.upcoming.length < fuel) :
    Parse.resultWithDepth 0
        (declarationsAtFuel (Rules.atLevels rounds maxNesting) Parse.atEnd fuel c) =
      Parse.resultWithDepth 0 (c.topLevel c) := by
  have hbelow : c.upcoming.length < (Rules.exhausted rounds).rounds := hrounds
  have hunfolded := declarationsAtFuel_unfolded hclosed hbelow (Nat.lt_succ_self maxNesting)
  have hrules := Rules.agree_unfolded (Rules.exhausted rounds) hrounds hrounds
    (Nat.lt_succ_self maxNesting) (Nat.zero_add maxNesting)
  have hagree := agree_declarationsAtFuel hrules (Rules.progresses_atLevels _ _)
    Parse.stopsAtEnd_atEnd hrounds hfuel
  obtain ⟨heq, -⟩ := hagree c (Nat.lt_succ_self _)
  rw [← heq, ← hclosed, withDepth_self, hclosed]
  exact hunfolded

end Cursor

/-! ## Programs with something behind them -/

/-- What a source comes to that has a program in front of it. -/
def Program.followedBy (program : Program) :
    Except (List Problem) Program → Except (List Problem) Program
  | .ok behind => .ok ⟨program.declarations ++ behind.declarations⟩
  | .error problems => .error problems

/-- What a program is followed by keeps the problems and adds to the declarations. -/
theorem Program.followedBy_verdict (program : Program) (declarations : List Stmt)
    (problems : List Problem) :
    program.followedBy (verdict declarations problems) =
      verdict (program.declarations ++ declarations) problems := by
  unfold verdict
  split
  · rfl
  · rfl

namespace Cursor

open Grammar

/-- Tokens that spell a program are read as this program, and then what stands behind them is read as
it would be without them. -/
theorem readProgram_clean {program : Program} (hwf : program.wellFormed = true)
    (hfits : program.nesting ≤ maxNesting) {ts us : List Lexed}
    (hspells : Spells program.spelling (ts.map Lexed.token)) (helse : NoElse (us.map Lexed.token))
    (line : Nat) (faults : List LexicalFault) :
    (clean (ts ++ us) line faults).readProgram.1 =
      program.followedBy
        (clean us line (faults ++ ts.flatMap Lexed.faults)).readProgram.1 := by
  have hbody : ∀ s ∈ program.declarations, s.wellFormed = true := Stmt.listWellFormed_iff.1 hwf
  obtain ⟨declarations, c', hread, -⟩ :=
    (clean us line (faults ++ ts.flatMap Lexed.faults)).topLevel_ends
  obtain ⟨left, hleft, htop⟩ := declarationsAtFuel_clean helse line program.declarations hbody
    hfits _ ts faults hspells (Nat.lt_succ_self _) (Nat.lt_succ_self _)
  have hlen : us.length < (ts ++ us).length + 1 := by
    rw [List.length_append]
    omega
  have hrounds := topLevel_rounds (c := clean us line (faults ++ ts.flatMap Lexed.faults)) rfl hlen
    hleft
  rw [hread] at hrounds
  cases hlast : declarationsAtFuel (Rules.atLevels ((ts ++ us).length + 1) maxNesting) Parse.atEnd
    left (clean us line (faults ++ ts.flatMap Lexed.faults)) with
  | error fault c'' =>
    rw [hlast] at hrounds
    cases hrounds
  | ok found c'' =>
    rw [hlast] at hrounds
    obtain ⟨rfl, hc⟩ := EStateM.Result.ok.inj hrounds
    have hproblems : c''.problems = c'.problems := by
      rw [← problems_withDepth c'' 0, hc, problems_withDepth]
    have hall : (clean (ts ++ us) line faults).topLevel (clean (ts ++ us) line faults) =
        .ok (program.declarations ++ found) c'' := by
      rw [Parse.bind_eq_of_ok hlast] at htop
      unfold topLevel
      exact htop
    have hclosed : ∀ (upcoming : List Lexed) (faults : List LexicalFault),
        (clean upcoming line faults).depth = 0 := fun _ _ => rfl
    rw [readProgram_eq_verdict (hclosed _ _) hall, readProgram_eq_verdict (hclosed _ _) hread,
      Program.followedBy_verdict, hproblems]

/-- A cursor at the start of tokens is a clean one on what can be used of them. -/
theorem ofTokens_eq_clean (line : Nat) (tokens : List Token) :
    ofTokens line tokens =
      clean (Lexing.ofTokens tokens).tokens (lastLine line tokens)
        (Lexing.ofTokens tokens).leading := by
  simp [ofTokens, recordFaults, clean]

end Cursor

namespace Lexing

/-- The faults in front of some tokens stand behind the last one of the tokens before them. -/
theorem ofTokens_append {front : List Token}
    (hfront : ∀ t ∈ front, t.fault? = none ∧ t.isEof = false) (rest : List Token) :
    ∃ leading passed, ofTokens (front ++ rest) = ⟨leading, passed ++ (ofTokens rest).tokens⟩ ∧
      passed.map Lexed.token = front ∧
      leading ++ passed.flatMap Lexed.faults = (ofTokens rest).leading := by
  induction front with
  | nil => exact ⟨(ofTokens rest).leading, [], rfl, rfl, List.append_nil _⟩
  | cons t front ih =>
    obtain ⟨⟨hfault, hend⟩, hfront⟩ := List.forall_mem_cons.1 hfront
    obtain ⟨leading, passed, heq, htokens, hfaults⟩ := ih hfront
    refine ⟨[], ⟨t, leading⟩ :: passed, ?_, ?_, hfaults⟩
    · rw [List.cons_append, ofTokens, hfault, hend, heq]
      rfl
    · rw [List.map_cons, htokens]

/-- The tokens that the grammar can use are the known ones but for the end of the source. -/
theorem map_token_ofTokens (tokens : List Token) :
    (ofTokens tokens).tokens.map Lexed.token =
      (tokens.filter fun t => !t.isUnknown).filter fun t => !t.isEof := by
  induction tokens with
  | nil => rfl
  | cons t rest ih =>
    unfold ofTokens Token.fault?
    cases hunknown : t.isUnknown with
    | true => simp [hunknown, ih]
    | false =>
      cases hend : t.isEof with
      | true => simp [hunknown, hend, ih]
      | false => simp [hunknown, hend, ih]

end Lexing

/-- Known tokens that spell a program, with tokens behind them of which the first is no `else`. -/
theorem parseTokens_append {program : Program} (hwf : program.wellFormed = true)
    (hfits : program.nesting ≤ maxNesting) {front rest : List Token}
    (hspells : Spells program.spelling front)
    (hfront : ∀ t ∈ front, t.fault? = none ∧ t.isEof = false) (hrest : rest ≠ [])
    (helse : Grammar.NoElse ((Lexing.ofTokens rest).tokens.map Lexed.token)) :
    parseTokens (front ++ rest) = program.followedBy (parseTokens rest) := by
  obtain ⟨leading, passed, heq, hpassed, hfaults⟩ := Lexing.ofTokens_append hfront rest
  have hline : Cursor.lastLine 1 (front ++ rest) = Cursor.lastLine 1 rest := by
    unfold Cursor.lastLine
    rw [List.getLast?_append, List.getLast?_eq_some_getLast hrest]
    rfl
  rw [← hpassed] at hspells
  unfold parseTokens
  rw [Cursor.ofTokens_eq_clean, heq, hline, Cursor.readProgram_clean hwf hfits hspells helse,
    hfaults, Cursor.ofTokens_eq_clean]

/-! ## Sources -/

/-- The first token that the grammar can use is the first known one, on whatever line. -/
theorem noElse_of_knownTokens {source : String}
    (h : ∀ t ∈ (knownTokens source).head?, t.kind ≠ .keyword .elseWord) (f : Nat → Nat) :
    Grammar.NoElse ((Lexing.ofTokens ((tokenize source).map (Token.mapLine f))).tokens.map
      Lexed.token) := by
  have hlines : (Lexing.ofTokens ((tokenize source).map (Token.mapLine f))).tokens.map
      Lexed.token = ((Lexing.ofTokens (tokenize source)).tokens.map Lexed.token).map
        (Token.mapLine f) := by
    have hlexing := View.lexing_tokens ⟨f, true⟩ (tokenize source)
    rw [View.tokens, if_pos rfl] at hlexing
    rw [hlexing, List.map_map, List.map_map]
    rfl
  rw [hlines, Lexing.map_token_ofTokens]
  intro t ht
  rw [List.head?_map] at ht
  obtain ⟨u, hu, rfl⟩ := Option.map_eq_some_iff.1 ht
  have hfront : ((knownTokens source).filter fun t => !t.isEof) <+: knownTokens source := by
    have hcomm : ((knownTokens source).filter fun t => !t.isEof) =
        ((tokenize source).filter fun t => !t.isEof).filter fun t => !t.isUnknown := by
      simp only [knownTokens, List.filter_filter, Bool.and_comm]
    rw [hcomm, filter_not_isEof_tokenize]
    exact (List.dropLast_prefix _).filter _
  obtain ⟨behind, hbehind⟩ := hfront
  apply h u
  rw [← hbehind, List.head?_append, knownTokens, hu]
  rfl

/-- A source that is a program has no faults, and the program does not nest too deep. -/
theorem fits_of_parse {source : String} {program : Program} (h : parse source = .ok program) :
    (∀ t ∈ tokenize source, t.fault? = none) ∧ program.nesting ≤ maxNesting := by
  obtain ⟨declarations, problems, hread, hlexical, -⟩ := parse_views source
  have hproblems : problems = [] := by
    have hnone := congrArg problemsOf (hread.symm.trans h)
    rwa [problemsOf_verdict] at hnone
  have hclean : ∀ t ∈ tokenize source, t.fault? = none := by
    rw [hproblems] at hlexical
    exact List.filterMap_eq_nil_iff.1 hlexical.symm
  refine ⟨hclean, ?_⟩
  obtain ⟨hspells, hwf⟩ := spells_of_parse h
  rcases Nat.lt_or_ge maxNesting program.nesting with hdeep | hfits
  · obtain ⟨-, hanswer⟩ := Program.answers_readProgram hwf hspells
      (Cursor.lastLine 1 (tokenize source))
    obtain ⟨found, line, rest, herror⟩ := hanswer hdeep
    have hcursor : Cursor.ofTokens 1 (tokenize source) =
        Cursor.before ((tokenize source).filter fun t => !t.isEof)
          (Cursor.lastLine 1 (tokenize source)) #[] := by
      unfold Cursor.ofTokens
      rw [Lexing.ofTokens_of_clean hclean]
      rfl
    rw [parse_eq, parseTokens, hcursor, herror] at h
    cases h
  · exact hfits

/-- **One source behind another.** Where a source is a program, and the first known token of another
source is no `else`, the first source with a line feed and the other one behind it is read as the
declarations of the program and then those of the other, on the lines further down; and it is refused
for the problems of the other, on the lines further down, in order, if there are any. -/
theorem parse_append {a b : String} {program : Program} (ha : parse a = .ok program)
    (helse : ∀ t ∈ (knownTokens b).head?, t.kind ≠ .keyword .elseWord) :
    parse (a ++ "\n" ++ b) =
      match parse b with
      | .ok behind =>
        .ok ⟨program.declarations
          ++ (behind.mapLines (· + (a.toList.count '\n' + 1))).declarations⟩
      | .error problems =>
        .error (problems.map (Problem.mapLine (· + (a.toList.count '\n' + 1)))) := by
  obtain ⟨hspells, hwf⟩ := spells_of_parse ha
  obtain ⟨hclean, hfits⟩ := fits_of_parse ha
  have hknown : ∀ t ∈ tokenize a, t.isUnknown = false := by
    intro t ht
    have hfault := hclean t ht
    unfold Token.fault? at hfault
    cases hunknown : t.isUnknown with
    | true => simp [hunknown] at hfault
    | false => rfl
  rw [filter_not_isEof_tokenize] at hspells
  have hfront : ∀ t ∈ (tokenize a).dropLast, t.fault? = none ∧ t.isEof = false := by
    intro t ht
    refine ⟨hclean t ((List.dropLast_sublist _).subset ht), ?_⟩
    rw [← filter_not_isEof_tokenize] at ht
    simpa using (List.mem_filter.1 ht).2
  have hrest : (tokenize b).map (Token.mapLine (· + (a.toList.count '\n' + 1))) ≠ [] := by
    obtain ⟨front, last, hb, -⟩ := tokenize_ends b
    simp [hb]
  have hnext := noElse_of_knownTokens helse (· + (a.toList.count '\n' + 1))
  rw [parse_eq (a ++ "\n" ++ b), tokenize_append a b hknown,
    parseTokens_append hwf hfits hspells hfront hrest hnext, parseTokens_mapLine]
  cases parse b with
  | ok behind => rfl
  | error problems => rfl

/-- A choice without `else`, and behind it a source that is no program. -/
theorem parse_append_open :
    (∃ program, parse "if (nil) print a;" = .ok program) ∧
      parse ("if (nil) print a;" ++ "\n" ++ "@ let") =
        .error [.lexical ⟨.unexpected "@", 2⟩, .grammatical ⟨.expected .variableName none, 2⟩] := by
  have hok : (parse "if (nil) print a;").isOk = true := by decide +kernel
  have hproblems : problemsOf (parse "@ let") =
      [.lexical ⟨.unexpected "@", 1⟩, .grammatical ⟨.expected .variableName none, 1⟩] := by
    decide +kernel
  have helse : ∀ t ∈ (knownTokens "@ let").head?, t.kind ≠ .keyword .elseWord := by decide +kernel
  cases ha : parse "if (nil) print a;" with
  | error problems =>
    rw [ha] at hok
    cases hok
  | ok program =>
    refine ⟨⟨program, rfl⟩, ?_⟩
    rw [parse_append ha helse]
    cases hb : parse "@ let" with
    | ok behind =>
      rw [hb] at hproblems
      cases hproblems
    | error problems =>
      rw [hb] at hproblems
      obtain rfl : problems = _ := hproblems
      rfl

end Quill

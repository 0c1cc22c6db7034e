import Quill.Proofs.Grammar.Levels
import Quill.Proofs.Token.Decomposition

/-!
# Reading comes to an end

Whatever a lexer has left, reading it ends with no token left and no level open, and what is read
again then is the empty program (`Lexer.reads_out`).

That it ends is progress: each pass of a repetition leaves fewer tokens, so rounds do not run out,
and no more than `maxNesting` levels are ever open, so it does not matter what rules there are below
them. How many faults are found is a matter of what is paid for them. Recovery from a fault passes a
token, which pays for it, unless no token is left; and once none is left, only the blocks that are
still open complain, one for each level at most. `Cursor.charge` adds up the faults that have been
recorded and the tokens that are left to pay with. A rule is `Frugal` if it raises the charge only
by coming to the end, and then by no more than the levels it may open.
-/

namespace Quill

/-- The problem is a fault of the grammar. -/
def Problem.isGrammatical : Problem → Bool
  | .lexical _ => false
  | .grammatical _ => true

namespace Cursor

/-- The number of faults of the grammar that are recorded. -/
def faultCount (c : Cursor) : Nat :=
  (c.problems.toList.filter Problem.isGrammatical).length

/-- The faults that are recorded and the tokens that are left. -/
def charge (c : Cursor) : Nat :=
  c.faultCount + c.upcoming.length

@[simp] theorem faultCount_recordFaults (c : Cursor) (faults : List LexicalFault) :
    (c.recordFaults faults).faultCount = c.faultCount := by
  have hlexical : (faults.map Problem.lexical).filter Problem.isGrammatical = [] := by
    rw [List.filter_eq_nil_iff]
    intro problem hmem
    obtain ⟨fault, -, rfl⟩ := List.mem_map.1 hmem
    exact Bool.false_ne_true
  rw [faultCount, problems_recordFaults, List.filter_append, hlexical, List.append_nil, faultCount]

@[simp] theorem faultCount_recordFault (c : Cursor) (fault : GrammarFault) :
    (c.recordFault fault).faultCount = c.faultCount + 1 := by
  rw [faultCount, problems_recordFault, List.filter_append, List.length_append, faultCount]
  rfl

/-- Moving past a token records no fault of the grammar. -/
theorem faultCount_advance (c : Cursor) : c.advance.faultCount = c.faultCount := by
  unfold advance
  split
  · rfl
  · exact faultCount_recordFaults _ _

/-- Skipping to a boundary records no fault of the grammar. -/
theorem faultCount_recover (c : Cursor) : (Grammar.recover c).faultCount = c.faultCount := by
  unfold Grammar.recover
  split
  · rfl
  · exact faultCount_recordFaults _ _

/-- Recovery pays for the fault with a token, unless none is left. -/
theorem charge_recover_le (c : Cursor) (fault : GrammarFault) :
    (Grammar.recover (c.recordFault fault)).charge ≤
      c.faultCount + 1 + (c.upcoming.length - 1) := by
  have hlen := (c.recordFault fault).length_recover
  rw [upcoming_recordFault] at hlen
  rw [charge, faultCount_recover, faultCount_recordFault]
  exact Nat.add_le_add_left hlen _

/-- Between the cursors the charge is raised only if the end is come to on the way, and then by no
more than so many levels; and there are no more tokens than before. -/
structure Pays (levels : Nat) (c c' : Cursor) : Prop where
  length_le : c'.upcoming.length ≤ c.upcoming.length
  charge_le : c.upcoming = [] ∨ c'.upcoming ≠ [] → c'.charge ≤ c.charge
  charge_le_add : c'.charge ≤ c.charge + levels

namespace Pays

variable {levels : Nat} {c c' c'' : Cursor}

/-- A charge that is not raised is paid for at any number of levels. -/
theorem of_charge_le (hlen : c'.upcoming.length ≤ c.upcoming.length)
    (hcharge : c'.charge ≤ c.charge) : Pays levels c c' where
  length_le := hlen
  charge_le _ := hcharge
  charge_le_add := Nat.le_add_right_of_le hcharge

/-- Standing still raises no charge. -/
theorem refl (c : Cursor) : Pays levels c c :=
  of_charge_le (Nat.le_refl _) (Nat.le_refl _)

/-- What is paid for with some levels is paid for with more. -/
theorem mono {more : Nat} (h : Pays levels c c') (hle : levels ≤ more) : Pays more c c' where
  length_le := h.length_le
  charge_le := h.charge_le
  charge_le_add := Nat.le_trans h.charge_le_add (Nat.add_le_add_left hle _)

/-- Nothing comes back once the end has been come to. -/
theorem upcoming_eq_nil (h : Pays levels c c') (hend : c.upcoming = []) : c'.upcoming = [] := by
  have hlen := h.length_le
  rw [hend] at hlen
  exact List.length_eq_zero_iff.1 (Nat.le_zero.1 hlen)

/-- The end is come to once, so only one of two ways raises the charge. -/
theorem trans (h : Pays levels c c') (h' : Pays levels c' c'') : Pays levels c c'' where
  length_le := Nat.le_trans h'.length_le h.length_le
  charge_le := by
    rintro (hend | hopen)
    · exact Nat.le_trans (h'.charge_le (.inl (h.upcoming_eq_nil hend))) (h.charge_le (.inl hend))
    · have hopen' : c'.upcoming ≠ [] := fun hend => hopen (h'.upcoming_eq_nil hend)
      exact Nat.le_trans (h'.charge_le (.inr hopen)) (h.charge_le (.inr hopen'))
  charge_le_add := by
    by_cases hend : c'.upcoming = []
    · exact Nat.le_trans (h'.charge_le (.inl hend)) h.charge_le_add
    · exact Nat.le_trans h'.charge_le_add (Nat.add_le_add_right (h.charge_le (.inr hend)) _)

end Pays

end Cursor

namespace Parse

variable {α β : Type} {levels : Nat}

/-! ## Frugal rules -/

/-- The rule raises the charge only by coming to the end, and then by no more than so many levels.
-/
def Frugal (levels : Nat) ⦃α : Type⦄ (rule : Parse α) : Prop :=
  ∀ c : Cursor, c.Pays levels (ending (rule c))

/-- What is frugal with some levels is so with more. -/
theorem Frugal.mono {more : Nat} {rule : Parse α} (h : Frugal levels rule) (hle : levels ≤ more) :
    Frugal more rule :=
  fun c => (h c).mono hle

/-- A first step that is paid for may be followed by anything frugal. -/
theorem pays_bind {c : Cursor} {x : Parse α} {f : α → Parse β}
    (hx : c.Pays levels (ending (x c))) (hf : ∀ a, Frugal levels (f a)) :
    c.Pays levels (ending ((x >>= f) c)) := by
  cases hread : x c with
  | error fault c' =>
    rw [hread] at hx
    rwa [bind_eq_of_error hread]
  | ok a c' =>
    rw [hread] at hx
    rw [bind_eq_of_ok hread]
    exact hx.trans (hf a c')

/-- Being frugal is kept by all the ways in which rules are put together. -/
theorem compositional_frugal (levels : Nat) : Compositional (Frugal levels) where
  pure _ c := .refl c
  throw _ c := .refl c
  get c := .refl c
  advance c := by
    have hlen : c.advance.upcoming.length ≤ c.upcoming.length := by
      rw [Cursor.upcoming_advance, List.length_tail]
      exact Nat.sub_le _ _
    refine .of_charge_le hlen ?_
    show c.advance.charge ≤ c.charge
    rw [Cursor.charge, Cursor.faultCount_advance]
    exact Nat.add_le_add_left hlen _
  bind hx hf c := pays_bind (hx c) hf

/-- A pass that recovers may pay for one fault more, the one that it records at the end. -/
theorem pays_recovering {rule : Parse α} (h : Frugal levels rule) {c : Cursor}
    (hopen : c.upcoming ≠ []) : c.Pays (levels + 1) (ending (Grammar.recovering rule c)) := by
  have hrule := h c
  unfold Grammar.recovering
  cases hread : rule c with
  | ok a c' =>
    rw [hread] at hrule
    exact hrule.mono (Nat.le_succ _)
  | error fault c' =>
    rw [hread, ending_error] at hrule
    obtain ⟨hlen, hcharge, hadd⟩ := hrule
    have hlen' := (c'.recordFault fault).length_recover
    have hcharge' := c'.charge_recover_le fault
    rw [Cursor.upcoming_recordFault] at hlen'
    rw [ending_ok]
    by_cases hend : c'.upcoming = []
    · refine ⟨by omega, ?_, ?_⟩
      · rintro (hnil | hsome)
        · exact absurd hnil hopen
        · rw [hend] at hlen'
          exact absurd (List.length_eq_zero_iff.1 (Nat.le_zero.1 hlen')) hsome
      · rw [Cursor.charge] at hadd
        rw [hend] at hcharge' hadd
        simp only [List.length_nil] at hcharge' hadd
        omega
    · have hpos := List.length_pos_iff.2 hend
      have hpaid := hcharge (.inr hend)
      rw [Cursor.charge] at hpaid
      exact .of_charge_le (by omega) (by omega)

/-- Passes until the end are frugal if each of them is paid for while tokens are left. -/
theorem frugal_passesAtFuel {stop : Parse Bool} (hstop : StopsAtEnd stop)
    {pass : Parse (Option α)}
    (hpass : ∀ c : Cursor, c.upcoming ≠ [] → c.Pays levels (ending (pass c))) (fuel : Nat) :
    Frugal levels (Grammar.passesAtFuel stop pass fuel) := by
  induction fuel with
  | zero => exact (compositional_frugal levels).pure _
  | succ fuel ih =>
    intro c
    obtain ⟨test, htest, hend⟩ := hstop
    rw [Grammar.passesAtFuel, bind_eq_of_ok (htest c)]
    cases hstops : test c.upcoming with
    | true => exact .refl c
    | false =>
      have hopen : c.upcoming ≠ [] := by
        intro hnil
        rw [hnil, hend] at hstops
        cases hstops
      exact pays_bind (hpass c hopen) fun first =>
        (compositional_frugal levels).bind ih fun rest => (compositional_frugal levels).pure _

end Parse

namespace Grammar

open Parse

variable {rules : Rules} {levels : Nat}

/-- Declarations one after another may cost one level more. -/
theorem frugal_declarationsAtFuel (h : rules.All (Frugal levels)) {stop : Parse Bool}
    (hstop : StopsAtEnd stop) (fuel : Nat) :
    Frugal (levels + 1) (declarationsAtFuel rules stop fuel) := by
  rw [declarationsAtFuel_eq]
  exact frugal_passesAtFuel hstop
    (fun c hopen => pays_recovering ((compositional_frugal levels).declarationRule h) hopen) fuel

/-- A block may cost one level more than the rules inside. -/
theorem frugal_block (h : rules.All (Frugal levels)) : Frugal (levels + 1) (block rules) :=
  (compositional_frugal _).block (frugal_declarationsAtFuel h stopsAtEnd_blockEnds _)

end Grammar

namespace Rules

open Parse

/-- The rules with one level more around them may cost one level more. -/
theorem frugal_outward {inner : Rules} {levels : Nat} (h : inner.All (Frugal levels)) :
    inner.outward.All (Frugal (levels + 1)) := by
  have hP := compositional_frugal (levels + 1)
  have hmore : inner.All (Frugal (levels + 1)) :=
    { statement := h.statement.mono (Nat.le_succ _)
      function := h.function.mono (Nat.le_succ _)
      expression := h.expression.mono (Nat.le_succ _)
      unary := h.unary.mono (Nat.le_succ _) }
  have hblock := Grammar.frugal_block h
  exact
    { statement := hP.statement hmore hblock
      function := hP.function hblock
      expression := hP.expression hmore
      unary := hP.unary hmore }

/-- With so many levels left, no more faults than levels are found at the end. -/
theorem frugal_atLevels (rounds levels : Nat) : (atLevels rounds levels).All (Frugal levels) := by
  induction levels with
  | zero =>
    have hP := compositional_frugal 0
    exact
      { statement := hP.failAt _
        function := hP.failAt _
        expression := hP.failAt _
        unary := hP.failAt _ }
  | succ levels ih => exact frugal_outward ih

end Rules

/-! ## The end of the source -/

namespace Grammar

open Parse

/-- Where passes do not fail, a repetition stops only at the end that its test asks for. -/
theorem passesAtFuel_atEnd {α : Type} {pass : Parse (Option α)}
    (hpass : ∀ c, ∃ found c', pass c = .ok found c') (hshortens : Shortens pass) {fuel : Nat}
    {c : Cursor} (hfuel : c.upcoming.length < fuel) :
    ∃ found c', passesAtFuel atEnd pass fuel c = .ok found c' ∧ c'.upcoming = [] := by
  induction fuel generalizing c with
  | zero => exact absurd hfuel (Nat.not_lt_zero _)
  | succ fuel ih =>
    have hstop : atEnd c = .ok c.upcoming.isEmpty c := rfl
    rw [passesAtFuel, bind_eq_of_ok hstop]
    by_cases hend : c.upcoming = []
    · rw [hend]
      exact ⟨[], c, rfl, hend⟩
    · obtain ⟨first, c₁, hfirst⟩ := hpass c
      have hshort := hshortens c hend
      rw [hfirst, ending_ok] at hshort
      obtain ⟨rest, c₂, hrest, hend₂⟩ := ih (Nat.lt_of_lt_of_le hshort (Nat.le_of_lt_succ hfuel))
      rw [if_neg (by simpa using hend), bind_eq_of_ok hfirst, bind_eq_of_ok hrest]
      exact ⟨_, c₂, rfl, hend₂⟩

/-- A rule that is recovered from always comes to a result. -/
theorem recovering_ok {α : Type} (rule : Parse α) (c : Cursor) :
    ∃ found c', recovering rule c = .ok found c' := by
  unfold recovering
  cases rule c with
  | ok a c' => exact ⟨_, _, rfl⟩
  | error fault c' => exact ⟨_, _, rfl⟩

end Grammar

namespace Cursor

/-- The top level is read to the end of the source, without a fault that is not recorded. -/
theorem topLevel_ends (c : Cursor) :
    ∃ declarations c', c.topLevel c = .ok declarations c' ∧ c'.upcoming = [] := by
  rw [topLevel, Grammar.declarationsAtFuel_eq]
  exact Grammar.passesAtFuel_atEnd (Grammar.recovering_ok _)
    (Grammar.shortens_declaration (Rules.progresses_atLevels _ _)) (Nat.lt_succ_self _)

/-- The faults of the grammar that are found beyond the number of tokens are one for each level and
one for the top level. -/
theorem faultCount_topLevel_le {c c' : Cursor} {declarations : List Stmt}
    (h : c.topLevel c = .ok declarations c') :
    c'.faultCount ≤ c.faultCount + c.upcoming.length + (maxNesting + 1) := by
  have hpays : c.Pays (maxNesting + 1) (Parse.ending (c.topLevel c)) :=
    Grammar.frugal_declarationsAtFuel (Rules.frugal_atLevels _ _) Parse.stopsAtEnd_atEnd _ c
  have hcharge := hpays.charge_le_add
  rw [h, Parse.ending_ok] at hcharge
  exact Nat.le_trans (Nat.le_add_right _ _) hcharge

/-- Once everything has been read, what is left is the empty program. -/
theorem readProgram_of_empty {c : Cursor} (hclosed : c.depth = 0) (hend : c.upcoming = [])
    (hnone : c.problems = #[]) : c.readProgram.1 = .ok ⟨[]⟩ := by
  refine (readProgram_eq_ok_iff hclosed).2 ⟨c, ?_, hnone⟩
  have hstop : Parse.atEnd c = .ok true c := by
    show EStateM.Result.ok c.upcoming.isEmpty c = _
    rw [hend]
    rfl
  rw [topLevel, Grammar.declarationsAtFuel, Parse.bind_eq_of_ok hstop]
  rfl

end Cursor

namespace Lexing

/-- The tokens that the grammar can use are some of those that do not end the source. -/
theorem length_ofTokens_le (tokens : List Token) :
    (ofTokens tokens).tokens.length ≤ (tokens.filter fun t => !t.isEof).length := by
  induction tokens with
  | nil => exact Nat.le_refl _
  | cons t rest ih =>
    have hmore : (rest.filter fun t => !t.isEof).length ≤
        ((t :: rest).filter fun t => !t.isEof).length :=
      ((List.sublist_cons_self t rest).filter _).length_le
    unfold ofTokens
    cases hfault : t.fault? with
    | some fault => exact Nat.le_trans ih hmore
    | none =>
      cases hend : t.isEof with
      | true => exact Nat.le_trans ih hmore
      | false =>
        rw [List.filter_cons_of_pos (by simp [hend])]
        exact Nat.succ_le_succ ih

end Lexing

/-! ## Lexers that are read -/

namespace Cursor

/-- Reading from the cursor ends behind everything, with no level open, and what is read next is the
empty program. -/
structure Finishes (c : Cursor) : Prop where
  upcoming : c.readProgram.2.upcoming = []
  depth : c.readProgram.2.depth = 0
  again : c.readProgram.2.readProgram.1 = .ok ⟨[]⟩

/-- Reading a program finishes from every cursor with no level open. -/
theorem finishes {c : Cursor} (hclosed : c.depth = 0) : c.Finishes := by
  obtain ⟨declarations, c', hread, hend⟩ := c.topLevel_ends
  have hempty : ∀ after : Cursor, after.depth = 0 → after.upcoming = [] → after.problems = #[] →
      c.readProgram.2 = after → c.Finishes := by
    rintro after hdepth hupcoming hnone rfl
    exact ⟨hupcoming, hdepth, readProgram_of_empty hdepth hupcoming hnone⟩
  by_cases hnone : c'.problems = #[]
  · refine hempty (c'.withDepth 0) rfl hend hnone ?_
    rw [readProgram_of_ok hclosed hread, if_pos hnone]
  · refine hempty { c' with problems := #[], depth := 0 } rfl hend rfl ?_
    rw [readProgram_of_ok hclosed hread, if_neg hnone]

/-- No more faults are found than there are tokens, apart from one for each level. -/
theorem length_faults_le {c : Cursor} (hclosed : c.depth = 0) {problems : List Problem}
    (herror : c.readProgram.1 = .error problems) :
    (problems.filter Problem.isGrammatical).length ≤
      c.faultCount + c.upcoming.length + (maxNesting + 1) := by
  obtain ⟨declarations, c', hread, -⟩ := c.topLevel_ends
  have hcount := faultCount_topLevel_le hread
  rw [readProgram_of_ok hclosed hread] at herror
  split at herror
  · cases herror
  · cases herror
    exact hcount

end Cursor

namespace Lexer

/-- Reading what the lexer has left. -/
structure ReadsOut (l : Lexer) : Prop where
  /-- With enough rounds, and rules that are written out often enough, neither their number makes a
  difference nor what there is below: rounds do not run out, and there are never more than
  `maxNesting` levels open. -/
  terminates : ∀ (below : Rules) (times : Nat), (Cursor.ofLexer l).upcoming.length < below.rounds →
    maxNesting < times →
      (Cursor.ofLexer l).readWith (Rules.unfolded below times) = (Cursor.ofLexer l).readProgram
  /-- Each pass of the top level and of a block leaves fewer tokens. -/
  declarations : ∀ rounds times : Nat,
    Parse.Shortens (Grammar.declaration (Rules.unfolded (Rules.exhausted rounds) times))
  /-- Each pass through the body of a class leaves fewer tokens. -/
  methods : ∀ rounds times : Nat,
    Parse.Shortens (Grammar.methodPass (Rules.unfolded (Rules.exhausted rounds) times).function)
  /-- No token is left, no level is open, and what is read again is the empty program. -/
  finishes : (Cursor.ofLexer l).Finishes
  /-- Behind the tokens that were left the lexer gives out nothing. -/
  exhausted : (l.skip l.tokens.length).next = none
  /-- The faults of the grammar are no more than the tokens, the end of the source aside, and the
  levels, and one. -/
  faults : ∀ problems, (Cursor.ofLexer l).readProgram.1 = .error problems →
    (problems.filter Problem.isGrammatical).length ≤
      (l.tokens.filter fun t => !t.isEof).length + (maxNesting + 1)

/-- **Reading comes to an end.** Whatever a source is, and however many of its tokens have been
taken before, all that is left is read. -/
theorem reads_out (source : String) (taken : Nat) : ((ofSource source).skip taken).ReadsOut := by
  generalize (ofSource source).skip taken = l
  have hclosed : (Cursor.ofLexer l).depth = 0 := rfl
  have hprogress : ∀ rounds times, (Rules.unfolded (Rules.exhausted rounds) times).Progresses :=
    fun rounds times => (Rules.progresses_exhausted rounds).unfolded times
  constructor
  case terminates => exact fun below times => Cursor.readWith_unfolded hclosed
  case declarations =>
    exact fun rounds times => Grammar.shortens_declaration (hprogress rounds times)
  case methods =>
    exact fun rounds times => Grammar.shortens_methodPass (hprogress rounds times).steady.function
  case finishes => exact Cursor.finishes hclosed
  case exhausted => exact next_skip_tokensAtFuel (.inr (Nat.lt_succ_self _))
  case faults =>
    intro problems herror
    have hcount := Cursor.length_faults_le hclosed herror
    have hnone : (Cursor.ofLexer l).faultCount = 0 := Cursor.faultCount_recordFaults _ _
    have hlen : (Cursor.ofLexer l).upcoming.length ≤ (l.tokens.filter fun t => !t.isEof).length :=
      Lexing.length_ofTokens_le l.tokens
    omega

end Lexer

end Quill

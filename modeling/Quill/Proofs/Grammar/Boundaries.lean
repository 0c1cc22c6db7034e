import Mathlib.Order.Bounds.Defs
import Quill.Proofs.Grammar.Passing

/-!
# Where reading goes on after a fault

Tokens have indices in the stream of those that the grammar can use, and behind the last of them is
the end of the source. `IsBoundary` says which indices are boundaries of statements, and
`Cursor.LooksAt` which index a cursor looks at.

A declaration that fails does so at some index, which may be inside of any rule that it has come to.
The fault is recorded once, and reading goes on at the least later index that is a boundary, with the
levels open that were open before the declaration (`declaration_resumes`). The steps to this are that
rules only move forward (`Rules.moves_unfolded`) and that recovery stops at the first boundary that it
comes to (`isLeast_toBoundary`).
-/

namespace Quill

/-! ## Boundaries -/

/-- The words that start a declaration or statement. -/
def openingWords : List Keyword :=
  [.classWord, .fnWord, .letWord, .ifWord, .whileWord, .printWord, .returnWord]

/-- The tokens of a stream that the grammar can use, without the end of the source. -/
def usableTokens (tokens : List Token) : List Token :=
  tokens.filter fun t => !t.isUnknown && !t.isEof

/-- The kind of the token at an index. Behind the last token is the end of the source. -/
def kindAt (stream : List Token) (index : Nat) : Kind :=
  (stream[index]?.map Token.kind).getD .eof

/-- A declaration or statement may start at the index: the end is there, or a semicolon is directly
in front of it, or a word is there that starts one. -/
def IsBoundary (stream : List Token) (index : Nat) : Prop :=
  kindAt stream index = .eof ∨ kindAt stream (index - 1) = .symbol .semicolon
    ∨ ∃ k ∈ openingWords, kindAt stream index = .keyword k

@[simp] theorem kindAt_cons_zero (t : Token) (stream : List Token) :
    kindAt (t :: stream) 0 = t.kind := rfl

@[simp] theorem kindAt_cons_succ (t : Token) (stream : List Token) (index : Nat) :
    kindAt (t :: stream) (index + 1) = kindAt stream index := rfl

/-- The kinds of what is left of a stream are those of the stream, further on. -/
theorem kindAt_drop (stream : List Token) (n index : Nat) :
    kindAt (stream.drop n) index = kindAt stream (n + index) := by
  rw [kindAt, kindAt, List.getElem?_drop]

/-- Among tokens that do not end the source, the end is behind the last one and nowhere before. -/
theorem kindAt_eq_eof_iff {stream : List Token} (h : ∀ t ∈ stream, t.kind ≠ .eof) {index : Nat} :
    kindAt stream index = .eof ↔ stream.length ≤ index := by
  rw [kindAt]
  cases hget : stream[index]? with
  | none => simpa using hget
  | some t =>
    obtain ⟨hlt, -⟩ := List.getElem?_eq_some_iff.1 hget
    have hkind := h t (List.mem_of_getElem? hget)
    simpa [hkind] using hlt

/-- The end of the stream is never among the tokens that a parser gets to use. -/
theorem kind_ne_eof_of_mem_usableTokens {tokens : List Token} {t : Token}
    (h : t ∈ usableTokens tokens) : t.kind ≠ .eof := by
  have hkept := (List.mem_filter.1 h).2
  simp only [Bool.and_eq_true, Bool.not_eq_true', Token.isEof, beq_eq_false_iff_ne] at hkept
  exact hkept.2

/-- Whether a later index is a boundary does not depend on what is passed before. -/
theorem isBoundary_drop {stream : List Token} {n index : Nat} (hpos : 0 < index) :
    IsBoundary (stream.drop n) index ↔ IsBoundary stream (n + index) := by
  have hprevious : n + (index - 1) = n + index - 1 := by omega
  rw [IsBoundary, IsBoundary, kindAt_drop, kindAt_drop, hprevious]

namespace Grammar

/-- The words that open a statement are the ones that recovery stops in front of. -/
theorem startsStatement_iff {t : Lexed} :
    startsStatement t = true ↔ ∃ k ∈ openingWords, t.token.kind = .keyword k := by
  unfold startsStatement
  cases t.token.kind with
  | keyword k => cases k <;> simp [openingWords]
  | _ => simp

/-- The first index behind `passed` is a boundary exactly if recovery stops there. -/
theorem isBoundary_one_iff (passed : Lexed) {t : Lexed} (stream : List Token)
    (hopen : t.token.kind ≠ .eof) :
    IsBoundary (passed.token :: t.token :: stream) 1 ↔
      (endsStatement passed || startsStatement t) = true := by
  rw [Bool.or_eq_true, startsStatement_iff, endsStatement, beq_iff_eq]
  simp [IsBoundary, hopen]

/-- Recovery stops at the first boundary behind `passed`. -/
theorem isLeast_toBoundary (passed : Lexed) {rest : List Lexed}
    (hopen : ∀ t ∈ rest, t.token.kind ≠ .eof) :
    IsLeast {r | 0 < r ∧ IsBoundary (passed.token :: rest.map Lexed.token) r}
      ((toBoundary passed rest).1.length + 1) := by
  induction rest generalizing passed with
  | nil => exact ⟨⟨Nat.succ_pos _, .inl rfl⟩, fun r hr => hr.1⟩
  | cons t rest ih =>
    have hfirst := isBoundary_one_iff passed (rest.map Lexed.token) (hopen t List.mem_cons_self)
    rw [toBoundary]
    split
    · next hstops => exact ⟨⟨Nat.succ_pos _, hfirst.2 hstops⟩, fun r hr => hr.1⟩
    · next hgoes =>
      obtain ⟨⟨hpos, hboundary⟩, hleast⟩ := ih t fun u hu => hopen u (List.mem_cons_of_mem _ hu)
      have hshift : ∀ {index}, 0 < index →
          (IsBoundary (t.token :: rest.map Lexed.token) index ↔
            IsBoundary (passed.token :: t.token :: rest.map Lexed.token) (index + 1)) := by
        intro index hindex
        rw [Nat.add_comm index 1, ← isBoundary_drop hindex]
        rfl
      refine ⟨⟨Nat.succ_pos _, (hshift hpos).1 hboundary⟩, ?_⟩
      rintro r ⟨hr, hrboundary⟩
      obtain ⟨r, rfl⟩ := Nat.exists_eq_succ_of_ne_zero (Nat.ne_of_gt hr)
      -- The index 1 is no boundary, so the boundary is one behind `t`.
      have hbehind : 0 < r := by
        rcases Nat.eq_zero_or_pos r with rfl | hbehind
        · exact absurd (hfirst.1 hrboundary) hgoes
        · exact hbehind
      exact Nat.succ_le_succ (hleast ⟨hbehind, (hshift hbehind).2 hrboundary⟩)

end Grammar

/-! ## What a cursor looks at -/

namespace Cursor

/-- The next token is the one at an index of a stream, and the others that are left are those behind
it. -/
structure LooksAt (c : Cursor) (stream : List Token) (index : Nat) : Prop where
  upcoming : c.upcoming.map Lexed.token = stream.drop index
  le_length : index ≤ stream.length

/-- Taking the lexical faults apart leaves the usable tokens as they were. -/
theorem map_token_ofTokens (tokens : List Token) :
    (Lexing.ofTokens tokens).tokens.map Lexed.token = usableTokens tokens := by
  induction tokens with
  | nil => rfl
  | cons t rest ih =>
    rw [Lexing.ofTokens, usableTokens, List.filter_cons, ← usableTokens, ← ih, Token.fault?]
    cases t.isUnknown with
    | true => rfl
    | false =>
      cases t.isEof with
      | true => rfl
      | false => rfl

/-- Reading starts at the first token that the grammar can use. -/
theorem looksAt_ofLexer (l : Lexer) : (ofLexer l).LooksAt (usableTokens l.tokens) 0 :=
  ⟨map_token_ofTokens l.tokens, Nat.zero_le _⟩

namespace LooksAt

variable {c c' : Cursor} {stream : List Token} {index : Nat}

/-- Behind the tokens that are passed are those at later indices. -/
theorem passes {passed : List Lexed} (h : c.LooksAt stream index)
    (hpassed : c.upcoming = passed ++ c'.upcoming) :
    c'.LooksAt stream (index + passed.length) := by
  have hupcoming := h.upcoming
  rw [hpassed, List.map_append] at hupcoming
  constructor
  · rw [← List.drop_drop, ← hupcoming, List.drop_left' (List.length_map _)]
  · have hlen := congrArg List.length hupcoming
    have hle := h.le_length
    simp only [List.length_append, List.length_map, List.length_drop] at hlen
    omega

/-- As many tokens are ahead as the stream has from here on. -/
theorem length_upcoming (h : c.LooksAt stream index) :
    c.upcoming.length = stream.length - index := by
  rw [← List.length_drop, ← h.upcoming, List.length_map]

/-- A rule that only moves on looks at a later place of the same stream. -/
theorem moves (h : c.LooksAt stream index) (hmoves : c.Moves c') :
    ∃ later, index ≤ later ∧ c'.LooksAt stream later := by
  obtain ⟨passed, hpassed, -⟩ := hmoves
  exact ⟨_, Nat.le_add_right _ _, h.passes hpassed⟩

/-- No token ahead of such a cursor is the end of the stream. -/
theorem kind_ne_eof {tokens : List Token} (h : c.LooksAt (usableTokens tokens) index) :
    ∀ t ∈ c.upcoming, t.token.kind ≠ .eof := by
  intro t ht
  have hmem : t.token ∈ (usableTokens tokens).drop index :=
    h.upcoming ▸ List.mem_map_of_mem ht
  exact kind_ne_eof_of_mem_usableTokens (List.mem_of_mem_drop hmem)

/-- No token is left exactly if the cursor looks at the end. -/
theorem upcoming_eq_nil_iff {tokens : List Token} (h : c.LooksAt (usableTokens tokens) index) :
    c.upcoming = [] ↔ kindAt (usableTokens tokens) index = .eof := by
  rw [kindAt_eq_eof_iff fun t => kind_ne_eof_of_mem_usableTokens, ← List.drop_eq_nil_iff,
    ← h.upcoming, List.map_eq_nil_iff]

end LooksAt

/-- Recovery from a fault that is found at an index: where it goes on, and what it records on the
way. -/
theorem LooksAt.recover {c : Cursor} {tokens : List Token} {index : Nat}
    (h : c.LooksAt (usableTokens tokens) index) :
    ∃ r, (Grammar.recover c).LooksAt (usableTokens tokens) r
      ∧ (kindAt (usableTokens tokens) index = .eof → r = index)
      ∧ (kindAt (usableTokens tokens) index ≠ .eof →
          IsLeast {r | index < r ∧ IsBoundary (usableTokens tokens) r} r)
      ∧ (Grammar.recover c).problems.toList = c.problems.toList ++
          ((c.upcoming.take (r - index)).flatMap Lexed.faults).map Problem.lexical := by
  have hend := h.upcoming_eq_nil_iff
  have hopen := h.kind_ne_eof
  have hupcoming := h.upcoming
  unfold Grammar.recover
  cases hleft : c.upcoming with
  | nil =>
    refine ⟨index, h, fun _ => rfl, fun hsome => absurd (hend.1 hleft) hsome, ?_⟩
    simp
  | cons t rest =>
    rw [hleft] at hopen hupcoming hend
    have hall := toBoundary_append t rest
    have hleast := Grammar.isLeast_toBoundary t fun u hu => hopen u (List.mem_cons_of_mem _ hu)
    have hstream : t.token :: rest.map Lexed.token = (usableTokens tokens).drop index := hupcoming
    rw [hstream] at hleast
    dsimp only
    generalize (Grammar.toBoundary t rest).1 = more at *
    generalize (Grammar.toBoundary t rest).2 = left at *
    refine ⟨index + (more.length + 1), ?_, ?_, ?_, ?_⟩
    · have hpast : c.upcoming = (t :: more) ++
          (recordFaults { c with upcoming := left } ((t :: more).flatMap Lexed.faults)).upcoming := by
        rw [hleft, upcoming_recordFaults, List.cons_append, hall]
      exact h.passes hpast
    · exact fun hnone => absurd (hend.2 hnone) (List.cons_ne_nil _ _)
    · intro _
      obtain ⟨⟨hpos, hboundary⟩, hlower⟩ := hleast
      refine ⟨⟨Nat.lt_add_of_pos_right hpos, (isBoundary_drop hpos).1 hboundary⟩, ?_⟩
      rintro r ⟨hr, hrboundary⟩
      obtain ⟨k, rfl⟩ := Nat.exists_eq_add_of_lt hr
      rw [Nat.add_assoc] at hrboundary ⊢
      have hk := (isBoundary_drop (Nat.succ_pos k)).2 hrboundary
      exact Nat.add_le_add_left (hlower ⟨Nat.succ_pos k, hk⟩) _
    · have hpassed : (t :: rest).take (index + (more.length + 1) - index) = t :: more := by
        rw [Nat.add_sub_cancel_left, ← hall, ← List.cons_append]
        exact List.take_left' rfl
      rw [problems_recordFaults, hpassed]

end Cursor

/-! ## Rules only move forward -/

namespace Parse

/-- Counting a level of nesting moves only as the rule inside does. -/
theorem moves_nested {α : Type} {rule : Parse α} (h : Moves rule) :
    Moves (Grammar.nested rule) := by
  intro c
  unfold Grammar.nested
  split
  · exact compositional_moves.failAt _ c
  · have hrule : c.Moves (ending (rule { c with depth := c.depth + 1 })) :=
      h { c with depth := c.depth + 1 }
    cases hread : rule { c with depth := c.depth + 1 } with
    | ok a c' =>
      rw [hread] at hrule
      exact hrule
    | error fault c' =>
      rw [hread] at hrule
      exact hrule

end Parse

namespace Rules

open Parse

/-- Counting the levels of every rule leaves them all moving on only. -/
theorem moves_counted {inner : Rules} (h : inner.All Moves) : inner.counted.All Moves where
  statement := moves_nested (moves_outward h).statement
  function := moves_nested (moves_outward h).function
  expression := moves_nested (moves_outward h).expression
  unary := moves_nested (moves_outward h).unary

/-- Rules unfolded any number of times move on only. -/
theorem moves_unfolded {below : Rules} (h : below.All Moves) (times : Nat) :
    (unfolded below times).All Moves := by
  induction times with
  | zero => exact h
  | succ times ih => exact moves_counted ih

end Rules

/-! ## Declarations that fail -/

/-- **Reading goes on at the earliest boundary.** Let a declaration be read from any cursor on a
stream of tokens, with rules that are written out any number of times. If it fails at index `e`, its
fault is recorded once, and behind it only the lexical faults between the tokens that are passed over
from there. Reading goes on at `e` if that is the end, and else at the least later index that is a
boundary of statements; as many levels are open as before the declaration. -/
theorem declaration_resumes {tokens : List Token} {rounds times index : Nat} {c failed : Cursor}
    {fault : GrammarFault} (hlooks : c.LooksAt (usableTokens tokens) index)
    (hfails : Grammar.declarationRule (Rules.unfolded (Rules.exhausted rounds) times) c =
      .error fault failed) :
    ∃ e r resumed,
      Grammar.declaration (Rules.unfolded (Rules.exhausted rounds) times) c = .ok none resumed
        ∧ index ≤ e ∧ failed.LooksAt (usableTokens tokens) e
        ∧ resumed.LooksAt (usableTokens tokens) r
        ∧ (kindAt (usableTokens tokens) e = .eof → r = e)
        ∧ (kindAt (usableTokens tokens) e ≠ .eof →
            IsLeast {r | e < r ∧ IsBoundary (usableTokens tokens) r} r)
        ∧ resumed.problems.toList = failed.problems.toList ++ .grammatical fault ::
            ((failed.upcoming.take (r - e)).flatMap Lexed.faults).map Problem.lexical
        ∧ resumed.depth = c.depth := by
  have hprogress := (Rules.progresses_exhausted rounds).unfolded times
  have hexhausted : (Rules.exhausted rounds).All Parse.Moves := Rules.moves_atLevels rounds 0
  have hsteady := Parse.compositional_steady.declarationRule hprogress.steady
  have hmoves := Parse.compositional_moves.declarationRule
    (Rules.moves_unfolded hexhausted times) c
  rw [hfails, Parse.ending_error] at hmoves
  obtain ⟨e, hle, hfailed⟩ := hlooks.moves hmoves
  have hrecorded : (failed.recordFault fault).LooksAt (usableTokens tokens) e :=
    ⟨hfailed.upcoming, hfailed.le_length⟩
  obtain ⟨r, hresumed, hstays, hleast, hproblems⟩ := hrecorded.recover
  refine ⟨e, r, _, ?_, hle, hfailed, hresumed, hstays, hleast, ?_, ?_⟩
  · rw [Grammar.declaration, Grammar.recovering, hfails]
  · rw [hproblems, Cursor.problems_recordFault, Cursor.upcoming_recordFault, List.append_assoc]
    rfl
  · rw [Cursor.depth_recover, Cursor.depth_recordFault]
    exact (hsteady.of_error hfails).1

/-- A condition that is not closed fails at a semicolon. Reading goes on directly behind it, though
the parenthesis there starts nothing, and the stray character in between is recorded on the way. -/
theorem declaration_resumes_semicolon :
    ∃ failed resumed,
      Grammar.declarationRule (Rules.unfolded (Rules.exhausted 8) 3)
          (.ofLexer (.ofSource "if (a ; # ) b;")) =
        .error ⟨.expected .ifClose (some ";"), 1⟩ failed
      ∧ Grammar.declaration (Rules.unfolded (Rules.exhausted 8) 3)
          (.ofLexer (.ofSource "if (a ; # ) b;")) = .ok none resumed
      ∧ failed.LooksAt (usableTokens (tokenize "if (a ; # ) b;")) 3
      ∧ resumed.LooksAt (usableTokens (tokenize "if (a ; # ) b;")) 4 := by
  have hlooks : (Cursor.ofLexer (.ofSource "if (a ; # ) b;")).LooksAt
      (usableTokens (tokenize "if (a ; # ) b;")) 0 := Cursor.looksAt_ofLexer _
  have hread : ∀ result, Grammar.declarationRule (Rules.unfolded (Rules.exhausted 8) 3)
      (.ofLexer (.ofSource "if (a ; # ) b;")) = result →
        Parse.report result = [.grammatical ⟨.expected .ifClose (some ";"), 1⟩]
          ∧ (Parse.ending result).problems = #[] ∧ (Parse.ending result).upcoming.length = 4 := by
    rintro _ rfl
    decide +kernel
  have hstream : (usableTokens (tokenize "if (a ; # ) b;")).length = 7
      ∧ kindAt (usableTokens (tokenize "if (a ; # ) b;")) 3 = .symbol .semicolon := by
    decide +kernel
  cases hresult : Grammar.declarationRule (Rules.unfolded (Rules.exhausted 8) 3)
      (.ofLexer (.ofSource "if (a ; # ) b;")) with
  | ok s c =>
    obtain ⟨hreport, hnone, -⟩ := hread _ hresult
    rw [Parse.report_ok, show c.problems = #[] from hnone] at hreport
    cases hreport
  | error fault failed =>
    obtain ⟨hreport, hnone, hleft⟩ := hread _ hresult
    rw [Parse.report_error, show failed.problems = #[] from hnone] at hreport
    obtain ⟨e, r, resumed, hresumes, -, hfailed, hresumed, -, hleast, -⟩ :=
      declaration_resumes hlooks hresult
    obtain rfl : e = 3 := by
      have hlen := hfailed.length_upcoming
      rw [show failed.upcoming.length = 4 from hleft, hstream.1] at hlen
      omega
    obtain ⟨⟨hlater, -⟩, hlower⟩ := hleast (by rw [hstream.2]; exact nofun)
    have hfour : r ≤ 4 := hlower ⟨by decide, .inr (.inl hstream.2)⟩
    obtain rfl : r = 4 := by omega
    obtain rfl : fault = ⟨.expected .ifClose (some ";"), 1⟩ := by simpa using hreport
    exact ⟨failed, resumed, rfl, hresumes, hfailed, hresumed⟩

end Quill

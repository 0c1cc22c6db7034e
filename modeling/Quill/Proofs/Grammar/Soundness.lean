import Quill.Proofs.Grammar.Levels
import Quill.Proofs.Grammar.Shape
import Quill.Proofs.Grammar.Spelling
import Quill.Proofs.Token.Lexemes

/-!
# What the rules yield is spelled by what they passed

A rule that yields a tree has passed tokens, and these spell the tree. This holds of runs that end
without a problem, and only of these: a rule that recovers passes tokens which no tree holds, but it
records a problem first, and problems are never forgotten.

* `Parse.YieldsFrom`: what a rule yields from a cursor, on runs without problems. The lemmas about
  it follow the way rules are put together, so each rule has one statement and is not opened again.
* `Grammar.Reads`, `Grammar.ReadsStatement`, `Grammar.ReadsDeclaration`: what is said of the tree
  and the tokens passed. For a statement this includes the token behind it: an `else` there would
  have been taken.
* `Rules.Sound`: all rules of a table, and `Rules.atLevels_sound`, by induction on the levels.
* `parse_sound`: the tokens of a source that is read spell the program.
-/

namespace Quill

namespace Parse

variable {α β : Type}

/-! ## Yields -/

/-- Whenever the rule yields a value from a cursor and no problem is known by then, it has passed
tokens without faults behind them, and these satisfy a condition with the value and the cursor
reached. -/
def YieldsFrom (c : Cursor) (rule : Parse α) (Q : α → List Token → Cursor → Prop) : Prop :=
  ∀ a c', rule c = .ok a c' → c'.problems = #[] →
    ∃ ts, c.upcoming = ts.map Lexed.bare ++ c'.upcoming ∧ Q a ts c'

variable {c : Cursor} {Q R : α → List Token → Cursor → Prop} {S : β → List Token → Cursor → Prop}

/-- What is left when tokens have been passed is no more than there was. -/
theorem length_le_of_passed {c c' : Cursor} {ts : List Token}
    (h : c.upcoming = ts.map Lexed.bare ++ c'.upcoming) :
    c'.upcoming.length + ts.length = c.upcoming.length := by
  rw [h, List.length_append, List.length_map, Nat.add_comm]

/-- A condition may be weakened, and made to depend on how many tokens are left. -/
theorem YieldsFrom.mono {rule : Parse α} (h : YieldsFrom c rule Q)
    (hQR : ∀ a ts c', c'.upcoming.length + ts.length = c.upcoming.length → Q a ts c' → R a ts c') :
    YieldsFrom c rule R := by
  intro a c' hok hnone
  obtain ⟨ts, hts, hQ⟩ := h a c' hok hnone
  exact ⟨ts, hts, hQR a ts c' (length_le_of_passed hts) hQ⟩

/-- Yielding a value passes no token. -/
theorem yieldsFrom_pure {a : α} (h : Q a [] c) : YieldsFrom c (pure a) Q := by
  intro b c' hok _
  cases hok
  exact ⟨[], rfl, h⟩

/-- A rule that fails yields nothing. -/
theorem yieldsFrom_throw {fault : GrammarFault} : YieldsFrom c (throw fault) Q := by
  intro a c' hok _
  cases hok

/-- If no problem is known at the end, none was known before. -/
theorem Grows.problems_eq_empty {rule : Parse α} (h : Grows rule) {a : α} {c c' : Cursor}
    (hok : rule c = .ok a c') (hnone : c'.problems = #[]) : c.problems = #[] := by
  have grown := h.grows c
  rw [hok, report_ok, hnone] at grown
  simpa using grown

/-- Two rules one after the other: the second starts where the first ends, and what has been passed
by then is put in front of what the second passes. -/
theorem YieldsFrom.bind_passed {x : Parse α} {f : α → Parse β} (hx : YieldsFrom c x Q)
    (hgrows : ∀ a, Grows (f a))
    (hf : ∀ a ts c₁, c.upcoming = ts.map Lexed.bare ++ c₁.upcoming → Q a ts c₁ →
      YieldsFrom c₁ (f a) fun b us c' => S b (ts ++ us) c') : YieldsFrom c (x >>= f) S := by
  intro b c' hok hnone
  obtain ⟨a, c₁, hx', hf'⟩ := bind_eq_ok.1 hok
  have hnone₁ : c₁.problems = #[] := (hgrows a).problems_eq_empty hf' hnone
  obtain ⟨ts, hts, hQ⟩ := hx a c₁ hx' hnone₁
  obtain ⟨us, hus, hS⟩ := hf a ts c₁ hts hQ b c' hf' hnone
  refine ⟨ts ++ us, ?_, hS⟩
  rw [hts, hus, List.map_append, List.append_assoc]

/-- Rules one after another pass the tokens of the first and then those of the second. -/
theorem YieldsFrom.bind_of {x : Parse α} {f : α → Parse β} (hx : YieldsFrom c x Q)
    (hgrows : ∀ a, Grows (f a))
    (hf : ∀ a ts c₁, c₁.upcoming.length + ts.length = c.upcoming.length → Q a ts c₁ →
      YieldsFrom c₁ (f a) fun b us c' => S b (ts ++ us) c') : YieldsFrom c (x >>= f) S :=
  hx.bind_passed hgrows fun a ts c₁ hts => hf a ts c₁ (length_le_of_passed hts)

/-- Rules one after another pass their tokens one after another, for rules known to grow. -/
theorem YieldsFrom.bind {x : Parse α} {f : α → Parse β} (hx : YieldsFrom c x Q)
    (hf : ∀ a ts c₁, c₁.upcoming.length + ts.length = c.upcoming.length → Q a ts c₁ →
      YieldsFrom c₁ (f a) fun b us c' => S b (ts ++ us) c')
    [hgrows : ∀ a, Grows (f a)] : YieldsFrom c (x >>= f) S :=
  hx.bind_of hgrows hf

/-- A rule that only looks at the cursor passes nothing. -/
theorem yieldsFrom_bind_look {x : Parse α} {f : α → Parse β} {a : α} (hx : x c = .ok a c)
    (h : YieldsFrom c (f a) S) : YieldsFrom c (x >>= f) S := by
  intro b c' hok hnone
  rw [bind_eq_of_ok hx] at hok
  exact h b c' hok hnone

/-! ## Primitives -/

/-- Passing a token without recording a problem passes that token alone. -/
theorem upcoming_of_advance {t : Token} (ht : c.current? = some t)
    (hnone : c.advance.problems = #[]) : c.upcoming = Lexed.bare t :: c.advance.upcoming := by
  unfold Cursor.current? at ht
  unfold Cursor.advance at hnone ⊢
  cases hup : c.upcoming with
  | nil => rw [hup] at ht; cases ht
  | cons passed rest =>
    obtain ⟨token, faults⟩ := passed
    rw [hup] at ht hnone
    cases ht
    cases faults with
    | nil => rfl
    | cons fault faults => simp [Cursor.recordFaults] at hnone

/-- Moving past a token passes that token. -/
theorem yieldsFrom_advance {t : Token} (ht : c.current? = some t) :
    YieldsFrom c advance fun _ ts _ => ts = [t] := by
  intro a c' hok hnone
  cases hok
  exact ⟨[t], upcoming_of_advance ht hnone, rfl⟩

/-- Taking a token that passes a test passes it, or none if the next one fails. -/
theorem yieldsFrom_acceptIf? (test : Kind → Bool) :
    YieldsFrom c (acceptIf? test) fun found ts c' =>
      (∃ t, found = some t ∧ test t.kind = true ∧ ts = [t])
        ∨ (found = none ∧ ts = [] ∧ c' = c
          ∧ ∀ t, c.current? = some t → test t.kind = false) := by
  intro found c' hok hnone
  rw [acceptIf?_eq] at hok
  split at hok
  · next t ht =>
    split at hok
    · next htest =>
      cases hok
      exact ⟨[t], upcoming_of_advance ht hnone, .inl ⟨t, rfl, htest, rfl⟩⟩
    · next htest =>
      cases hok
      refine ⟨[], rfl, .inr ⟨rfl, rfl, rfl, fun u hu => ?_⟩⟩
      rw [ht] at hu
      cases hu
      simpa using htest
  · next ht =>
    cases hok
    refine ⟨[], rfl, .inr ⟨rfl, rfl, rfl, fun u hu => ?_⟩⟩
    rw [ht] at hu
    cases hu

/-- Accepting a kind passes a token of that kind, or none if the next one has another. -/
theorem yieldsFrom_accept (kind : Kind) :
    YieldsFrom c (accept kind) fun found ts c' =>
      (found = true ∧ ∃ t, t.kind = kind ∧ ts = [t])
        ∨ (found = false ∧ ts = [] ∧ c' = c ∧ ∀ t, c.current? = some t → t.kind ≠ kind) := by
  refine (yieldsFrom_acceptIf? _).bind fun found ts c₁ _ h => yieldsFrom_pure ?_
  rw [List.append_nil]
  rcases h with ⟨t, rfl, ht, rfl⟩ | ⟨rfl, rfl, rfl, hnext⟩
  · exact .inl ⟨rfl, t, by simpa using ht, rfl⟩
  · exact .inr ⟨rfl, rfl, rfl, fun t ht => by simpa using hnext t ht⟩

/-- Failing at the next token yields nothing. -/
theorem yieldsFrom_failAt {cause : Option String → GrammarCause} :
    YieldsFrom c (failAt cause) Q := by
  intro a c' hok _
  cases hok

/-- Expecting a kind passes a token of that kind. -/
theorem yieldsFrom_expect (kind : Kind) (what : Expectation) :
    YieldsFrom c (expect kind what) fun t ts _ => t.kind = kind ∧ ts = [t] := by
  refine (yieldsFrom_acceptIf? _).bind_of (fun found => ?_) fun found ts c₁ _ h => ?_
  · split
    · infer_instance
    · infer_instance
  · rcases h with ⟨t, rfl, ht, rfl⟩ | ⟨rfl, rfl, -⟩
    · exact yieldsFrom_pure ⟨by simpa using ht, rfl⟩
    · exact yieldsFrom_failAt

/-- Expecting a name passes a token of that name. -/
theorem yieldsFrom_expectName (what : Expectation) :
    YieldsFrom c (expectName what) fun n ts _ => ∃ t, (Mark.name n).Admits t ∧ ts = [t] := by
  refine (yieldsFrom_expect _ _).bind fun t ts c₁ _ h => yieldsFrom_pure ?_
  obtain ⟨hkind, rfl⟩ := h
  exact ⟨t, ⟨hkind, rfl, rfl⟩, rfl⟩

/-- Looking for a kind passes no token. -/
theorem yieldsFrom_sees (kind : Kind) :
    YieldsFrom c (sees kind) fun found ts c' =>
      ts = [] ∧ c' = c ∧ found = (c.current?.map Token.kind == some kind) := by
  intro found c' hok _
  cases hok
  exact ⟨[], rfl, rfl, rfl, rfl⟩

/-- Asking for the end passes no token. -/
theorem yieldsFrom_atEnd :
    YieldsFrom c atEnd fun found ts c' => ts = [] ∧ c' = c ∧ found = c.upcoming.isEmpty := by
  intro found c' hok _
  cases hok
  exact ⟨[], rfl, rfl, rfl, rfl⟩

end Parse

/-! ## Expressions -/

namespace Grammar

open Parse

/-- The tokens spell a well-formed expression of a tier or a tighter one. -/
structure Reads (tier : Nat) (e : Expr) (ts : List Token) : Prop where
  spells : Spells e.spelling ts
  wellFormed : e.wellFormed = true
  tier_le : tier ≤ e.tier

/-- The tokens spell what a well-formed expression has behind another one. -/
structure Extends (tier : Nat) (first e : Expr) (ts : List Token) : Prop where
  spells : ∃ more, e.spelling = first.spelling ++ more ∧ Spells more ts
  wellFormed : e.wellFormed = true
  tier_le : tier ≤ e.tier

/-- An expression extends itself with no tokens. -/
theorem Extends.refl {tier : Nat} {e : Expr} (hwf : e.wellFormed = true) (htier : tier ≤ e.tier) :
    Extends tier e e [] :=
  ⟨⟨[], (List.append_nil _).symm, spells_nil.2 rfl⟩, hwf, htier⟩

/-- An expression that extends another, which itself has tokens behind a third. -/
theorem Extends.of_step {tier : Nat} {first second e : Expr} {more : List Mark}
    {ts us : List Token} (hstep : second.spelling = first.spelling ++ more) (hts : Spells more ts)
    (h : Extends tier second e us) : Extends tier first e (ts ++ us) := by
  obtain ⟨⟨rest, hrest, hus⟩, hwf, htier⟩ := h
  refine ⟨⟨more ++ rest, ?_, hts.append hus⟩, hwf, htier⟩
  rw [hrest, hstep, List.append_assoc]

/-- What spells an expression and what extends it spell the whole. -/
theorem Extends.reads {tier : Nat} {first e : Expr} {ts us : List Token}
    (h : Extends tier first e us) (hts : Spells first.spelling ts) : Reads tier e (ts ++ us) := by
  obtain ⟨⟨more, hmore, hus⟩, hwf, htier⟩ := h
  refine ⟨?_, hwf, htier⟩
  rw [hmore]
  exact hts.append hus

/-- The rule yields only expressions of a tier that the tokens passed spell, as long as fewer tokens
are left than `rounds`. -/
def SoundAt (rounds tier : Nat) (rule : Parse Expr) : Prop :=
  ∀ c : Cursor, c.upcoming.length < rounds → YieldsFrom c rule fun e ts _ => Reads tier e ts

/-- Items with commas between them, at least one. -/
theorem yieldsFrom_separatedAtFuel {α : Type} {item : Parse α} [Grows item] {tooMany : GrammarCause}
    {spelling : α → List Mark} {good : α → Prop} {rounds : Nat}
    (hitem : ∀ c : Cursor, c.upcoming.length < rounds →
      YieldsFrom c item fun a ts _ => Spells (spelling a) ts ∧ good a) :
    ∀ (fuel count : Nat) (c : Cursor), c.upcoming.length < fuel → c.upcoming.length < rounds →
      YieldsFrom c (separatedAtFuel item tooMany fuel count) fun as ts _ =>
        Spells (commaSeparated (as.map spelling)) ts ∧ (∀ a ∈ as, good a)
          ∧ as ≠ [] ∧ as.length + count ≤ maxArity
  | 0, _, _, hfuel, _ => absurd hfuel (Nat.not_lt_zero _)
  | fuel + 1, count, c, hfuel, hrounds => by
    unfold separatedAtFuel
    by_cases hcount : maxArity ≤ count
    · rw [if_pos hcount]
      intro as c' hok
      cases hok
    · rw [if_neg hcount]
      refine (hitem c hrounds).bind fun first ts c₁ hle hpost => ?_
      obtain ⟨hspell, hgood⟩ := hpost
      refine (yieldsFrom_accept _).bind fun found us c₂ hle₂ hfound => ?_
      rcases hfound with ⟨rfl, comma, hcomma, rfl⟩ | ⟨rfl, rfl, -⟩
      · rw [if_pos rfl]
        rw [List.length_singleton] at hle₂
        refine (yieldsFrom_separatedAtFuel hitem fuel (count + 1) c₂ (by omega) (by omega)).bind
          fun rest vs c₃ _ hpost => ?_
        obtain ⟨hrest, hgoods, hne, hlen⟩ := hpost
        refine yieldsFrom_pure ?_
        refine ⟨?_, ?_, by simp, by rw [List.length_cons]; omega⟩
        · obtain ⟨second, others, rfl⟩ := List.exists_cons_of_ne_nil hne
          rw [List.append_nil]
          exact hspell.append (Spells.cons hcomma hrest)
        · intro a ha
          rcases List.mem_cons.1 ha with rfl | ha
          · exact hgood
          · exact hgoods a ha
      · rw [if_neg Bool.false_ne_true]
        refine yieldsFrom_pure ⟨?_, ?_, by simp, by rw [List.length_singleton]; omega⟩
        · rw [List.append_nil, List.append_nil]
          exact hspell
        · intro a ha
          rw [List.mem_singleton.1 ha]
          exact hgood

/-- A list in parentheses yields only items that are good, with few enough of them. -/
theorem yieldsFrom_separated {α : Type} {item : Parse α} [Grows item] {tooMany : GrammarCause}
    {spelling : α → List Mark} {good : α → Prop} {rounds : Nat}
    (hitem : ∀ c : Cursor, c.upcoming.length < rounds →
      YieldsFrom c item fun a ts _ => Spells (spelling a) ts ∧ good a)
    {c : Cursor} (hrounds : c.upcoming.length < rounds) :
    YieldsFrom c (separated rounds item tooMany) fun as ts _ =>
      Spells (commaSeparated (as.map spelling)) ts ∧ (∀ a ∈ as, good a)
        ∧ as.length ≤ maxArity := by
  refine (yieldsFrom_sees _).bind fun found ts c₁ _ hpost => ?_
  obtain ⟨hts, hc, -⟩ := hpost
  subst hts hc
  split
  · exact yieldsFrom_pure ⟨spells_nil.2 rfl, List.forall_mem_nil _, Nat.zero_le _⟩
  · refine (yieldsFrom_separatedAtFuel hitem rounds 0 c₁ hrounds hrounds).mono
      fun as ts c' _ hpost => ?_
    obtain ⟨hspell, hgood, -, hlen⟩ := hpost
    exact ⟨hspell, hgood, hlen⟩

/-- A literal is taken from a token of its own kind. -/
theorem kind_of_literal? {kind : Kind} {value : Literal} (h : literal? kind = some value) :
    value.kind = kind := by
  unfold literal? at h
  split at h
  all_goals first
    | (cases h; rfl)
    | cases h

/-- Primary expressions are spelled by what is passed if the expressions inside are. -/
theorem soundAt_primary {inner : Rules} [inner.Grow]
    (hexpr : SoundAt inner.rounds 0 inner.expression) :
    SoundAt inner.rounds 6 (primary inner) := by
  intro c hrounds
  refine yieldsFrom_bind_look (get_eq c) ?_
  split
  · exact yieldsFrom_failAt
  · next t ht =>
    split
    · next value hvalue =>
      refine (yieldsFrom_advance ht).bind fun _ ts c₁ _ hts => yieldsFrom_pure ?_
      subst hts
      exact ⟨Spells.singleton ⟨(kind_of_literal? hvalue).symm, rfl⟩, rfl, Nat.le_refl _⟩
    · split
      · next hkind =>
        refine (yieldsFrom_advance ht).bind fun _ ts c₁ _ hts => yieldsFrom_pure ?_
        subst hts
        exact ⟨Spells.singleton ⟨hkind, rfl, rfl⟩, rfl, Nat.le_refl _⟩
      · next hkind =>
        refine (yieldsFrom_advance ht).bind fun _ ts c₁ _ hts => yieldsFrom_pure ?_
        subst hts
        exact ⟨Spells.singleton ⟨hkind, rfl⟩, rfl, Nat.le_refl _⟩
      · next hkind =>
        refine (yieldsFrom_advance ht).bind fun _ ts c₁ hle hts => ?_
        subst hts
        refine (hexpr c₁ (by omega)).bind fun e us c₂ _ he => ?_
        refine (yieldsFrom_expect _ _).bind fun close vs c₃ _ hpost => ?_
        obtain ⟨hclose, hvs⟩ := hpost
        refine yieldsFrom_pure ?_
        subst hvs
        exact ⟨Spells.cons hkind (he.spells.append (Spells.singleton hclose)), he.wellFormed,
          Nat.le_refl _⟩
      · exact yieldsFrom_failAt

/-- The calls and properties behind an expression of the tightest tier. -/
theorem yieldsFrom_accessesAtFuel {inner : Rules} [inner.Grow]
    (hexpr : SoundAt inner.rounds 0 inner.expression) :
    ∀ (fuel : Nat) (e : Expr) (c : Cursor), c.upcoming.length < inner.rounds →
      e.wellFormed = true → e.tier = 6 →
      YieldsFrom c (accessesAtFuel inner fuel e) fun e' ts _ => Extends 6 e e' ts
  | 0, e, c, _, hwf, htier => yieldsFrom_pure (.refl hwf (Nat.le_of_eq htier.symm))
  | fuel + 1, e, c, hrounds, hwf, htier => by
    unfold accessesAtFuel
    refine (yieldsFrom_accept _).bind fun found ts c₁ hle hfound => ?_
    rcases hfound with ⟨rfl, t, ht, rfl⟩ | ⟨rfl, rfl, -⟩
    · rw [if_pos rfl]
      have hitem : ∀ c : Cursor, c.upcoming.length < inner.rounds →
          YieldsFrom c inner.expression fun a ts _ =>
            Spells a.spelling ts ∧ a.wellFormed = true := fun c hc =>
        (hexpr c hc).mono fun a ts _ _ ha => ⟨ha.spells, ha.wellFormed⟩
      refine (yieldsFrom_separated hitem (by omega)).bind
        fun arguments us c₂ hle₂ hpost => ?_
      obtain ⟨hargs, hgood, hlen⟩ := hpost
      refine (yieldsFrom_expect _ _).bind fun close vs c₃ hle₃ hpost => ?_
      obtain ⟨hclose, hvs⟩ := hpost
      subst hvs
      have hcall : (Expr.call e arguments close.line).wellFormed = true := by
        simp [Expr.wellFormed, htier, hwf, hlen, Expr.listWellFormed_iff.2 hgood]
      refine (yieldsFrom_accessesAtFuel hexpr fuel _ c₃ (by omega) hcall rfl).mono
        fun e' ws c' _ he' => ?_
      have hstep : (Expr.call e arguments close.line).spelling = e.spelling ++
          (.symbol .leftParen :: commaSeparated (arguments.map Expr.spelling)
            ++ [.placed (.symbol .rightParen) close.line]) := by
        rw [Expr.spelling, Expr.listSpelling_eq_map]
        simp
      have hspells : Spells (.symbol .leftParen :: commaSeparated (arguments.map Expr.spelling)
          ++ [.placed (.symbol .rightParen) close.line]) (t :: us ++ [close]) :=
        Spells.cons ht (hargs.append (Spells.singleton ⟨hclose, rfl⟩))
      simpa using Extends.of_step hstep hspells he'
    · rw [if_neg Bool.false_ne_true]
      refine (yieldsFrom_accept _).bind fun found us c₂ hle₂ hfound => ?_
      rcases hfound with ⟨rfl, t, ht, rfl⟩ | ⟨rfl, rfl, -⟩
      · rw [if_pos rfl]
        refine (yieldsFrom_expectName _).bind fun property vs c₃ hle₃ hpost => ?_
        obtain ⟨n, hn, hvs⟩ := hpost
        subst hvs
        have hget : (Expr.get e property).wellFormed = true := by
          simp [Expr.wellFormed, htier, hwf]
        refine (yieldsFrom_accessesAtFuel hexpr fuel _ c₃ (by omega) hget rfl).mono
          fun e' ws c' _ he' => ?_
        have hstep : (Expr.get e property).spelling =
            e.spelling ++ [.symbol .dot, .name property] := rfl
        have hspells : Spells [.symbol .dot, .name property] [t, n] :=
          Spells.cons ht (Spells.singleton hn)
        have hextends := Extends.of_step hstep hspells he'
        exact hextends
      · rw [if_neg Bool.false_ne_true]
        exact yieldsFrom_pure (.refl hwf (Nat.le_of_eq htier.symm))

/-- Calls and properties are spelled by what is passed if the expressions inside are. -/
theorem soundAt_call {inner : Rules} [inner.Grow]
    (hexpr : SoundAt inner.rounds 0 inner.expression) :
    SoundAt inner.rounds 6 (call inner) := by
  intro c hrounds
  refine (soundAt_primary hexpr c hrounds).bind fun e ts c₁ hle he => ?_
  have htier : e.tier = 6 := Nat.le_antisymm (Expr.tier_le_six e) he.tier_le
  exact (yieldsFrom_accessesAtFuel hexpr _ e c₁ (by omega) he.wellFormed htier).mono
    fun e' us c' _ he' => he'.reads he.spells

/-- Operators before an operand are spelled by what is passed, with the operand. -/
theorem soundAt_unary {inner : Rules} [inner.Grow]
    (hexpr : SoundAt inner.rounds 0 inner.expression)
    (hunary : SoundAt inner.rounds 5 inner.unary) : SoundAt inner.rounds 5 (unary inner) := by
  intro c hrounds
  refine (yieldsFrom_acceptIf? _).bind_of (fun found => ?_) fun found ts c₁ hle hfound => ?_
  · split
    · infer_instance
    · infer_instance
  · rcases hfound with ⟨operator, rfl, hop, rfl⟩ | ⟨rfl, rfl, -⟩
    · refine (hunary c₁ (by omega)).bind fun operand us c₂ _ he => yieldsFrom_pure ?_
      refine ⟨?_, ?_, Nat.le_refl _⟩
      · rw [List.append_nil]
        exact Spells.cons rfl he.spells
      · simp [Expr.wellFormed, isUnaryOperator_iff.1 hop, he.tier_le, he.wellFormed]
    · exact (soundAt_call hexpr c₁ (by omega)).mono fun e us c' _ he =>
        ⟨he.spells, he.wellFormed, Nat.le_trans (by decide) he.tier_le⟩

/-- The operators and right operands behind a left operand. -/
theorem yieldsFrom_chainAtFuel {rounds tier : Nat} {isOperator : Kind → Bool} {operand : Parse Expr}
    [Grows operand] (hop : ∀ kind, isOperator kind = true → kind.tier? = some tier)
    (hoperand : SoundAt rounds (tier + 1) operand) :
    ∀ (fuel : Nat) (left : Expr) (c : Cursor), c.upcoming.length < rounds →
      left.wellFormed = true → tier ≤ left.tier →
      YieldsFrom c (chainAtFuel isOperator operand fuel left) fun e ts _ => Extends tier left e ts
  | 0, left, c, _, hwf, htier => yieldsFrom_pure (.refl hwf htier)
  | fuel + 1, left, c, hrounds, hwf, htier => by
    refine (yieldsFrom_acceptIf? _).bind_of (fun found => ?_) fun found ts c₁ hle hfound => ?_
    · split
      · infer_instance
      · infer_instance
    · rcases hfound with ⟨operator, rfl, hoper, rfl⟩ | ⟨rfl, rfl, -⟩
      · refine (hoperand c₁ (by omega)).bind fun right us c₂ hle₂ hright => ?_
        have htier? := hop _ hoper
        have hbinary : (Expr.binary left operator right).wellFormed = true := by
          simp [Expr.wellFormed, htier?, htier, hwf, hright.wellFormed,
            Nat.lt_of_succ_le hright.tier_le]
        have hat : tier ≤ (Expr.binary left operator right).tier := by
          simp [Expr.tier, htier?]
        refine (yieldsFrom_chainAtFuel hop hoperand fuel _ c₂ (by omega) hbinary hat).mono
          fun e vs c' _ he => ?_
        have hspells : Spells (.operator operator :: right.spelling) (operator :: us) :=
          Spells.cons rfl hright.spells
        have hextends := Extends.of_step rfl hspells he
        exact hextends
      · exact yieldsFrom_pure (.refl hwf htier)

/-- A chain of operators groups to the left, as the shape of its tier demands. -/
theorem soundAt_chain {rounds tier : Nat} {isOperator : Kind → Bool} {operand : Parse Expr}
    [Grows operand] (hop : ∀ kind, isOperator kind = true → kind.tier? = some tier)
    (hoperand : SoundAt rounds (tier + 1) operand) :
    SoundAt rounds tier (chain rounds isOperator operand) := by
  intro c hrounds
  refine (hoperand c hrounds).bind fun first ts c₁ hle hfirst => ?_
  exact (yieldsFrom_chainAtFuel hop hoperand rounds first c₁ (by omega) hfirst.wellFormed
    (Nat.le_of_succ_le hfirst.tier_le)).mono fun e us c' _ he => he.reads hfirst.spells

/-- The ladder of precedence, from unary operators up to comparisons of values. -/
theorem soundAt_equality {inner : Rules} [inner.Grow]
    (hexpr : SoundAt inner.rounds 0 inner.expression)
    (hunary : SoundAt inner.rounds 5 inner.unary) : SoundAt inner.rounds 1 (equality inner) := by
  have hfactor : SoundAt inner.rounds 4 (factor inner) :=
    soundAt_chain (fun _ => isFactorOperator_iff.1) (soundAt_unary hexpr hunary)
  have hterm : SoundAt inner.rounds 3 (term inner) :=
    soundAt_chain (fun _ => isTermOperator_iff.1) hfactor
  have hcomparison : SoundAt inner.rounds 2 (comparison inner) :=
    soundAt_chain (fun _ => isComparisonOperator_iff.1) hterm
  exact soundAt_chain (fun _ => isEqualityOperator_iff.1) hcomparison

/-- An assignment is spelled by its target, the sign and its value. -/
theorem reads_assignmentTo? {target value e : Expr} {equal : Token} {ts us : List Token}
    (h : assignmentTo? target value = some e) (htarget : Reads 1 target ts)
    (hequal : equal.kind = .symbol .equal) (hvalue : Reads 0 value us) :
    Reads 0 e (ts ++ equal :: us) := by
  unfold assignmentTo? at h
  split at h
  · cases h
    refine ⟨?_, by rw [Expr.wellFormed]; exact hvalue.wellFormed, Nat.zero_le _⟩
    exact htarget.spells.append (Spells.cons hequal hvalue.spells)
  · next object property =>
    cases h
    have hobject := htarget.wellFormed
    simp only [Expr.wellFormed, Bool.and_eq_true] at hobject
    refine ⟨?_, ?_, Nat.zero_le _⟩
    · have hvalues : Spells (.symbol .equal :: value.spelling) (equal :: us) :=
        Spells.cons hequal hvalue.spells
      simpa [Expr.spelling] using htarget.spells.append hvalues
    · simp [Expr.wellFormed, hobject, hvalue.wellFormed]
  · cases h

/-- Expressions are spelled by what is passed if those inside are. -/
theorem soundAt_expression {inner : Rules} [inner.Grow]
    (hexpr : SoundAt inner.rounds 0 inner.expression)
    (hunary : SoundAt inner.rounds 5 inner.unary) : SoundAt inner.rounds 0 (expression inner) := by
  have hgrows := grows_assignmentBehind inner
  intro c hrounds
  refine (soundAt_equality hexpr hunary c hrounds).bind_of
    (fun left => Grows.bind (hgrows left)) fun left ts c₁ hle hleft => ?_
  refine (yieldsFrom_acceptIf? _).bind_of (hgrows left) fun found us c₂ hle₂ hfound => ?_
  rcases hfound with ⟨equal, rfl, hequal, rfl⟩ | ⟨rfl, rfl, -⟩
  · refine (hexpr c₂ (by omega)).bind_of (fun value => ?_) fun value vs c₃ _ hvalue => ?_
    · split
      · infer_instance
      · infer_instance
    · split
      · next e he =>
        refine yieldsFrom_pure ?_
        rw [List.append_nil]
        exact reads_assignmentTo? he hleft (by simpa using hequal) hvalue
      · exact yieldsFrom_throw
  · refine yieldsFrom_pure ⟨?_, hleft.wellFormed, Nat.zero_le _⟩
    rw [List.append_nil, List.append_nil]
    exact hleft.spells

/-! ## Statements -/

/-- The tokens spell a well-formed statement that declares nothing; if it ends in a choice without
`else`, none follows. -/
structure ReadsStatement (s : Stmt) (ts : List Token) (c : Cursor) : Prop where
  spells : Spells s.spelling ts
  wellFormed : s.wellFormed = true
  declaresNothing : s.isDeclaration = false
  noElse : s.endsOpen = true → ∀ t, c.current? = some t → t.kind ≠ .keyword .elseWord

/-- A statement that does not end in an open branch may be followed by anything. -/
theorem ReadsStatement.of_closed {s : Stmt} {ts : List Token} {c : Cursor}
    (hspells : Spells s.spelling ts) (hwf : s.wellFormed = true) (hs : s.isDeclaration = false)
    (hclosed : s.endsOpen = false) : ReadsStatement s ts c where
  spells := hspells
  wellFormed := hwf
  declaresNothing := hs
  noElse hopen := by
    rw [hclosed] at hopen
    cases hopen

end Grammar

/-- The rules of a table yield only trees that the tokens passed spell. -/
structure Rules.Sound (rules : Rules) : Prop where
  expression : Grammar.SoundAt rules.rounds 0 rules.expression
  unary : Grammar.SoundAt rules.rounds 5 rules.unary
  statement : ∀ c : Cursor, c.upcoming.length < rules.rounds →
    Parse.YieldsFrom c rules.statement Grammar.ReadsStatement
  function : ∀ c : Cursor, c.upcoming.length < rules.rounds →
    Parse.YieldsFrom c rules.function fun f ts _ => Spells f.spelling ts ∧ f.wellFormed = true

namespace Grammar

open Parse

variable {rules : Rules} [rules.Grow]

/-- The spelling of the methods of a class starts with a gap. -/
theorem methodSpelling_eq_gap (methods : List FunctionDecl) :
    ∃ marks, FunctionDecl.methodSpelling methods ++ [.gap] = .gap :: marks := by
  cases methods with
  | nil => exact ⟨[], rfl⟩
  | cons method rest => exact ⟨_, rfl⟩

/-- While tokens are left, there is a current one. -/
theorem exists_current? {c : Cursor} (h : c.upcoming ≠ []) : ∃ t, c.current? = some t := by
  obtain ⟨first, rest, hup⟩ := List.exists_cons_of_ne_nil h
  exact ⟨first.token, by rw [Cursor.current?, hup]; rfl⟩

/-- The methods of a class, with the tokens passed over between them. -/
theorem yieldsFrom_methodsAtFuel (hrules : rules.Sound) :
    ∀ (fuel : Nat) (c : Cursor), c.upcoming.length < rules.rounds →
      YieldsFrom c (methodsAtFuel rules.function fuel) fun methods ts _ =>
        Spells (FunctionDecl.methodSpelling methods ++ [.gap]) ts
          ∧ FunctionDecl.listWellFormed methods = true
  | 0, c, _ => yieldsFrom_pure ⟨spells_gap_nil, rfl⟩
  | fuel + 1, c, hrounds => by
    unfold methodsAtFuel
    refine (yieldsFrom_sees _).bind fun closes ts c₁ _ hpost => ?_
    obtain ⟨hts, hc, hcloses⟩ := hpost
    subst hts hc
    refine yieldsFrom_atEnd.bind fun ends ts c₂ _ hpost => ?_
    obtain ⟨hts, hc, hends⟩ := hpost
    subst hts hc
    split
    · exact yieldsFrom_pure ⟨spells_gap_nil, rfl⟩
    · next hgoes =>
      refine (yieldsFrom_accept _).bind fun found us c₃ hle hfound => ?_
      rcases hfound with ⟨rfl, word, hword, rfl⟩ | ⟨rfl, rfl, rfl, hnext⟩
      · rw [if_pos rfl]
        refine (hrules.function c₃ (by omega)).bind fun method vs c₄ hle₂ hpost => ?_
        obtain ⟨hmethod, hwf⟩ := hpost
        refine (yieldsFrom_methodsAtFuel hrules fuel c₄ (by omega)).bind
          fun rest ws c₅ _ hpost => ?_
        obtain ⟨hrest, hwfs⟩ := hpost
        refine yieldsFrom_pure ⟨?_, ?_⟩
        · have hspells : Spells (.word .fnWord :: (method.spelling
              ++ (FunctionDecl.methodSpelling rest ++ [.gap]))) (word :: (vs ++ ws)) :=
            Spells.cons hword (hmethod.append hrest)
          simpa [FunctionDecl.methodSpelling] using
            spells_gap.2 ⟨[], word :: (vs ++ ws), rfl, List.forall_mem_nil _, hspells⟩
        · simp [FunctionDecl.listWellFormed, hwf, hwfs]
      · rw [if_neg Bool.false_ne_true]
        simp only [hcloses, hends, Bool.or_eq_true, beq_iff_eq, List.isEmpty_iff, not_or] at hgoes
        obtain ⟨hbrace, hsome⟩ := hgoes
        obtain ⟨t, ht⟩ := exists_current? hsome
        refine (yieldsFrom_advance ht).bind fun _ vs c₄ hle₂ hvs => ?_
        subst hvs
        refine (yieldsFrom_methodsAtFuel hrules fuel c₄ (by omega)).mono
          fun rest ws c' _ hpost => ?_
        obtain ⟨hrest, hwfs⟩ := hpost
        refine ⟨?_, hwfs⟩
        have hfiller : t.isFiller = true := by
          simpa [Token.isFiller, hnext t ht, ht] using hbrace
        obtain ⟨marks, hmarks⟩ := methodSpelling_eq_gap rest
        rw [hmarks] at hrest ⊢
        exact hrest.gap_cons hfiller

/-- The tokens spell a well-formed statement or declaration. -/
structure ReadsDeclaration (s : Stmt) (ts : List Token) : Prop where
  spells : Spells s.spelling ts
  wellFormed : s.wellFormed = true

/-- A class behind its word. -/
theorem yieldsFrom_classDecl (hrules : rules.Sound) {c : Cursor}
    (hrounds : c.upcoming.length < rules.rounds) :
    YieldsFrom c (classDecl rules) fun d ts _ => ∀ word : Token, word.kind = .keyword .classWord →
      ReadsDeclaration (.classOf d) (word :: ts) := by
  refine (yieldsFrom_expectName _).bind fun name ts c₁ hle hpost => ?_
  obtain ⟨t, ht, hts⟩ := hpost
  subst hts
  refine (yieldsFrom_expect _ _).bind fun brace us c₂ hle₂ hpost => ?_
  obtain ⟨hopen, hus⟩ := hpost
  subst hus
  refine (yieldsFrom_methodsAtFuel hrules rules.rounds c₂ (by omega)).bind
    fun methods vs c₃ _ hpost => ?_
  obtain ⟨hmethods, hwf⟩ := hpost
  refine (yieldsFrom_expect _ _).bind fun close ws c₄ _ hpost => ?_
  obtain ⟨hclose, hws⟩ := hpost
  refine yieldsFrom_pure ?_
  subst hws
  intro word hword
  refine ⟨?_, hwf⟩
  have hbody : Spells (.word .classWord :: .name name :: .symbol .leftBrace
      :: (FunctionDecl.methodSpelling methods ++ [.gap] ++ [.symbol .rightBrace]))
      (word :: t :: brace :: (vs ++ [close])) :=
    .cons hword (.cons ht (.cons hopen (hmethods.append (.singleton hclose))))
  simpa [Stmt.spelling] using hbody

/-- A variable's declaration behind its word. -/
theorem yieldsFrom_variableDecl (hrules : rules.Sound) {c : Cursor}
    (hrounds : c.upcoming.length < rules.rounds) :
    YieldsFrom c (variableDecl rules) fun s ts _ => ∀ word : Token, word.kind = .keyword .letWord →
      ReadsDeclaration s (word :: ts) := by
  refine (yieldsFrom_expectName _).bind fun name ts c₁ hle hpost => ?_
  obtain ⟨t, ht, hts⟩ := hpost
  subst hts
  refine (yieldsFrom_accept _).bind fun found us c₂ hle₂ hfound => ?_
  rcases hfound with ⟨rfl, equal, hequal, rfl⟩ | ⟨rfl, rfl, -, -⟩
  · dsimp only
    rw [if_pos rfl]
    refine (hrules.expression c₂ (by omega)).bind fun e vs c₃ _ he => ?_
    refine (yieldsFrom_expect _ _).bind fun close ws c₄ _ hpost => ?_
    obtain ⟨hclose, hws⟩ := hpost
    refine yieldsFrom_pure ?_
    subst hws
    intro word hword
    refine ⟨?_, he.wellFormed⟩
    exact .cons hword (.cons ht (.cons hequal (he.spells.append (.singleton hclose))))
  · dsimp only
    rw [if_neg Bool.false_ne_true]
    refine (yieldsFrom_expect _ _).bind fun close ws c₄ _ hpost => ?_
    obtain ⟨hclose, hws⟩ := hpost
    refine yieldsFrom_pure ?_
    subst hws
    intro word hword
    exact ⟨.cons hword (.cons ht (.singleton hclose)), rfl⟩

/-- Declarations are spelled by what is passed if the rules inside are sound. -/
theorem yieldsFrom_declarationRule (hrules : rules.Sound) {c : Cursor}
    (hrounds : c.upcoming.length < rules.rounds) :
    YieldsFrom c (declarationRule rules) fun s ts _ => ReadsDeclaration s ts := by
  refine (yieldsFrom_accept _).bind fun found ts c₁ hle hfound => ?_
  rcases hfound with ⟨rfl, word, hword, rfl⟩ | ⟨rfl, rfl, rfl, -⟩
  · rw [if_pos rfl]
    refine (yieldsFrom_classDecl hrules (by omega)).bind fun d us c₂ _ hd => yieldsFrom_pure ?_
    rw [List.append_nil]
    exact hd word hword
  rw [if_neg Bool.false_ne_true]
  refine (yieldsFrom_accept _).bind fun found ts c₁ hle hfound => ?_
  rcases hfound with ⟨rfl, word, hword, rfl⟩ | ⟨rfl, rfl, rfl, -⟩
  · rw [if_pos rfl]
    refine (hrules.function c₁ (by omega)).bind fun f us c₂ _ hpost => ?_
    obtain ⟨hf, hwf⟩ := hpost
    refine yieldsFrom_pure ?_
    rw [List.append_nil]
    exact ⟨.cons hword hf, hwf⟩
  rw [if_neg Bool.false_ne_true]
  refine (yieldsFrom_accept _).bind fun found ts c₁ hle hfound => ?_
  rcases hfound with ⟨rfl, word, hword, rfl⟩ | ⟨rfl, rfl, rfl, -⟩
  · rw [if_pos rfl]
    exact (yieldsFrom_variableDecl hrules (by omega)).mono fun s us c' _ hs => hs word hword
  rw [if_neg Bool.false_ne_true]
  exact (hrules.statement c₁ hrounds).mono fun s us c' _ hs => ⟨hs.spells, hs.wellFormed⟩

/-- A declaration that recovers has recorded a problem, so without problems it has yielded. -/
theorem yieldsFrom_declaration (hrules : rules.Sound) {c : Cursor}
    (hrounds : c.upcoming.length < rules.rounds) :
    YieldsFrom c (declaration rules) fun s? ts _ => ∃ s, s? = some s ∧ ReadsDeclaration s ts := by
  intro s? c' hok hnone
  unfold declaration recovering at hok
  split at hok
  · next s c₁ hs =>
    cases hok
    obtain ⟨ts, hts, hreads⟩ := yieldsFrom_declarationRule hrules hrounds s c' hs hnone
    exact ⟨ts, hts, s, rfl, hreads⟩
  · next fault c₁ hfault =>
    cases hok
    have hprefix := Cursor.problems_prefix_recover (c₁.recordFault fault)
    rw [hnone, Cursor.problems_recordFault] at hprefix
    simp at hprefix

/-- Declarations one after another. With more rounds than tokens, they end only where they are to
stop. -/
theorem yieldsFrom_declarationsAtFuel (hrules : rules.Sound) {stop : Parse Bool} [Grows stop]
    (hstop : ∀ c, ∃ b, stop c = .ok b c) :
    ∀ (fuel : Nat) (c : Cursor), c.upcoming.length < rules.rounds →
      YieldsFrom c (declarationsAtFuel rules stop fuel) fun ss ts c' =>
        Spells (Stmt.listSpelling ss) ts ∧ Stmt.listWellFormed ss = true
          ∧ (c.upcoming.length < fuel → stop c' = .ok true c')
  | 0, c, _ => yieldsFrom_pure ⟨spells_nil.2 rfl, rfl, fun h => absurd h (Nat.not_lt_zero _)⟩
  | fuel + 1, c, hrounds => by
    obtain ⟨stops, hstops⟩ := hstop c
    refine yieldsFrom_bind_look hstops ?_
    cases stops with
    | true => exact yieldsFrom_pure ⟨spells_nil.2 rfl, rfl, fun _ => hstops⟩
    | false =>
      rw [if_neg Bool.false_ne_true]
      refine (yieldsFrom_declaration hrules hrounds).bind fun s? ts c₁ hle hpost => ?_
      obtain ⟨s, hs, hreads⟩ := hpost
      subst hs
      have hpos : 0 < ts.length := by
        obtain ⟨t, more, rfl, -⟩ :=
          exists_cons_of_spells_declaration hreads.wellFormed hreads.spells
        exact Nat.succ_pos _
      refine (yieldsFrom_declarationsAtFuel hrules hstop fuel c₁ (by omega)).bind
        fun rest us c₂ _ hpost => ?_
      obtain ⟨hrest, hwf, hend⟩ := hpost
      refine yieldsFrom_pure ⟨?_, ?_, ?_⟩
      · rw [List.append_nil]
        exact hreads.spells.append hrest
      · simp [Stmt.listWellFormed, hreads.wellFormed, hwf]
      · intro hfuel
        exact hend (by omega)

/-- The body of a block is spelled by what is passed, with its closing brace. -/
theorem yieldsFrom_block (hrules : rules.Sound) {c : Cursor}
    (hrounds : c.upcoming.length < rules.rounds) :
    YieldsFrom c (block rules) fun ss ts _ =>
      Spells (Stmt.listSpelling ss ++ [.symbol .rightBrace]) ts
        ∧ Stmt.listWellFormed ss = true := by
  have hends : ∀ c, ∃ b, blockEnds c = .ok b c := fun c => ⟨_, rfl⟩
  refine (yieldsFrom_declarationsAtFuel hrules hends _ c hrounds).bind
    fun ss ts c₁ _ hpost => ?_
  obtain ⟨hspells, hwf, -⟩ := hpost
  refine (yieldsFrom_expect _ _).bind fun close us c₂ _ hpost => ?_
  obtain ⟨hclose, hus⟩ := hpost
  refine yieldsFrom_pure ?_
  subst hus
  exact ⟨hspells.append (.singleton hclose), hwf⟩

/-- A function behind its word. -/
theorem yieldsFrom_function (hrules : rules.Sound) {c : Cursor}
    (hrounds : c.upcoming.length < rules.rounds) :
    YieldsFrom c (function rules) fun f ts _ => Spells f.spelling ts ∧ f.wellFormed = true := by
  have hparam : ∀ c : Cursor, c.upcoming.length < rules.rounds →
      YieldsFrom c (expectName .parameterName) fun p ts _ =>
        Spells [Mark.name p] ts ∧ True := by
    intro c _
    refine (yieldsFrom_expectName _).mono fun p ts _ _ hpost => ?_
    obtain ⟨t, ht, hts⟩ := hpost
    exact ⟨hts ▸ .singleton ht, trivial⟩
  refine (yieldsFrom_expectName _).bind fun name ts c₁ hle hpost => ?_
  obtain ⟨t, ht, hts⟩ := hpost
  subst hts
  refine (yieldsFrom_expect _ _).bind fun paren us c₂ hle₂ hpost => ?_
  obtain ⟨hopen, hus⟩ := hpost
  subst hus
  refine (yieldsFrom_separated hparam (by omega)).bind
    fun params vs c₃ hle₃ hpost => ?_
  obtain ⟨hparams, -, hlen⟩ := hpost
  refine (yieldsFrom_expect _ _).bind fun close ws c₄ hle₄ hpost => ?_
  obtain ⟨hclose, hws⟩ := hpost
  subst hws
  refine (yieldsFrom_expect _ _).bind fun brace xs c₅ hle₅ hpost => ?_
  obtain ⟨hbrace, hxs⟩ := hpost
  subst hxs
  refine (yieldsFrom_block hrules (by omega)).bind fun body ys c₆ _ hpost => ?_
  obtain ⟨hbody, hwf⟩ := hpost
  refine yieldsFrom_pure ⟨?_, ?_⟩
  · have hspells : Spells (.name name :: .symbol .leftParen
        :: (commaSeparated (params.map fun p => [.name p]) ++ .symbol .rightParen
          :: .symbol .leftBrace :: (Stmt.listSpelling body ++ [.symbol .rightBrace])))
        (t :: paren :: (vs ++ close :: brace :: ys)) :=
      .cons ht (.cons hopen (hparams.append (.cons hclose (.cons hbrace hbody))))
    simpa [FunctionDecl.spelling] using hspells
  · simp [FunctionDecl.wellFormed, hlen, hwf]

/-- A choice behind its word. What follows a choice without `else` is none. -/
theorem yieldsFrom_branch (hrules : rules.Sound) {c : Cursor}
    (hrounds : c.upcoming.length < rules.rounds) {word : Token}
    (hword : word.kind = .keyword .ifWord) :
    YieldsFrom c (branch rules) fun s ts c' => ReadsStatement s (word :: ts) c' := by
  refine (yieldsFrom_expect _ _).bind fun paren ts c₁ hle hpost => ?_
  obtain ⟨hopen, hts⟩ := hpost
  subst hts
  refine (hrules.expression c₁ (by omega)).bind fun condition us c₂ hle₂ hcond => ?_
  refine (yieldsFrom_expect _ _).bind fun close vs c₃ hle₃ hpost => ?_
  obtain ⟨hclose, hvs⟩ := hpost
  subst hvs
  refine (hrules.statement c₃ (by omega)).bind fun thenBranch ws c₄ hle₄ hthen => ?_
  refine (yieldsFrom_accept _).bind_passed (fun _ => inferInstance)
    fun found xs c₅ hle₅ hfound => ?_
  rcases hfound with ⟨rfl, other, hother, rfl⟩ | ⟨rfl, rfl, rfl, hnext⟩
  · rw [if_pos rfl]
    have hclosed : thenBranch.endsOpen = false := by
      cases hends : thenBranch.endsOpen with
      | false => rfl
      | true =>
        have hcurrent : c₄.current? = some other := by rw [Cursor.current?, hle₅]; rfl
        exact absurd hother (hthen.noElse hends other hcurrent)
    refine (hrules.statement c₅ (by rw [hle₅] at hle₄; simp at hle₄; omega)).bind
      fun elseBranch ys c₆ _ helse => yieldsFrom_pure ⟨?_, ?_, rfl, helse.noElse⟩
    · have hspells : Spells (.word .ifWord :: .symbol .leftParen :: (condition.spelling
          ++ .symbol .rightParen :: (thenBranch.spelling
            ++ .word .elseWord :: elseBranch.spelling)))
          (word :: paren :: (us ++ close :: (ws ++ other :: ys))) :=
        .cons hword (.cons hopen (hcond.spells.append (.cons hclose
          (hthen.spells.append (.cons hother helse.spells)))))
      simpa [Stmt.spelling] using hspells
    · simp [Stmt.wellFormed, hcond.wellFormed, hthen.declaresNothing, hthen.wellFormed, hclosed,
        helse.declaresNothing, helse.wellFormed]
  · rw [if_neg Bool.false_ne_true]
    refine yieldsFrom_pure ⟨?_, ?_, rfl, fun _ => hnext⟩
    · have hspells : Spells (.word .ifWord :: .symbol .leftParen :: (condition.spelling
          ++ .symbol .rightParen :: thenBranch.spelling))
          (word :: paren :: (us ++ close :: ws)) :=
        .cons hword (.cons hopen (hcond.spells.append (.cons hclose hthen.spells)))
      simpa [Stmt.spelling] using hspells
    · simp [Stmt.wellFormed, hcond.wellFormed, hthen.declaresNothing, hthen.wellFormed]

/-- A loop is spelled by its word and what is passed behind it. -/
theorem yieldsFrom_loop (hrules : rules.Sound) {c : Cursor}
    (hrounds : c.upcoming.length < rules.rounds) {word : Token}
    (hword : word.kind = .keyword .whileWord) :
    YieldsFrom c (loop rules) fun s ts c' => ReadsStatement s (word :: ts) c' := by
  refine (yieldsFrom_expect _ _).bind fun paren ts c₁ hle hpost => ?_
  obtain ⟨hopen, hts⟩ := hpost
  subst hts
  refine (hrules.expression c₁ (by omega)).bind fun condition us c₂ hle₂ hcond => ?_
  refine (yieldsFrom_expect _ _).bind fun close vs c₃ hle₃ hpost => ?_
  obtain ⟨hclose, hvs⟩ := hpost
  subst hvs
  refine (hrules.statement c₃ (by omega)).bind fun body ws c₄ _ hbody => yieldsFrom_pure ?_
  refine ⟨?_, ?_, rfl, hbody.noElse⟩
  · have hspells : Spells (.word .whileWord :: .symbol .leftParen :: (condition.spelling
        ++ .symbol .rightParen :: body.spelling)) (word :: paren :: (us ++ close :: ws)) :=
      .cons hword (.cons hopen (hcond.spells.append (.cons hclose hbody.spells)))
    simpa [Stmt.spelling] using hspells
  · simp [Stmt.wellFormed, hcond.wellFormed, hbody.declaresNothing, hbody.wellFormed]

/-- A return is spelled by its word and what is passed behind it. -/
theorem yieldsFrom_leave (hrules : rules.Sound) {c : Cursor}
    (hrounds : c.upcoming.length < rules.rounds) {word : Token}
    (hword : word.kind = .keyword .returnWord) :
    YieldsFrom c (leave rules word.line) fun s ts c' => ReadsStatement s (word :: ts) c' := by
  refine (yieldsFrom_sees _).bind fun found ts c₁ _ hpost => ?_
  obtain ⟨hts, hc, -⟩ := hpost
  subst hts hc
  dsimp only
  split
  · refine (yieldsFrom_expect _ _).bind fun close us c₂ _ hpost => ?_
    obtain ⟨hclose, hus⟩ := hpost
    refine yieldsFrom_pure ?_
    subst hus
    exact .of_closed (.cons ⟨hword, rfl⟩ (.singleton hclose)) rfl rfl rfl
  · refine (hrules.expression c₁ hrounds).bind fun e us c₂ _ he => ?_
    refine (yieldsFrom_expect _ _).bind fun close vs c₃ _ hpost => ?_
    obtain ⟨hclose, hvs⟩ := hpost
    refine yieldsFrom_pure ?_
    subst hvs
    exact .of_closed (.cons ⟨hword, rfl⟩ (he.spells.append (.singleton hclose))) he.wellFormed rfl
      rfl

/-- Statements are spelled by what is passed if the rules inside are sound. -/
theorem yieldsFrom_statement (hrules : rules.Sound) {c : Cursor}
    (hrounds : c.upcoming.length < rules.rounds) :
    YieldsFrom c (statement rules) ReadsStatement := by
  refine yieldsFrom_bind_look (get_eq c) ?_
  split
  · next lexeme line ht =>
    refine (yieldsFrom_advance ht).bind fun _ ts c₁ hle hts => ?_
    subst hts
    exact yieldsFrom_branch hrules (by omega) rfl
  · next lexeme line ht =>
    refine (yieldsFrom_advance ht).bind fun _ ts c₁ hle hts => ?_
    subst hts
    exact yieldsFrom_loop hrules (by omega) rfl
  · next lexeme line ht =>
    refine (yieldsFrom_advance ht).bind fun _ ts c₁ hle hts => ?_
    subst hts
    have hword : Token.kind ⟨.keyword .returnWord, lexeme, line⟩ = .keyword .returnWord := rfl
    exact yieldsFrom_leave hrules (by omega) hword
  · next lexeme line ht =>
    refine (yieldsFrom_advance ht).bind fun _ ts c₁ hle hts => ?_
    subst hts
    refine (yieldsFrom_block hrules (by omega)).bind fun body us c₂ _ hpost => ?_
    obtain ⟨hbody, hwf⟩ := hpost
    refine yieldsFrom_pure (.of_closed ?_ hwf rfl rfl)
    rw [List.append_nil]
    exact .cons rfl hbody
  · next lexeme line ht =>
    refine (yieldsFrom_advance ht).bind fun _ ts c₁ hle hts => ?_
    subst hts
    refine (hrules.expression c₁ (by omega)).bind fun e us c₂ _ he => ?_
    refine (yieldsFrom_expect _ _).bind fun close vs c₃ _ hpost => ?_
    obtain ⟨hclose, hvs⟩ := hpost
    refine yieldsFrom_pure ?_
    subst hvs
    exact .of_closed (.cons rfl (he.spells.append (.singleton hclose))) he.wellFormed rfl rfl
  · refine (hrules.expression c hrounds).bind fun e us c₂ _ he => ?_
    refine (yieldsFrom_expect _ _).bind fun close vs c₃ _ hpost => ?_
    obtain ⟨hclose, hvs⟩ := hpost
    refine yieldsFrom_pure ?_
    subst hvs
    exact .of_closed (he.spells.append (.singleton hclose)) he.wellFormed rfl rfl

end Grammar

namespace Rules

/-- However many levels are left, the rules yield only what the tokens passed spell. -/
theorem atLevels_sound (rounds levels : Nat) : (atLevels rounds levels).Sound := by
  induction levels with
  | zero =>
    exact ⟨fun _ _ => Parse.yieldsFrom_failAt, fun _ _ => Parse.yieldsFrom_failAt,
      fun _ _ => Parse.yieldsFrom_failAt, fun _ _ => Parse.yieldsFrom_failAt⟩
  | succ levels ih =>
    exact ⟨Grammar.soundAt_expression ih.expression ih.unary,
      Grammar.soundAt_unary ih.expression ih.unary,
      fun _ hrounds => Grammar.yieldsFrom_statement ih hrounds,
      fun _ hrounds => Grammar.yieldsFrom_function ih hrounds⟩

end Rules

/-! ## Programs -/

/-- A program is read only from tokens without any fault between them, and these spell it. -/
theorem Cursor.readProgram_sound {c : Cursor} {program : Program} (hclosed : c.depth = 0)
    (h : c.readProgram.1 = .ok program) :
    ∃ ts, c.problems = #[] ∧ c.upcoming = ts.map Lexed.bare ∧ Spells program.spelling ts
      ∧ program.wellFormed = true := by
  obtain ⟨c', hread, hnone⟩ := (Cursor.readProgram_eq_ok_iff hclosed).1 h
  have hgrows : Parse.Grows c.topLevel := inferInstance
  have hrules := Rules.atLevels_sound (c.upcoming.length + 1) maxNesting
  have hends : ∀ c, ∃ b, Parse.atEnd c = .ok b c := fun c => ⟨_, rfl⟩
  obtain ⟨ts, hts, hspells, hwf, hend⟩ := Grammar.yieldsFrom_declarationsAtFuel hrules hends
    (c.upcoming.length + 1) c (by simp) program.declarations c' hread hnone
  have hempty : c'.upcoming = [] := by
    have hstops := hend (Nat.lt_succ_self _)
    cases hup : c'.upcoming with
    | nil => rfl
    | cons first rest =>
      have hgoes : Parse.atEnd c' = .ok false c' := by
        show EStateM.Result.ok c'.upcoming.isEmpty c' = _
        rw [hup]
        rfl
      rw [hgoes] at hstops
      cases hstops
  rw [hempty, List.append_nil] at hts
  exact ⟨ts, hgrows.problems_eq_empty hread hnone, hts, hspells, hwf⟩

/-- Where no fault lies between tokens, sorting them only drops the end of the source. -/
theorem Lexing.eq_filter_of_bare : ∀ (tokens ts : List Token),
    (Lexing.ofTokens tokens).leading = [] →
    (Lexing.ofTokens tokens).tokens = ts.map Lexed.bare →
      ts = tokens.filter fun t => !t.isEof
  | [], ts, _, h => by
    cases ts with
    | nil => rfl
    | cons => cases h
  | t :: rest, ts, hleading, h => by
    unfold Lexing.ofTokens at hleading h
    cases hfault : t.fault? with
    | some fault =>
      rw [hfault] at hleading
      cases hleading
    | none =>
      rw [hfault] at hleading h
      cases hend : t.isEof with
      | true =>
        simp only [hend] at hleading h
        rw [List.filter_cons_of_neg (by simp [hend])]
        exact Lexing.eq_filter_of_bare rest ts hleading h
      | false =>
        simp only [hend] at hleading h
        rw [List.filter_cons_of_pos (by simp [hend])]
        cases ts with
        | nil => cases h
        | cons first others =>
          obtain ⟨hfirst, hothers⟩ := List.cons.inj h
          obtain ⟨rfl, hnone⟩ := Lexed.mk.inj hfirst
          rw [← Lexing.eq_filter_of_bare rest others hnone hothers]

/-- A source that reads as a program has no problems. -/
theorem parse_eq_ok_of_toOption {source : String} {program : Program}
    (h : (parse source).toOption = some program) : parse source = .ok program := by
  cases hparse : parse source with
  | error problems =>
    rw [hparse] at h
    cases h
  | ok program' =>
    rw [hparse] at h
    cases h
    rfl

/-- The tokens of a source that is read as a program, less the end of the source, spell it. -/
theorem spells_of_parse {source : String} {program : Program} (h : parse source = .ok program) :
    Spells program.spelling ((tokenize source).filter fun t => !t.isEof)
      ∧ program.wellFormed = true := by
  obtain ⟨ts, hproblems, hts, hspells, hwf⟩ := Cursor.readProgram_sound rfl h
  have hleading : (Lexing.ofTokens (tokenize source)).leading = [] := by
    simpa [tokenize, Cursor.ofLexer, Cursor.recordFaults] using hproblems
  rw [← Lexing.eq_filter_of_bare _ ts hleading hts]
  exact ⟨hspells, hwf⟩

/-- **Soundness.** Where a source is read as a program, its tokens less the end of the source are
those of the program: one for each mark of its spelling, in order, and besides these only tokens in
the gaps between methods. The program has a shape of the grammar. Where the tree keeps only the kind
of a token, the text is the one that belongs to the kind. -/
theorem parse_sound {source : String} {program : Program} (h : parse source = .ok program) :
    Spells program.spelling ((tokenize source).filter fun t => !t.isEof)
      ∧ program.wellFormed = true
      ∧ ∀ t ∈ tokenize source, WellSpelled t.kind t.lexeme := by
  obtain ⟨hspells, hwf⟩ := spells_of_parse h
  exact ⟨hspells, hwf, fun _ => wellSpelled_of_mem_tokenize⟩

/-- A class with a stray name before its method is such a source. -/
theorem parse_sound_stray_name :
    ∃ program,
      parse "class A \x7b x fn m(a) \x7b this.b = !a == a(nil); \x7d \x7d" = .ok program
        ∧ Spells program.spelling
          ((tokenize "class A \x7b x fn m(a) \x7b this.b = !a == a(nil); \x7d \x7d").filter
            fun t => !t.isEof)
        ∧ program.wellFormed = true := by
  have hok :
      (parse "class A \x7b x fn m(a) \x7b this.b = !a == a(nil); \x7d \x7d").isOk = true := by
    decide +kernel
  cases h : parse "class A \x7b x fn m(a) \x7b this.b = !a == a(nil); \x7d \x7d" with
  | ok program =>
    obtain ⟨hspells, hwf, -⟩ := parse_sound h
    exact ⟨program, rfl, hspells, hwf⟩
  | error problems =>
    rw [h] at hok
    cases hok

end Quill

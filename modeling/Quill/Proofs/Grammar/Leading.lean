import Quill.Proofs.Grammar.Growth
import Quill.Proofs.Grammar.Shape

/-!
# Where rules lead

`Leads fits rule ts us next` follows a rule on tokens that it is meant for. If a condition `fits`
holds, which will say that no more than the levels left are nested, then the rule before the tokens
`ts` does what `next` does before `us`; for most rules `next` only yields a tree. If the condition
fails, the first thing that is found wrong is that the tokens nest too deep, whatever may be found
after that.

Both halves are carried along together: `Leads.trans` puts two stretches of the way one after the
other, and a stretch that fits does not hide that the next one does not. Steps that cannot fail have
the simpler `Passes`.
-/

namespace Quill

/-! ## Cursors before tokens -/

/-- The cursor before tokens that have no faults between them. -/
def Cursor.before (tokens : List Token) (line : Nat) (problems : Array Problem) : Cursor :=
  ⟨tokens.map Lexed.bare, line, problems, 0⟩

namespace Cursor

variable (tokens : List Token) (line : Nat) (problems : Array Problem)

@[simp] theorem current?_before : (before tokens line problems).current? = tokens.head? := by
  cases tokens with
  | nil => rfl
  | cons t rest => rfl

@[simp] theorem advance_before (t : Token) :
    (before (t :: tokens) line problems).advance = before tokens line problems := by
  simp [before, advance, recordFaults, Lexed.bare]

end Cursor

namespace Parse

open Cursor (before)

variable {α β : Type} {ts us vs : List Token} {a : α} {b : β}

/-! ## Steps that cannot fail -/

/-- From before `ts` the rule passes to before `us` and yields a value. -/
def Passes (rule : Parse α) (ts us : List Token) (a : α) : Prop :=
  ∀ line problems, rule (before ts line problems) = .ok a (before us line problems)

/-- A value is yielded where the rule stands. -/
theorem passes_pure : Passes (pure a) ts ts a := fun _ _ => rfl

/-- A rule that passes to before tokens is followed by what passes from there. -/
theorem Passes.bind {x : Parse α} {f : α → Parse β} (hx : Passes x ts us a)
    (hf : Passes (f a) us vs b) : Passes (x >>= f) ts vs b := by
  intro line problems
  rw [bind_eq_of_ok (hx line problems), hf line problems]

/-- Moving past a token needs only that one is there. -/
theorem passes_advance {t : Token} : Passes advance (t :: ts) ts () := by
  intro line problems
  show EStateM.Result.ok () (before (t :: ts) line problems).advance = _
  rw [Cursor.advance_before]

/-- A token that passes the test is taken. -/
theorem passes_acceptIf?_some {test : Kind → Bool} {t : Token} (h : test t.kind = true) :
    Passes (acceptIf? test) (t :: ts) ts (some t) := by
  intro line problems
  simp [acceptIf?_eq, h]

/-- A token that does not pass the test is left, and so is the end. -/
theorem passes_acceptIf?_none {test : Kind → Bool}
    (h : ∀ t ∈ ts.head?, test t.kind = false) : Passes (acceptIf? test) ts ts none := by
  intro line problems
  rw [acceptIf?_eq, Cursor.current?_before]
  cases ts with
  | nil => rfl
  | cons t rest =>
    have htest := h t rfl
    simp [htest]

/-- A token of the kind that is accepted is taken. -/
theorem passes_accept_true {kind : Kind} {t : Token} (h : t.kind = kind) :
    Passes (accept kind) (t :: ts) ts true :=
  (passes_acceptIf?_some (by simpa using h)).bind passes_pure

/-- A token of another kind than the one accepted is left. -/
theorem passes_accept_false {kind : Kind} (h : ∀ t ∈ ts.head?, t.kind ≠ kind) :
    Passes (accept kind) ts ts false :=
  (passes_acceptIf?_none fun t ht => by simpa using h t ht).bind passes_pure

/-- A token of the kind that is expected is taken. -/
theorem passes_expect {kind : Kind} {what : Expectation} {t : Token} (h : t.kind = kind) :
    Passes (expect kind what) (t :: ts) ts t :=
  (passes_acceptIf?_some (by simpa using h)).bind passes_pure

/-- A name is read from its own token. -/
theorem passes_expectName {name : Name} {what : Expectation} {t : Token}
    (h : (Mark.name name).Admits t) : Passes (expectName what) (t :: ts) ts name := by
  obtain ⟨hkind, htext, hline⟩ := h
  have hname : (⟨t.lexeme, t.line⟩ : Name) = name := by rw [htext, hline]
  rw [← hname]
  exact (passes_expect hkind).bind passes_pure

/-- Looking for a kind of token passes none. -/
theorem passes_sees (kind : Kind) :
    Passes (sees kind) ts ts (ts.head?.map Token.kind == some kind) := by
  intro line problems
  show EStateM.Result.ok ((before ts line problems).current?.map Token.kind == some kind) _ = _
  rw [Cursor.current?_before]

/-- Asking for the end passes no token. -/
theorem passes_atEnd : Passes atEnd ts ts ts.isEmpty := by
  intro line problems
  show EStateM.Result.ok (ts.map Lexed.bare).isEmpty _ = _
  rw [List.isEmpty_map]

/-! ## Ways that may be too deep -/

/-- Behind the problems that were known, the first one is that tokens nest too deep. -/
def Overflows (known : Array Problem) (result : EStateM.Result GrammarFault Cursor α) : Prop :=
  ∃ found line, known.toList ++ [.grammatical ⟨.tooDeep found, line⟩] <+: report result

/-- From before `ts` the rule goes on as `next` before `us` if the condition holds; otherwise the
tokens nest too deep. -/
structure Leads (fits : Prop) (rule : Parse α) (ts us : List Token) (next : Parse α) : Prop where
  arrives : fits → ∀ line problems,
    rule (before ts line problems) = next (before us line problems)
  overflows : ¬fits → ∀ line problems, Overflows problems (rule (before ts line problems))

variable {p q : Prop} {rule mid next : Parse α}

/-- Every rule leads to itself. -/
theorem Leads.refl : Leads True rule ts ts rule :=
  ⟨fun _ _ _ => rfl, fun h => absurd trivial h⟩

/-- A condition may be put in another way. -/
theorem Leads.congr (h : Leads p rule ts us next) (hpq : p ↔ q) : Leads q rule ts us next :=
  propext hpq ▸ h

/-- A rule may look at the tokens first, to choose what it does before them. -/
theorem Leads.of_eq (h : Leads p mid ts us next)
    (heq : ∀ line problems, rule (before ts line problems) = mid (before ts line problems)) :
    Leads p rule ts us next where
  arrives hp line problems := by rw [heq, h.arrives hp]
  overflows hp line problems := by
    rw [heq]
    exact h.overflows hp line problems

/-- Two stretches of the way are put together, and so are their conditions. -/
theorem Leads.trans (h : Leads p rule ts us mid) (h' : Leads q mid us vs next) :
    Leads (p ∧ q) rule ts vs next where
  arrives hpq line problems := by
    rw [h.arrives hpq.1 line problems, h'.arrives hpq.2 line problems]
  overflows hpq line problems := by
    by_cases hp : p
    · rw [h.arrives hp line problems]
      exact h'.overflows (fun hq => hpq ⟨hp, hq⟩) line problems
    · exact h.overflows hp line problems

/-- What overflows goes on overflowing, because no rule behind it forgets a problem. -/
theorem Leads.bind_of {x : Parse α} {f : α → Parse β} (hx : Leads p x ts us (pure a))
    (hf : ∀ a, Grows (f a)) : Leads p (x >>= f) ts us (f a) where
  arrives hp line problems := bind_eq_of_ok (hx.arrives hp line problems)
  overflows hp line problems := by
    obtain ⟨found, at_, hprefix⟩ := hx.overflows hp line problems
    refine ⟨found, at_, ?_⟩
    cases h : x (before ts line problems) with
    | ok a' c' =>
      rw [h] at hprefix
      rw [bind_eq_of_ok h]
      exact hprefix.trans ((hf a').grows c')
    | error fault c' =>
      rw [h] at hprefix
      rw [bind_eq_of_error h]
      exact hprefix

/-- A rule that leads to a value leads on to what is done with it. -/
theorem Leads.bind {x : Parse α} {f : α → Parse β} (hx : Leads p x ts us (pure a))
    [hf : ∀ a, Grows (f a)] : Leads p (x >>= f) ts us (f a) :=
  hx.bind_of hf

/-- A step that cannot fail is followed by a way that may. -/
theorem Passes.leads {x : Parse α} {f : α → Parse β} {next : Parse β} (hx : Passes x ts us a)
    (hf : Leads p (f a) us vs next) : Leads p (x >>= f) ts vs next where
  arrives hp line problems := by
    rw [bind_eq_of_ok (hx line problems), hf.arrives hp line problems]
  overflows hp line problems := by
    rw [bind_eq_of_ok (hx line problems)]
    exact hf.overflows hp line problems

/-- A way that may fail is followed by a step that cannot. -/
theorem Leads.passes (h : Leads p rule ts us mid) (hmid : Passes mid us vs a) :
    Leads p rule ts vs (pure a) where
  arrives hp line problems := by
    rw [h.arrives hp line problems, hmid line problems]
    rfl
  overflows := h.overflows

/-- A step that cannot fail leads to its value under no condition. -/
theorem Passes.leads_pure (h : Passes rule ts us a) : Leads True rule ts us (pure a) :=
  Leads.refl.passes h

/-- Where no level is left, everything is too deep. -/
theorem leads_tooDeep (h : ¬p) : Leads p (failAt .tooDeep : Parse α) ts us next where
  arrives hp := absurd hp h
  overflows _ line problems :=
    ⟨ts.head?.map Token.lexeme, (before ts line problems).line, by
      rw [← Cursor.current?_before ts line problems]
      exact List.prefix_rfl⟩

end Parse

/-- A rule that recovers has recorded what is too deep before it goes on. -/
theorem Grammar.leads_recovering {α : Type} {p : Prop} {rule : Parse α} {ts us : List Token} {a : α}
    (h : Parse.Leads p rule ts us (pure a)) :
    Parse.Leads p (recovering rule) ts us (pure (some a)) where
  arrives hp line problems := by
    unfold recovering
    rw [h.arrives hp line problems]
    rfl
  overflows hp line problems := by
    obtain ⟨found, at_, hprefix⟩ := h.overflows hp line problems
    refine ⟨found, at_, ?_⟩
    unfold recovering
    cases hrule : rule (Cursor.before ts line problems) with
    | ok a' c' =>
      rw [hrule] at hprefix
      exact hprefix
    | error fault c' =>
      rw [hrule, Parse.report_error, ← Cursor.problems_recordFault] at hprefix
      exact hprefix.trans (Cursor.problems_prefix_recover _)

end Quill

import Quill.Evaluation
import Quill.Proofs.Grammar.Streams
import Quill.Proofs.Number.ReadBack
import Quill.Proofs.Token.Lines
import Quill.Proofs.Token.Separation

/-!
# Canonical texts are read back

The canonical text of a finite number is read as the number again, bit for bit: as a minus, if the
sign bit is set, and one literal for the size of the number (`text_reads_back`). This is so on both
sides of the bound up to which whole numbers are written out, and for the smallest and largest
numbers with their hundreds of digits: no step of the proof looks at how large the number is.

A number is its sign and its magnitude (`Number.ofMagnitude_eq`). All that there is to its digits
follows from the magnitude (`Number.shortest_congr`), so the text is the sign in front of the text
without sign (`Number.chars_eq`), which the lexical rules give to this size
(`Number.spelled_chars`).
-/

namespace Quill

namespace Number

/-! ## Sign and magnitude -/

section

variable {magnitude : Nat} (h : magnitude < signBit)

include h

/-- The bits of a number are its magnitude and, if it is negative, the sign bit. -/
theorem toNat_ofMagnitude (negative : Bool) :
    (ofMagnitude negative magnitude).bits.toNat =
      if negative then signBit + magnitude else magnitude := by
  have hsign : signBit + signBit = 2 ^ 64 := by decide
  refine UInt64.toNat_ofNat_of_lt' ?_
  show _ < 2 ^ 64
  split <;> omega

/-- The sign of a number is the one that it was made with. -/
theorem isNegative_ofMagnitude (negative : Bool) :
    (ofMagnitude negative magnitude).isNegative = negative := by
  rw [isNegative, toNat_ofMagnitude h]
  cases negative with
  | false => exact decide_eq_false (Nat.not_le.2 h)
  | true => exact decide_eq_true (Nat.le_add_right _ _)

/-- The magnitude of a number is the one that it was made with. -/
theorem magnitude_ofMagnitude (negative : Bool) :
    (ofMagnitude negative magnitude).magnitude = magnitude := by
  rw [Number.magnitude, toNat_ofMagnitude h]
  cases negative with
  | false => exact Nat.mod_eq_of_lt h
  | true => rw [if_pos rfl, Nat.add_mod_left, Nat.mod_eq_of_lt h]

end

variable {n m : Number}

/-- A magnitude leaves out the sign bit. -/
theorem magnitude_lt (n : Number) : n.magnitude < signBit := Nat.mod_lt _ (by decide)

/-- A number is nothing but its sign and its magnitude. -/
theorem ofMagnitude_eq (n : Number) : ofMagnitude n.isNegative n.magnitude = n := by
  have hlt : n.bits.toNat < signBit + signBit := n.bits.toNat_lt
  have hbits : (ofMagnitude n.isNegative n.magnitude).bits.toNat = n.bits.toNat := by
    rw [toNat_ofMagnitude n.magnitude_lt, isNegative, magnitude]
    by_cases hsign : signBit ≤ n.bits.toNat
    · rw [if_pos (decide_eq_true hsign), Nat.mod_eq_sub_mod hsign, Nat.mod_eq_of_lt (by omega)]
      omega
    · rw [if_neg (by simpa using hsign), Nat.mod_eq_of_lt (Nat.lt_of_not_le hsign)]
  exact congrArg Number.mk (UInt64.toNat_inj.1 hbits)

/-- A number without its sign has the same magnitude. -/
theorem magnitude_abs (n : Number) : n.abs.magnitude = n.magnitude :=
  magnitude_ofMagnitude n.magnitude_lt false

/-- A number without its sign is not negative. -/
theorem isNegative_abs (n : Number) : n.abs.isNegative = false :=
  isNegative_ofMagnitude n.magnitude_lt false

/-- A number that is not negative is the same without its sign. -/
theorem abs_of_not_isNegative (h : n.isNegative = false) : n.abs = n := ofMagnitude_magnitude h

/-- The minus gives a negative number back, zero included. -/
theorem neg_abs (h : n.isNegative = true) : n.abs.neg = n := by
  rw [neg, isNegative_abs, magnitude_abs, Bool.not_false, ← h, ofMagnitude_eq]

/-! ## The sign in front of the digits -/

section

variable (h : n.magnitude = m.magnitude)

include h

/-- The units of a number depend on its magnitude alone. -/
theorem units_congr : n.units = m.units := by rw [units, units, h]

/-- Whether a number is finite depends on its magnitude alone. -/
theorem isFinite_congr : n.isFinite = m.isFinite := by rw [isFinite, isFinite, h]

/-- Whether a number is a plain one depends on its magnitude alone. -/
theorem isPlain_congr : n.isPlain = m.isPlain := by
  unfold isPlain isWhole wholePart
  rw [units_congr h, isFinite_congr h]

/-- The places behind the point depend on the magnitude alone. -/
theorem decimalPlaces_congr : n.decimalPlaces = m.decimalPlaces := by
  rw [decimalPlaces, decimalPlaces, h]

/-- The units of the last place depend on the magnitude alone. -/
theorem decimalUnits_congr : n.decimalUnits = m.decimalUnits := by
  rw [decimalUnits, decimalUnits, decimalPlaces_congr h, h]

/-- The decimal of some width depends on the magnitude alone. -/
theorem decimalOfWidth?_congr (tie : Tie) (total width : Nat) :
    n.decimalOfWidth? tie total width = m.decimalOfWidth? tie total width := by
  have hreads : n.readsBack = m.readsBack := by
    funext count
    rw [readsBack, readsBack, decimalPlaces_congr h, h]
  -- opened without its arguments, because the trials would be evaluated
  generalize hopen : @decimalOfWidth? = f
  delta decimalOfWidth? at hopen
  subst hopen
  beta_reduce
  rw [decimalPlaces_congr h, decimalUnits_congr h, hreads]

/-- The digits that are chosen for a number do not depend on its sign. -/
theorem shortest_congr (tie : Tie) : n.shortest tie = m.shortest tie := by
  have hexact : n.exactDecimal = m.exactDecimal := by
    rw [exactDecimal, exactDecimal, decimalPlaces_congr h, decimalUnits_congr h]
  simp only [shortest, units_congr h, decimalUnits_congr h, hexact, decimalOfWidth?_congr h]

end

/-- The text of a finite number is its sign and then the text without sign. -/
theorem chars_eq (hfinite : n.isFinite = true) : n.chars = n.signChars ++ n.abs.chars := by
  have hmagnitude := n.magnitude_abs
  have hnone : n.abs.signChars = [] := by
    rw [signChars, isNegative_abs, if_neg Bool.false_ne_true]
  rw [chars, chars, isPlain_congr hmagnitude, isFinite_congr hmagnitude, shortest_congr hmagnitude,
    wholePart, wholePart, units_congr hmagnitude, hnone, if_pos hfinite, if_pos hfinite]
  split
  · rfl
  · rfl

/-- The text of a finite number without its sign. -/
theorem spelled_abs (hfinite : n.isFinite = true) : Spelled (.number n.abs) n.abs.chars :=
  spelled_chars n.isNegative_abs ((isFinite_congr n.magnitude_abs).trans hfinite)

/-- A number is written on one line. -/
theorem lineFeed_not_mem_of_spelled {lexeme : List Char} (h : Spelled (.number n) lexeme) :
    '\n' ∉ lexeme := by
  have hdigits : ∀ {cs : List Char}, (∀ c ∈ cs, isDigit c = true) → '\n' ∉ cs :=
    fun hall hmem => absurd (hall _ hmem) (by decide)
  cases h with
  | integer _ hall => exact hdigits hall
  | fraction _ hwhole _ hdigit => simp [hdigits hwhole, hdigits hdigit]

/-! ## The tokens of a number -/

/-- The token for the sign of a number: a minus, if the sign bit is set. -/
def signTokens (n : Number) : List Token :=
  if n.isNegative then [⟨.symbol .minus, "-", 1⟩] else []

variable {d : Decomposition}

/-- In front of anything that a literal does not go on with, a number is a sign and a literal. -/
theorem exists_lexical_chars (hfinite : n.isFinite = true) (h : d.Lexical)
    (hmax : Maximal (.number n.abs) n.abs.chars d.source) :
    ∃ whole : Decomposition, whole.Lexical ∧ whole.source = n.chars ++ d.source
      ∧ whole.tokens = n.signTokens.map (fun t => (t.kind, t.lexeme)) ++
        (.number n.abs, n.abs.text) :: d.tokens := by
  have hliteral : (Decomposition.cons ⟨[], .number n.abs, n.abs.chars⟩ d).Lexical :=
    .cons .nil (spelled_abs hfinite) hmax h
  rw [chars_eq hfinite, signTokens, signChars]
  cases n.isNegative with
  | false => exact ⟨_, hliteral, by simp, rfl⟩
  | true =>
    refine ⟨.cons ⟨[], .symbol .minus, ['-']⟩ _, .cons .nil (.symbol rfl) ?_ hliteral, by simp, rfl⟩
    constructor
    · intro hmem
      exact absurd hmem (by decide)
    · intro hslash
      cases hslash

/-- The text of a number in front of other text gives the tokens for its sign and itself. -/
theorem tokenize_chars_append (hfinite : n.isFinite = true) (h : d.Lexical)
    (hmax : Maximal (.number n.abs) n.abs.chars d.source) (hline : '\n' ∉ d.source) :
    tokenize (String.ofList (n.chars ++ d.source)) =
      n.signTokens ++ ⟨.number n.abs, n.abs.text, 1⟩ :: d.tokens.map fun t => ⟨t.1, t.2, 1⟩ := by
  obtain ⟨whole, hwhole, hsource, htokens⟩ := exists_lexical_chars hfinite h hmax
  have hsign : (n.signTokens.map fun t => (t.kind, t.lexeme)).map (fun t => Token.mk t.1 t.2 1) =
      n.signTokens := by
    unfold signTokens
    split
    · rfl
    · rfl
  have hchars : '\n' ∉ (String.ofList (n.chars ++ d.source)).toList := by
    have habs := lineFeed_not_mem_of_spelled (spelled_abs hfinite)
    rw [String.toList_ofList, chars_eq hfinite, signChars]
    cases n.isNegative with
    | false => simp [habs, hline]
    | true => simp [habs, hline]
  rw [tokenize_of_oneLine hchars, ← hsource, hwhole.map_tokenize, htokens, List.map_append, hsign]
  rfl

/-- The text of a number has the tokens of its sign and its size. -/
theorem tokenize_text (hfinite : n.isFinite = true) :
    tokenize n.text = n.signTokens ++ [⟨.number n.abs, n.abs.text, 1⟩, ⟨.eof, "", 1⟩] := by
  have htokens := tokenize_chars_append hfinite (.ending .nil) (maximal_nil _ _) nofun
  rwa [show Decomposition.source ⟨[], [], []⟩ = [] from rfl, List.append_nil] at htokens

/-! ## Evaluation -/

/-- The expression that the text of a number is: a literal, with a minus for the sign. -/
def expression (n : Number) : Expr :=
  if n.isNegative then .unary ⟨.symbol .minus, "-", 1⟩ (.literal (.number n.abs) 1)
  else .literal (.number n.abs) 1

/-- The text of a number is an expression. -/
theorem parse_text (hfinite : n.isFinite = true) :
    parse (n.text ++ ";") = .ok ⟨[.expression n.expression]⟩ := by
  have hsemicolon : (Decomposition.cons ⟨[], .symbol .semicolon, [';']⟩ ⟨[], [], []⟩).Lexical :=
    .cons .nil (.symbol rfl) (maximal_nil _ _) (.ending .nil)
  have hmax : Maximal (.number n.abs) n.abs.chars [';'] := by
    refine ⟨?_, fun _ => nofun⟩
    intro c hc
    cases hc
    rfl
  have htokens := tokenize_chars_append hfinite hsemicolon hmax (by decide)
  rw [show Decomposition.source _ = [';'] from rfl] at htokens
  have hsource : n.text ++ ";" = String.ofList (n.chars ++ [';']) :=
    String.ofList_append.symm
  rw [parse_eq, hsource, htokens, signTokens, expression]
  -- the rules look at neither the size nor its text
  generalize n.abs.text = lexeme
  generalize n.abs = value
  cases n.isNegative with
  | false => rfl
  | true => rfl

/-- The expression of a number has the number as its value, with any fuel and in any state. -/
theorem evaluate_expression (n : Number) (fuel : Nat) (m : Machine) :
    evaluateAtFuel fuel n.expression m = .ok (.number n) m := by
  rw [expression]
  cases hsign : n.isNegative with
  | false =>
    rw [if_neg Bool.false_ne_true, abs_of_not_isNegative hsign]
    rfl
  | true =>
    rw [if_pos rfl]
    show EStateM.Result.ok (Value.number n.abs.neg) m = _
    rw [neg_abs hsign]

end Number

/-- **Canonical texts are read back.** The tokens of the text of a finite number are a minus, if its
sign bit is set, one literal for its size without the sign, bit for bit, and the end. As an
expression the text has the number as its value, negative zero included, and no other finite number
has the same text. -/
theorem text_reads_back {n : Number} (hfinite : n.isFinite = true) :
    tokenize n.text =
        (if n.isNegative then [⟨.symbol .minus, "-", 1⟩] else []) ++
          [⟨.number n.abs, n.abs.text, 1⟩, ⟨.eof, "", 1⟩]
      ∧ (∃ p e, parse (n.text ++ ";") = .ok p ∧ p.soleExpression? = some e
        ∧ ∀ fuel m, evaluateAtFuel fuel e m = .ok (.number n) m)
      ∧ ∀ other : Number, other.isFinite = true → other.text = n.text → other = n := by
  refine ⟨n.tokenize_text hfinite, ?_, fun other hother htext => ?_⟩
  · exact ⟨_, n.expression, n.parse_text hfinite, rfl, n.evaluate_expression⟩
  · -- one text is one expression, which has one value
    have hparse := other.parse_text hother
    rw [htext, n.parse_text hfinite] at hparse
    injection hparse with hprogram
    injection hprogram with hdeclarations
    injection hdeclarations with hdeclaration
    injection hdeclaration with hexpression
    have hvalue := other.evaluate_expression 0 (.ofSink .unlimited)
    rw [← hexpression, n.evaluate_expression] at hvalue
    injection hvalue with hnumber
    injection hnumber with hsame
    exact hsame.symm

/-- Negative zero keeps its sign. -/
theorem text_reads_back_negative_zero :
    tokenize (Number.text ⟨0x8000000000000000⟩) =
        [⟨.symbol .minus, "-", 1⟩, ⟨.number ⟨0⟩, "0", 1⟩, ⟨.eof, "", 1⟩]
      ∧ ∃ p e, parse (Number.text ⟨0x8000000000000000⟩ ++ ";") = .ok p
        ∧ p.soleExpression? = some e
        ∧ ∀ fuel m, evaluateAtFuel fuel e m = .ok (.number ⟨0x8000000000000000⟩) m := by
  have hfinite : Number.isFinite ⟨0x8000000000000000⟩ = true := by decide +kernel
  obtain ⟨htokens, hvalue, -⟩ := text_reads_back hfinite
  refine ⟨htokens.trans ?_, hvalue⟩
  decide +kernel

end Quill

import Mathlib.Tactic.Ring
import Quill.Proofs.Token.Spelled

/-!
# Numbers read back

The canonical text of a finite number without a sign is one that the lexical rules give this number
(`Number.spelled_chars`). So different numbers have different texts, and their texts are digits with
at most one point.

Rounding does not depend on how a ratio is written (`nearestMagnitude_mul_right`), and the ratio
that a number is rounds to the number (`nearestMagnitude_exact`). The digits of the text are either
those of the number itself, or they have been tried (`Number.readsBack`).
-/

namespace Quill

namespace Number

/-! ## Rounding -/

/-- A quotient is rounded alike if both of its sides are multiplied. -/
theorem roundQuotient_mul_right (num den : Nat) {k : Nat} (hk : 0 < k) :
    roundQuotient (num * k) (den * k) = roundQuotient num den := by
  simp only [roundQuotient, Nat.mul_div_mul_right _ _ hk, Nat.mul_mod_mul_right, ← Nat.mul_assoc,
    Nat.mul_lt_mul_right hk]

/-- A quotient without a remainder is not changed by rounding. -/
theorem roundQuotient_mul_self (count : Nat) {den : Nat} (hden : 0 < den) :
    roundQuotient (count * den) den = count := by
  simp [roundQuotient, hden]

/-- A ratio rounds to the same number when it is extended. -/
theorem nearestMagnitude_mul_right (num den : Nat) {k : Nat} (hk : 0 < k) :
    nearestMagnitude (num * k) (den * k) = nearestMagnitude num den := by
  have hscaled : num * k * Nat.pow 2 unitPlaces = num * Nat.pow 2 unitPlaces * k := by ring
  have hquotient : ∀ range,
      roundQuotient (num * Nat.pow 2 unitPlaces * k) (den * k * Nat.pow 2 range) =
        roundQuotient (num * Nat.pow 2 unitPlaces) (den * Nat.pow 2 range) := by
    intro range
    rw [Nat.mul_right_comm den, roundQuotient_mul_right _ _ hk]
  simp only [nearestMagnitude, hscaled, hquotient, Nat.mul_div_mul_right _ _ hk]

/-- The scale of a magnitude is the one that leaves fifty-three bits. -/
theorem log2_significand (magnitude : Nat) :
    Nat.log2 (significand magnitude * Nat.pow 2 (scale magnitude)) - 52 = scale magnitude := by
  by_cases hlow : magnitude < 2 ^ 52
  · have hscale : scale magnitude = 0 := by
      rw [scale, Nat.pow_eq, Nat.div_eq_of_lt hlow]
    have hsignificand : significand magnitude = magnitude := if_pos hlow
    rw [hscale, hsignificand, Nat.pow_eq, Nat.pow_zero, Nat.mul_one]
    by_cases hzero : magnitude = 0
    · rw [hzero, Nat.log2_zero]
    · have := (Nat.log2_lt hzero).2 hlow
      omega
  · have hsignificand : significand magnitude = magnitude % 2 ^ 52 + 2 ^ 52 := if_neg hlow
    have hlt := Nat.mod_lt magnitude (Nat.two_pow_pos 52)
    rw [hsignificand, Nat.pow_eq]
    have hlog : Nat.log2 ((magnitude % 2 ^ 52 + 2 ^ 52) * 2 ^ scale magnitude) =
        52 + scale magnitude := by
      refine (Nat.log2_eq_iff ?_).2 ⟨?_, ?_⟩
      · exact Nat.mul_ne_zero (by omega) (Nat.two_pow_pos _).ne'
      · rw [Nat.pow_add]
        exact Nat.mul_le_mul_right _ (Nat.le_add_left _ _)
      · rw [show 52 + scale magnitude + 1 = 53 + scale magnitude by omega, Nat.pow_add]
        exact Nat.mul_lt_mul_of_pos_right (by omega) (Nat.two_pow_pos _)
    omega

/-- A magnitude is put together from its scale and its significand. -/
theorem scale_mul_add_significand (magnitude : Nat) :
    scale magnitude * Nat.pow 2 52 + significand magnitude = magnitude := by
  simp only [scale, significand, Nat.pow_eq]
  split <;> omega

/-- The ratio that a finite number is rounds to the number. -/
theorem nearestMagnitude_exact {num den magnitude : Nat} (hden : 0 < den)
    (hfinite : magnitude < infiniteMagnitude)
    (h : num * Nat.pow 2 unitPlaces = significand magnitude * Nat.pow 2 (scale magnitude) * den) :
    nearestMagnitude num den = magnitude := by
  have hround : roundQuotient (num * Nat.pow 2 unitPlaces) (den * Nat.pow 2 (scale magnitude)) =
      significand magnitude := by
    rw [h, Nat.mul_assoc, Nat.mul_comm _ den]
    exact roundQuotient_mul_self _ (Nat.mul_pos hden (Nat.two_pow_pos _))
  have hwhole : num * Nat.pow 2 unitPlaces / den =
      significand magnitude * Nat.pow 2 (scale magnitude) := by
    rw [h, Nat.mul_div_cancel _ hden]
  simp only [nearestMagnitude, hwhole, log2_significand, hround, scale_mul_add_significand]
  exact Nat.min_eq_left hfinite.le

/-! ## Numbers by their magnitudes -/

/-- The magnitude of infinity leaves out the sign bit. -/
theorem infiniteMagnitude_lt : infiniteMagnitude < signBit := by decide

/-- A number that is not negative is made of its magnitude. -/
theorem ofMagnitude_magnitude {n : Number} (h : n.isNegative = false) :
    ofMagnitude false n.magnitude = n := by
  have hlt : n.bits.toNat < signBit := Nat.lt_of_not_le (of_decide_eq_false h)
  rw [ofMagnitude, if_neg Bool.false_ne_true, magnitude, Nat.mod_eq_of_lt hlt, UInt64.ofNat_toNat]

/-- No ratio has a greater magnitude than infinity. -/
theorem nearestMagnitude_le (num den : Nat) : nearestMagnitude num den ≤ infiniteMagnitude :=
  Nat.min_le_right _ _

/-- The bits of the number for a ratio are the magnitude nearest to it. -/
theorem toNat_ofRatio (num den : Nat) :
    (ofRatio num den).bits.toNat = nearestMagnitude num den := by
  have hlt : nearestMagnitude num den < 2 ^ 64 :=
    ((nearestMagnitude_le num den).trans_lt infiniteMagnitude_lt).trans (by decide)
  rw [ofRatio, ofMagnitude, if_neg Bool.false_ne_true, UInt64.toNat_ofNat_of_lt' hlt]

/-- The number for a ratio does not depend on common factors. -/
theorem ofRatio_mul_right (num den : Nat) {k : Nat} (hk : 0 < k) :
    ofRatio (num * k) (den * k) = ofRatio num den := by
  rw [ofRatio, nearestMagnitude_mul_right _ _ hk, ofRatio]

/-- No ratio is a negative number. -/
theorem isNegative_ofRatio (num den : Nat) : (ofRatio num den).isNegative = false := by
  rw [isNegative, toNat_ofRatio]
  exact decide_eq_false
    (Nat.not_le.2 ((nearestMagnitude_le num den).trans_lt infiniteMagnitude_lt))

/-- Every ratio is a number, infinity included. -/
theorem isNaN_ofRatio (num den : Nat) : (ofRatio num den).isNaN = false := by
  have hle := nearestMagnitude_le num den
  rw [isNaN, magnitude, toNat_ofRatio, Nat.mod_eq_of_lt (hle.trans_lt infiniteMagnitude_lt)]
  exact decide_eq_false (Nat.not_lt.2 hle)

end Number

/-! ## Decimals -/

namespace Decimal

/-- The number of a decimal, as a ratio of powers of ten. -/
theorem toNumber_eq (digits dropped places : Nat) :
    (Decimal.mk digits ((dropped : Int) - places)).toNumber =
      Number.ofRatio (digits * Nat.pow 10 dropped) (Nat.pow 10 places) := by
  have hten : ∀ e, 0 < Nat.pow 10 e := fun e => Nat.pow_pos (by decide)
  have hsplit : ∀ {e e'}, e ≤ e' → Nat.pow 10 (e' - e) * Nat.pow 10 e = Nat.pow 10 e' :=
    fun h => by simp only [Nat.pow_eq, ← Nat.pow_add, Nat.sub_add_cancel h]
  rcases Nat.lt_or_ge dropped places with hlt | hle
  · have hexponent : (dropped : Int) - places = .negSucc (places - dropped - 1) := by
      rw [Int.negSucc_eq]
      omega
    rw [hexponent]
    calc Number.ofRatio digits (Nat.pow 10 (places - dropped - 1 + 1))
        = Number.ofRatio digits (Nat.pow 10 (places - dropped)) := by
          rw [Nat.sub_add_cancel (Nat.sub_pos_of_lt hlt)]
      _ = Number.ofRatio (digits * Nat.pow 10 dropped) (Nat.pow 10 places) := by
          rw [← Number.ofRatio_mul_right _ _ (hten dropped), hsplit hlt.le]
  · have hexponent : (dropped : Int) - places = .ofNat (dropped - places) := by
      rw [Int.ofNat_eq_natCast]
      omega
    rw [hexponent]
    calc Number.ofRatio (digits * Nat.pow 10 (dropped - places)) 1
        = Number.ofRatio (digits * Nat.pow 10 dropped) (Nat.pow 10 places) := by
          rw [← Number.ofRatio_mul_right _ _ (hten places), Nat.mul_assoc, hsplit hle, Nat.one_mul]

/-- A numeral is written in digits. -/
theorem isDigit_of_mem_toDigits {n : Nat} {c : Char} (h : c ∈ Nat.toDigits 10 n) :
    Quill.isDigit c = true := by
  have hdigit := Nat.isDigit_of_mem_toDigits (by decide) (by decide) h
  simpa [Quill.isDigit, Char.isDigit, Char.le_def] using hdigit

/-- Zeros are digits. -/
theorem isDigit_of_mem_zeros {k : Nat} {c : Char} (h : c ∈ List.replicate k '0') :
    Quill.isDigit c = true := by
  rw [List.eq_of_mem_replicate h]
  decide

/-- Digits alone spell the number for their value. -/
theorem spelled_integer {digits : List Char} (hsome : digits ≠ [])
    (hall : ∀ c ∈ digits, Quill.isDigit c = true) :
    Spelled (.number (Number.ofRatio (Nat.ofDigitChars 10 digits 0) 1)) digits := by
  have hnumber : (ofDigitChars digits 0).toNumber =
      Number.ofRatio (Nat.ofDigitChars 10 digits 0) 1 :=
    congrArg (Number.ofRatio · 1) (Nat.mul_one _)
  exact hnumber ▸ .integer hsome hall

/-- Digits with a point between them spell the number for their value over a power of ten. -/
theorem spelled_fraction {whole digits : List Char} {e : Nat} (hwhole : whole ≠ [])
    (hlength : digits.length = e + 1) (hall : ∀ c ∈ whole ++ digits, Quill.isDigit c = true) :
    Spelled
      (.number (Number.ofRatio (Nat.ofDigitChars 10 (whole ++ digits) 0) (Nat.pow 10 (e + 1))))
      (whole ++ '.' :: digits) := by
  have hnumber : (ofDigitChars (whole ++ digits) digits.length).toNumber =
      Number.ofRatio (Nat.ofDigitChars 10 (whole ++ digits) 0) (Nat.pow 10 (e + 1)) := by
    rw [hlength]
    rfl
  have hsome : digits ≠ [] := List.ne_nil_of_length_eq_add_one hlength
  exact hnumber ▸ .fraction hwhole (fun c hc => hall c (List.mem_append_left _ hc)) hsome
    fun c hc => hall c (List.mem_append_right _ hc)

/-- The positional text of a decimal is one of its number. -/
theorem spelled_positional (d : Decimal) : Spelled (.number d.toNumber) d.positional := by
  obtain ⟨n, exponent⟩ := d
  have hdigits : ∀ c ∈ Nat.toDigits 10 n, Quill.isDigit c = true :=
    fun c hc => isDigit_of_mem_toDigits hc
  cases exponent with
  | ofNat zeros =>
    have hvalue : Nat.ofDigitChars 10 (Nat.toDigits 10 n ++ List.replicate zeros '0') 0 =
        n * Nat.pow 10 zeros := by
      rw [Nat.ofDigitChars_append, Nat.ofDigitChars_ten_toDigits, Nat.ofDigitChars_replicate_zero,
        Nat.mul_comm, Nat.pow_eq]
    have hall : ∀ c ∈ Nat.toDigits 10 n ++ List.replicate zeros '0', Quill.isDigit c = true :=
      List.forall_mem_append.2 ⟨hdigits, fun c hc => isDigit_of_mem_zeros hc⟩
    have hspelled := spelled_integer (by simp [Nat.toDigits_ne_nil]) hall
    rwa [hvalue] at hspelled
  | negSucc e =>
    rw [positional]
    dsimp only
    split
    · next hplaces =>
      -- the point stands between digits of the decimal
      have hsplit :=
        List.take_append_drop ((Nat.toDigits 10 n).length - (e + 1)) (Nat.toDigits 10 n)
      have hwhole : (Nat.toDigits 10 n).take ((Nat.toDigits 10 n).length - (e + 1)) ≠ [] := by
        rw [Ne, List.take_eq_nil_iff, not_or]
        exact ⟨by omega, Nat.toDigits_ne_nil⟩
      have hlength : ((Nat.toDigits 10 n).drop ((Nat.toDigits 10 n).length - (e + 1))).length =
          e + 1 := by
        rw [List.length_drop]
        omega
      have hspelled := spelled_fraction hwhole hlength (by rw [hsplit]; exact hdigits)
      rwa [hsplit, Nat.ofDigitChars_ten_toDigits] at hspelled
    · next hplaces =>
      -- there are zeros between the point and the digits
      obtain ⟨zeros, hzeros⟩ := Nat.exists_eq_add_of_le (Nat.le_of_not_lt hplaces)
      have hvalue :
          Nat.ofDigitChars 10 (['0'] ++ (List.replicate zeros '0' ++ Nat.toDigits 10 n)) 0 = n := by
        rw [Nat.ofDigitChars_append, Nat.ofDigitChars_append, Nat.ofDigitChars_replicate_zero]
        exact Nat.ofDigitChars_ten_toDigits
      have hlength : (List.replicate zeros '0' ++ Nat.toDigits 10 n).length = e + 1 := by
        rw [List.length_append, List.length_replicate]
        omega
      have hall : ∀ c ∈ ['0'] ++ (List.replicate zeros '0' ++ Nat.toDigits 10 n),
          Quill.isDigit c = true :=
        List.forall_mem_append.2 ⟨List.forall_mem_singleton.2 rfl, List.forall_mem_append.2
          ⟨fun c hc => isDigit_of_mem_zeros hc, hdigits⟩⟩
      have hspelled := spelled_fraction (List.cons_ne_nil '0' []) hlength hall
      rw [hvalue] at hspelled
      rwa [hzeros, Nat.add_sub_cancel_left]

end Decimal

/-! ## The digits of a number -/

namespace Number

variable {n : Number}

/-- The number whose magnitude is nearest to a ratio is the number for that ratio. -/
theorem ofRatio_eq (hsign : n.isNegative = false) {num den : Nat}
    (h : nearestMagnitude num den = n.magnitude) : ofRatio num den = n := by
  rw [ofRatio, h, ofMagnitude_magnitude hsign]

/-- A ratio of the size of a finite number rounds to it. -/
theorem ofRatio_exact (hsign : n.isNegative = false) (hfinite : n.isFinite = true) {num den : Nat}
    (hden : 0 < den) (h : num * Nat.pow 2 unitPlaces = n.units * den) : ofRatio num den = n :=
  ofRatio_eq hsign (nearestMagnitude_exact hden (of_decide_eq_true hfinite) h)

/-- The exact decimal of a finite number is rounded back to the number. -/
theorem exactDecimal_toNumber (hsign : n.isNegative = false) (hfinite : n.isFinite = true) :
    n.exactDecimal.toNumber = n := by
  have hdecimal := Decimal.toNumber_eq n.decimalUnits 0 n.decimalPlaces
  rw [Int.natCast_zero, Int.zero_sub] at hdecimal
  refine hdecimal.trans (ofRatio_exact hsign hfinite (Nat.pow_pos (by decide)) ?_)
  have htwo : Nat.pow 2 (scale n.magnitude - unitPlaces) * Nat.pow 2 unitPlaces =
      Nat.pow 2 (scale n.magnitude) * Nat.pow 2 n.decimalPlaces := by
    have hplaces : scale n.magnitude - unitPlaces + unitPlaces =
        scale n.magnitude + n.decimalPlaces := by
      rw [decimalPlaces]
      omega
    simp only [Nat.pow_eq, ← Nat.pow_add, hplaces]
  have hten : Nat.pow 10 n.decimalPlaces = Nat.pow 2 n.decimalPlaces * Nat.pow 5 n.decimalPlaces :=
    Nat.mul_pow 2 5 n.decimalPlaces
  calc n.decimalUnits * Nat.pow 10 0 * Nat.pow 2 unitPlaces
      = significand n.magnitude * Nat.pow 5 n.decimalPlaces
          * (Nat.pow 2 (scale n.magnitude - unitPlaces) * Nat.pow 2 unitPlaces) := by
        rw [decimalUnits, show Nat.pow 10 0 = 1 from rfl]
        ring
    _ = n.units * Nat.pow 10 n.decimalPlaces := by
        rw [htwo, hten, units]
        ring

/-- A decimal whose count has been tried is one of the number. -/
theorem toNumber_of_readsBack (hsign : n.isNegative = false) {digits dropped : Nat}
    (h : n.readsBack (digits * Nat.pow 10 dropped) = true) :
    (Decimal.mk digits ((dropped : Int) - n.decimalPlaces)).toNumber = n := by
  rw [Decimal.toNumber_eq]
  exact ofRatio_eq hsign (eq_of_beq h)

/-- A decimal of a width has a count that has been tried, which may be a power of ten. -/
theorem decimalOfWidth?_cases {tie : Tie} {total width : Nat} {d : Decimal}
    (h : n.decimalOfWidth? tie total width = some d) :
    ∃ dropped count : Nat, n.readsBack (count * Nat.pow 10 dropped) = true ∧
      (d = ⟨count, dropped - n.decimalPlaces⟩ ∨
        count = Nat.pow 10 width ∧ d = ⟨1, dropped - n.decimalPlaces + width⟩) := by
  -- opened without its arguments and then generalised, because the trials would be evaluated
  generalize hopen : @decimalOfWidth? = f at h
  delta decimalOfWidth? at hopen
  subst hopen
  beta_reduce at h
  refine ⟨total - width, ?_⟩
  generalize n.readsBack = reads at h ⊢
  extract_lets dropped step low twice exponent below above at h
  have hbelow : reads (low * step) = true → ∃ count, reads (count * step) = true ∧
      (below = ⟨count, exponent⟩ ∨ count = Nat.pow 10 width ∧ below = ⟨1, exponent + width⟩) :=
    fun hlow => ⟨low, hlow, .inl rfl⟩
  have habove : reads ((low + 1) * step) = true → ∃ count, reads (count * step) = true ∧
      (above = ⟨count, exponent⟩ ∨ count = Nat.pow 10 width ∧ above = ⟨1, exponent + width⟩) := by
    intro hhigh
    refine ⟨low + 1, hhigh, ?_⟩
    by_cases hpower : low + 1 = Nat.pow 10 width
    · exact .inr ⟨hpower, if_pos hpower⟩
    · exact .inl (if_neg hpower)
  split at h
  · cases h
  · next hlow _ => exact Option.some.inj h ▸ hbelow hlow
  · next hhigh => exact Option.some.inj h ▸ habove hhigh
  · next hlow hhigh =>
    have hchosen : d = below ∨ d = above := by
      cases tie <;> dsimp only at h <;> split_ifs at h
      all_goals first
        | exact .inl (Option.some.inj h).symm
        | exact .inr (Option.some.inj h).symm
    rcases hchosen with rfl | rfl
    · exact hbelow hlow
    · exact habove hhigh

/-- A decimal of some width that is found stands for the number. -/
theorem toNumber_of_decimalOfWidth? (hsign : n.isNegative = false) {tie : Tie} {total width : Nat}
    {d : Decimal} (h : n.decimalOfWidth? tie total width = some d) : d.toNumber = n := by
  obtain ⟨dropped, count, hreads, rfl | ⟨rfl, rfl⟩⟩ := decimalOfWidth?_cases h
  · exact toNumber_of_readsBack hsign hreads
  · have hexponent : (dropped : Int) - n.decimalPlaces + width =
        ((width + dropped : Nat) : Int) - n.decimalPlaces := by
      omega
    have hcount : Nat.pow 10 width * Nat.pow 10 dropped = 1 * Nat.pow 10 (width + dropped) := by
      rw [Nat.one_mul]
      exact (Nat.pow_add 10 width dropped).symm
    rw [hcount] at hreads
    rw [hexponent]
    exact toNumber_of_readsBack hsign hreads

/-- The digits that are chosen for a finite number read back as the number. -/
theorem shortest_toNumber (hsign : n.isNegative = false) (hfinite : n.isFinite = true) (tie : Tie) :
    (n.shortest tie).toNumber = n := by
  rw [shortest]
  split
  · next hzero =>
    exact ofRatio_exact hsign hfinite Nat.one_pos (by rw [hzero]; simp)
  · dsimp only
    cases hfound : (List.range 17).findSome? fun i =>
        n.decimalOfWidth? tie (Nat.toDigits 10 n.decimalUnits).length (i + 1) with
    | none => exact exactDecimal_toNumber hsign hfinite
    | some d =>
      obtain ⟨i, -, hd⟩ := List.exists_of_findSome?_eq_some hfound
      exact toNumber_of_decimalOfWidth? hsign hd

/-- The canonical text of a finite number without a sign is one that the lexical rules give it. -/
theorem spelled_chars (hsign : n.isNegative = false) (hfinite : n.isFinite = true) :
    Spelled (.number n) n.chars := by
  have hnone : n.signChars = [] := by rw [signChars, hsign, if_neg Bool.false_ne_true]
  rw [chars, hnone, hfinite, if_pos rfl]
  split
  · next hplain =>
    simp only [isPlain, isWhole, Bool.and_eq_true, beq_iff_eq] at hplain
    have hall : ∀ c ∈ Nat.toDigits 10 n.wholePart, Quill.isDigit c = true :=
      fun c hc => Decimal.isDigit_of_mem_toDigits hc
    have hvalue : ofRatio n.wholePart 1 = n := by
      refine ofRatio_exact hsign hfinite Nat.one_pos ?_
      rw [Nat.mul_one, wholePart]
      exact Nat.div_mul_cancel (Nat.dvd_of_mod_eq_zero hplain.1.2)
    have hspelled := Decimal.spelled_integer Nat.toDigits_ne_nil hall
    rwa [Nat.ofDigitChars_ten_toDigits, hvalue] at hspelled
  · have hspelled := (n.shortest .up).spelled_positional
    rwa [shortest_toNumber hsign hfinite] at hspelled

/-! ## Numbers of lexemes -/

/-- No decimal stands for a negative number. -/
theorem isNegative_toNumber (d : Decimal) : d.toNumber.isNegative = false := by
  unfold Decimal.toNumber
  split <;> exact isNegative_ofRatio _ _

/-- Every decimal stands for a number, infinity included. -/
theorem isNaN_toNumber (d : Decimal) : d.toNumber.isNaN = false := by
  unfold Decimal.toNumber
  split <;> exact isNaN_ofRatio _ _

/-- Lexemes of numbers have no sign and are defined. -/
theorem unsigned_of_spelled {lexeme : List Char} (h : Spelled (.number n) lexeme) :
    n.isNegative = false ∧ n.isNaN = false := by
  cases h with
  | integer => exact ⟨isNegative_toNumber _, isNaN_toNumber _⟩
  | fraction => exact ⟨isNegative_toNumber _, isNaN_toNumber _⟩

/-- A number that is not finite is written as `inf`. -/
theorem chars_of_not_isFinite (hsign : n.isNegative = false) (hnan : n.isNaN = false)
    (hinfinite : n.isFinite = false) : n.chars = "inf".toList := by
  simp [chars, isPlain, isWhole, unboundedChars, signChars, hsign, hnan, hinfinite]

/-- A decimal that is too large has the text of infinity. -/
example : (Decimal.mk 1 309).toNumber.chars = "inf".toList := by decide +kernel

end Number

end Quill

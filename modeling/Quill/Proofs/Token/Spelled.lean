import Quill.Proofs.Token.Lexemes

/-!
# The lexical rules

Which texts are tokens, and of which kind, apart from how the lexer reads them.

* `Spelled` states the rules: which kind, with which value, belongs to which text.
* `Maximal` says what may not stand directly behind a lexeme, because it would have gone on with it.

The lexer follows these rules and nothing else. `Taken.first?_of_spelled` says that it takes a
maximal lexeme off as it is, and `Taken.fits_ofChars` that whatever it takes off is a maximal
lexeme, but for a text without its closing quote. So the kind of a lexeme is determined by its text
(`Spelled.unique`).
-/

namespace Quill

/-! ## Lexical rules -/

/-- Characters that are tokens of the kind for faults: they start nothing else. -/
def isStray (c : Char) : Bool :=
  (Symbol.ofChar? c).isNone && c != '"' && !isDigit c && !isWordStart c && !isBlank c

/-- The lexical rules: a kind of token, with its value if it has one, and a text of this kind. -/
inductive Spelled : Kind → List Char → Prop
  /-- A symbol has one text. -/
  | symbol {s : Symbol} {lexeme : List Char} (text : String.ofList lexeme = s.text) :
      Spelled (.symbol s) lexeme
  /-- A reserved word has one text. -/
  | keyword {k : Keyword} {lexeme : List Char} (text : String.ofList lexeme = k.text) :
      Spelled (.keyword k) lexeme
  /-- Names are words that are not reserved. -/
  | identifier {c : Char} {cs : List Char} (start : isWordStart c = true)
      (rest : ∀ d ∈ cs, isWordRest d = true)
      (free : ∀ k : Keyword, String.ofList (c :: cs) ≠ k.text) :
      Spelled .identifier (c :: cs)
  /-- A text literal stands between quotes. -/
  | string {contents : List Char} (closed : '"' ∉ contents) :
      Spelled (.string (String.ofList contents)) ('"' :: contents ++ ['"'])
  /-- A whole number is written by its digits. -/
  | integer {digits : List Char} (some : digits ≠ []) (all : ∀ d ∈ digits, isDigit d = true) :
      Spelled (.number (Decimal.ofDigitChars digits 0).toNumber) digits
  /-- Another number has digits on both sides of a point. -/
  | fraction {whole digits : List Char} (someWhole : whole ≠ [])
      (allWhole : ∀ d ∈ whole, isDigit d = true) (someDigits : digits ≠ [])
      (allDigits : ∀ d ∈ digits, isDigit d = true) :
      Spelled (.number (Decimal.ofDigitChars (whole ++ digits) digits.length).toNumber)
        (whole ++ '.' :: digits)
  /-- Any other character stands for itself. -/
  | stray {c : Char} (stray : isStray c = true) : Spelled .unknown [c]

/-- What stands directly behind the text of a kind does not go on with it. -/
def Maximal : (kind : Kind) → (lexeme behind : List Char) → Prop
  | .symbol s, _, behind =>
    (s ∈ [.bang, .equal, .less, .greater] → behind.head? ≠ some '=')
      ∧ (s = .slash → behind.head? ≠ some '/')
  | .keyword _, _, behind => ∀ c ∈ behind.head?, isWordRest c = false
  | .identifier, _, behind => ∀ c ∈ behind.head?, isWordRest c = false
  | .number _, lexeme, behind =>
    (∀ c ∈ behind.head?, isDigit c = false)
      ∧ ('.' ∉ lexeme → ∀ d rest, behind = '.' :: d :: rest → isDigit d = false)
  | _, _, _ => True

/-! ## Runs of characters -/

section

variable {p : Char → Bool} {run behind : List Char}

/-- A run of characters of a class up to one that is not of the class. -/
theorem takeWhile_append_of_boundary (hrun : ∀ c ∈ run, p c = true)
    (hbehind : ∀ c ∈ behind.head?, p c = false) : (run ++ behind).takeWhile p = run := by
  rw [List.takeWhile_append_of_pos hrun]
  cases behind with
  | nil => simp
  | cons c cs => simp [hbehind c rfl]

/-- Behind a run up to a boundary there is what is behind the boundary. -/
theorem dropWhile_append_of_boundary (hrun : ∀ c ∈ run, p c = true)
    (hbehind : ∀ c ∈ behind.head?, p c = false) : (run ++ behind).dropWhile p = behind := by
  rw [List.dropWhile_append_of_pos hrun]
  cases behind with
  | nil => rfl
  | cons c cs => simp [hbehind c rfl]

/-- A run ends in front of a character that does not belong to it. -/
theorem eq_false_of_mem_head?_dropWhile {cs : List Char} :
    ∀ c ∈ (cs.dropWhile p).head?, p c = false := by
  intro c hc
  have hhead := List.head?_dropWhile_not p cs
  rw [Option.mem_def.1 hc] at hhead
  simpa using hhead

/-- Characters among which another is not are all different from it. -/
theorem bne_of_not_mem {c : Char} (h : c ∉ run) : ∀ d ∈ run, (d != c) = true := by
  intro d hd
  rw [bne_iff_ne]
  rintro rfl
  exact h hd

/-- All characters of a run belong to it. -/
theorem of_mem_takeWhile {cs : List Char} : ∀ c ∈ cs.takeWhile p, p c = true :=
  List.all_eq_true.1 List.all_takeWhile

end

/-! ## Where lists split -/

section

variable {α : Type} {p : α → Prop}

/-- A list has one split behind its first elements of a class. -/
theorem append_inj_of_boundary {xs xs' ys ys' : List α} (hxs : ∀ a ∈ xs, p a)
    (hxs' : ∀ a ∈ xs', p a) (hys : ∀ a ∈ ys.head?, ¬p a) (hys' : ∀ a ∈ ys'.head?, ¬p a)
    (h : xs ++ ys = xs' ++ ys') : xs = xs' ∧ ys = ys' := by
  induction xs generalizing xs' with
  | nil =>
    cases xs' with
    | nil => exact ⟨rfl, h⟩
    | cons b bs =>
      rw [List.nil_append] at h
      exact absurd (hxs' b List.mem_cons_self) (hys b (by rw [h]; rfl))
  | cons a as ih =>
    cases xs' with
    | nil =>
      rw [List.nil_append] at h
      exact absurd (hxs a List.mem_cons_self) (hys' a (by rw [← h]; rfl))
    | cons b bs =>
      obtain ⟨rfl, hrest⟩ := List.cons.inj h
      obtain ⟨rfl, rfl⟩ := ih (fun c hc => hxs c (.tail _ hc)) (fun c hc => hxs' c (.tail _ hc)) hrest
      exact ⟨rfl, rfl⟩

/-- A list has one split in front of its last elements of a class. -/
theorem append_inj_of_boundary' {xs xs' ys ys' : List α} (hys : ∀ a ∈ ys, p a)
    (hys' : ∀ a ∈ ys', p a) (hxs : ∀ a ∈ xs.getLast?, ¬p a) (hxs' : ∀ a ∈ xs'.getLast?, ¬p a)
    (h : xs ++ ys = xs' ++ ys') : xs = xs' ∧ ys = ys' := by
  have hreverse := congrArg List.reverse h
  rw [List.reverse_append, List.reverse_append] at hreverse
  obtain ⟨hy, hx⟩ := append_inj_of_boundary (p := p) (by simpa using hys) (by simpa using hys')
    (by simpa using hxs) (by simpa using hxs') hreverse
  exact ⟨List.reverse_inj.1 hx, List.reverse_inj.1 hy⟩

/-- A list has one split at its first element of a kind. -/
theorem append_cons_inj_of_not_mem {a : α} {xs xs' ys ys' : List α} (hxs : a ∉ xs) (hxs' : a ∉ xs')
    (h : xs ++ a :: ys = xs' ++ a :: ys') : xs = xs' ∧ ys = ys' := by
  obtain ⟨rfl, hys⟩ := append_inj_of_boundary (p := (· ≠ a)) (fun b hb hba => hxs (hba ▸ hb))
    (fun b hb hba => hxs' (hba ▸ hb)) (by simp) (by simp) h
  exact ⟨rfl, (List.cons.inj hys).2⟩

end

/-! ## Classes of characters

A character starts at most one sort of token. -/

/-- What starts a symbol starts nothing else, and only a slash may start a comment. -/
theorem Symbol.of_ofChar? {c : Char} {s : Symbol} (h : Symbol.ofChar? c = some s) :
    c ≠ '"' ∧ isDigit c = false ∧ isWordStart c = false ∧ isBlank c = false
      ∧ (c = '/' → s = .slash) := by
  unfold Symbol.ofChar? at h
  split at h
  all_goals first
    | (cases h; decide)
    | cases h

/-- No digit starts a word. -/
theorem isWordStart_of_isDigit {c : Char} (h : isDigit c = true) : isWordStart c = false := by
  have hbounds : 48 ≤ c.toNat ∧ c.toNat ≤ 57 := by
    simpa [isDigit, Char.le_def, UInt32.le_iff_toNat_le] using h
  have hletter : c ≠ '_' := by
    rintro rfl
    exact absurd h (by decide)
  simp [isWordStart, Char.le_def, UInt32.le_iff_toNat_le, hletter]
  omega

/-- A character of a word starts neither a gap nor a text literal nor a symbol. -/
theorem not_blank_of_isWordRest {c : Char} (h : isWordRest c = true) :
    isBlank c = false ∧ c ≠ '/' ∧ c ≠ '"' ∧ Symbol.ofChar? c = none := by
  refine ⟨?_, ?_, ?_, ?_⟩
  · rw [Bool.eq_false_iff]
    intro hblank
    simp only [isBlank, Bool.or_eq_true, beq_iff_eq] at hblank
    obtain ((rfl | rfl) | rfl) | rfl := hblank
    all_goals exact absurd h (by decide)
  · rintro rfl
    exact absurd h (by decide)
  · rintro rfl
    exact absurd h (by decide)
  · cases hsymbol : Symbol.ofChar? c with
    | none => rfl
    | some s =>
      obtain ⟨-, hdigit, hstart, -⟩ := Symbol.of_ofChar? hsymbol
      simp [isWordRest, hdigit, hstart] at h

/-- A digit may stand in a word. -/
theorem isWordRest_of_isDigit {c : Char} (h : isDigit c = true) : isWordRest c = true := by
  rw [isWordRest, h, Bool.or_true]

/-- What starts a word may stand in it. -/
theorem isWordRest_of_isWordStart {c : Char} (h : isWordStart c = true) :
    isWordRest c = true := by
  rw [isWordRest, h, Bool.true_or]

/-! ## Texts of symbols and reserved words -/

/-- A symbol is one character, or a symbol of one character with `=` behind it. -/
theorem Symbol.text_cases : (s : Symbol) →
    (∃ c, Symbol.ofChar? c = some s ∧ s.text = String.ofList [c])
      ∨ ∃ c t, Symbol.ofChar? c = some t ∧ t.withEqual? = some s ∧ s.text = String.ofList [c, '=']
  | .leftParen => .inl ⟨'(', rfl, rfl⟩
  | .rightParen => .inl ⟨')', rfl, rfl⟩
  | .leftBrace => .inl ⟨'\x7b', rfl, rfl⟩
  | .rightBrace => .inl ⟨'\x7d', rfl, rfl⟩
  | .comma => .inl ⟨',', rfl, rfl⟩
  | .dot => .inl ⟨'.', rfl, rfl⟩
  | .semicolon => .inl ⟨';', rfl, rfl⟩
  | .minus => .inl ⟨'-', rfl, rfl⟩
  | .plus => .inl ⟨'+', rfl, rfl⟩
  | .slash => .inl ⟨'/', rfl, rfl⟩
  | .star => .inl ⟨'*', rfl, rfl⟩
  | .bang => .inl ⟨'!', rfl, rfl⟩
  | .equal => .inl ⟨'=', rfl, rfl⟩
  | .greater => .inl ⟨'>', rfl, rfl⟩
  | .less => .inl ⟨'<', rfl, rfl⟩
  | .bangEqual => .inr ⟨'!', .bang, rfl, rfl, rfl⟩
  | .equalEqual => .inr ⟨'=', .equal, rfl, rfl, rfl⟩
  | .greaterEqual => .inr ⟨'>', .greater, rfl, rfl, rfl⟩
  | .lessEqual => .inr ⟨'<', .less, rfl, rfl, rfl⟩

/-- A symbol with an equals sign is no start of a longer one. -/
theorem Symbol.mem_of_withEqual? {s t : Symbol} (h : s.withEqual? = some t) :
    s ∈ [.bang, .equal, .less, .greater] ∧ t ∉ [.bang, .equal, .less, .greater] ∧ t ≠ .slash := by
  cases s <;> cases h <;> decide

/-- Four symbols have a longer one with an equals sign. -/
theorem Symbol.exists_withEqual? {s : Symbol} (h : s ∈ [bang, equal, less, greater]) :
    ∃ t, s.withEqual? = some t := by
  simp only [List.mem_cons, List.not_mem_nil, or_false] at h
  obtain rfl | rfl | rfl | rfl := h
  all_goals exact ⟨_, rfl⟩

/-- Only the slash is the symbol that a comment starts with. -/
theorem Symbol.eq_slash {c : Char} (h : Symbol.ofChar? c = some slash) : c = '/' := by
  unfold Symbol.ofChar? at h
  split at h
  all_goals first
    | rfl
    | cases h

/-- Every reserved word is a word. -/
theorem Keyword.text_isWord (k : Keyword) :
    ∃ c cs, k.text = String.ofList (c :: cs) ∧ isWordStart c = true
      ∧ ∀ d ∈ cs, isWordRest d = true := by
  cases k
  all_goals exact ⟨_, _, rfl, by decide, List.all_eq_true.1 (by decide)⟩

/-- A reserved word is recognized by its text. -/
theorem Keyword.ofText?_text (k : Keyword) : Keyword.ofText? k.text = some k := by
  cases k <;> rfl

/-- A text that no reserved word has is none of them. -/
theorem Keyword.ofText?_eq_none {text : String} (h : ∀ k : Keyword, text ≠ k.text) :
    Keyword.ofText? text = none := by
  refine List.find?_eq_none.2 fun k _ => ?_
  simpa using Ne.symm (h k)

/-! ## One token -/

/-- What stands behind a gap does not go on with it. -/
def StartsPiece (cs : List Char) : Prop :=
  ∀ c rest, cs = c :: rest → isBlank c = false ∧ (c = '/' → rest.head? ≠ some '/')

namespace Taken

/-- The token that starts the text, unless the text is empty. -/
def first? : List Char → Option Taken
  | [] => none
  | c :: cs => some (ofChars c cs)

section

variable {c : Char} {cs : List Char}

/-- A character of a symbol starts that symbol. -/
theorem ofChars_symbol {s : Symbol} (h : Symbol.ofChar? c = some s) :
    ofChars c cs = symbol s c cs := by
  rw [ofChars, h]

/-- A quote starts a text literal. -/
theorem ofChars_string : ofChars '"' cs = string '"' cs := rfl

/-- A digit starts a number. -/
theorem ofChars_number (h : isDigit c = true) : ofChars c cs = number (c :: cs) := by
  obtain ⟨-, -, hquote, hsymbol⟩ := not_blank_of_isWordRest (isWordRest_of_isDigit h)
  rw [ofChars, hsymbol]
  simp [hquote, h]

/-- A character that words start with starts a word. -/
theorem ofChars_word (h : isWordStart c = true) : ofChars c cs = word (c :: cs) := by
  obtain ⟨-, -, hquote, hsymbol⟩ := not_blank_of_isWordRest (isWordRest_of_isWordStart h)
  have hdigit : isDigit c = false := by
    cases hdigit : isDigit c with
    | false => rfl
    | true =>
      rw [isWordStart_of_isDigit hdigit] at h
      cases h
  rw [ofChars, hsymbol]
  simp [hquote, hdigit, h]

/-- A stray character is a token by itself. -/
theorem ofChars_stray (h : isStray c = true) : ofChars c cs = ⟨.unknown, [], [c], cs⟩ := by
  simp only [isStray, Bool.and_eq_true, Option.isNone_iff_eq_none, bne_iff_ne, ne_eq,
    Bool.not_eq_true'] at h
  obtain ⟨⟨⟨⟨hsymbol, hquote⟩, hdigit⟩, hstart⟩, -⟩ := h
  rw [ofChars, hsymbol]
  simp [hquote, hdigit, hstart]

end

/-! ### From lexemes to tokens -/

section

variable {behind : List Char}

/-- The text of a symbol is taken whole, if no equals sign behind it would go on with it. -/
theorem first?_symbol {s : Symbol} {lexeme : List Char} (htext : String.ofList lexeme = s.text)
    (hmax : s ∈ [.bang, .equal, .less, .greater] → behind.head? ≠ some '=') :
    first? (lexeme ++ behind) = some ⟨.symbol s, [], lexeme, behind⟩ := by
  rcases s.text_cases with ⟨c, hc, hs⟩ | ⟨c, t, hc, ht, hs⟩
  · obtain rfl := String.ofList_injective (htext.trans hs)
    have hone : symbol s c behind = ⟨.symbol s, [], [c], behind⟩ := by
      unfold symbol
      split
      · next t rest ht => exact absurd rfl (hmax (Symbol.mem_of_withEqual? ht).1)
      · rfl
    exact congrArg some ((ofChars_symbol hc).trans hone)
  · obtain rfl := String.ofList_injective (htext.trans hs)
    have htwo : symbol t c ('=' :: behind) = ⟨.symbol s, [], [c, '='], behind⟩ := by
      simp [symbol, ht]
    exact congrArg some ((ofChars_symbol hc).trans htwo)

/-- A word is taken whole, if no character of a word is behind it. -/
theorem first?_word {c : Char} {cs : List Char} (hstart : isWordStart c = true)
    (hrest : ∀ d ∈ cs, isWordRest d = true) (hmax : ∀ d ∈ behind.head?, isWordRest d = false) :
    first? (c :: cs ++ behind) =
      some ⟨.ofWord (String.ofList (c :: cs)), [], c :: cs, behind⟩ := by
  have hall : ∀ d ∈ c :: cs, isWordRest d = true := by
    intro d hd
    rcases List.mem_cons.1 hd with rfl | hd
    · exact isWordRest_of_isWordStart hstart
    · exact hrest d hd
  have hword : word (c :: cs ++ behind) =
      ⟨.ofWord (String.ofList (c :: cs)), [], c :: cs, behind⟩ := by
    unfold word
    rw [takeWhile_append_of_boundary hall hmax, dropWhile_append_of_boundary hall hmax]
  exact congrArg some ((ofChars_word hstart).trans hword)

/-- A text literal is taken up to the quote that closes it. -/
theorem first?_string {contents : List Char} (hclosed : '"' ∉ contents) :
    first? ('"' :: contents ++ ['"'] ++ behind) =
      some ⟨.string (String.ofList contents), [], '"' :: contents ++ ['"'], behind⟩ := by
  have hall := bne_of_not_mem hclosed
  have hstops : ∀ d ∈ ('"' :: behind).head?, (d != '"') = false := by
    intro d hd
    obtain rfl := Option.some.inj hd
    rfl
  have hstring : string '"' (contents ++ '"' :: behind) =
      ⟨.string (String.ofList contents), [], '"' :: contents ++ ['"'], behind⟩ := by
    unfold string
    rw [takeWhile_append_of_boundary hall hstops, dropWhile_append_of_boundary hall hstops]
  rw [List.append_assoc]
  exact congrArg some (ofChars_string.trans hstring)

/-- A number is taken from its first digit on. -/
theorem first?_number {c : Char} {cs : List Char} (h : isDigit c = true) :
    first? (c :: cs) = some (number (c :: cs)) :=
  congrArg some (ofChars_number h)

/-- Digits are taken as a number, if neither a digit nor a point with one is behind them. -/
theorem number_integer {digits : List Char} (hall : ∀ d ∈ digits, isDigit d = true)
    (hdigit : ∀ d ∈ behind.head?, isDigit d = false)
    (hpoint : ∀ d rest, behind = '.' :: d :: rest → isDigit d = false) :
    number (digits ++ behind) =
      ⟨.number (Decimal.ofDigitChars digits 0).toNumber, [], digits, behind⟩ := by
  unfold number
  dsimp only
  rw [takeWhile_append_of_boundary hall hdigit, dropWhile_append_of_boundary hall hdigit]
  split
  · next after =>
    have hnone : after.takeWhile isDigit = [] := by
      cases after with
      | nil => rfl
      | cons d rest => simp [hpoint d rest rfl]
    rw [hnone]
    rfl
  · rfl

/-- Digits on both sides of a point are taken as a number, if no digit is behind them. -/
theorem number_fraction {whole digits : List Char} (hwhole : ∀ d ∈ whole, isDigit d = true)
    (hsome : digits ≠ []) (hdigits : ∀ d ∈ digits, isDigit d = true)
    (hmax : ∀ d ∈ behind.head?, isDigit d = false) :
    number (whole ++ '.' :: digits ++ behind) =
      ⟨.number (Decimal.ofDigitChars (whole ++ digits) digits.length).toNumber, [],
        whole ++ '.' :: digits, behind⟩ := by
  have hpoint : ∀ d ∈ ('.' :: (digits ++ behind)).head?, isDigit d = false := by
    intro d hd
    obtain rfl := Option.some.inj hd
    rfl
  unfold number
  rw [List.append_assoc, List.cons_append, takeWhile_append_of_boundary hwhole hpoint,
    dropWhile_append_of_boundary hwhole hpoint]
  show (if ((digits ++ behind).takeWhile isDigit).isEmpty then _ else _ : Taken) = _
  rw [takeWhile_append_of_boundary hdigits hmax, dropWhile_append_of_boundary hdigits hmax,
    if_neg (by simpa using hsome)]

/-- A text literal that is not closed takes the rest of the source. -/
theorem first?_unclosed {cs : List Char} (hopen : '"' ∉ cs) :
    first? ('"' :: cs) = some ⟨.unknown, '"' :: cs, [], []⟩ := by
  have hnone : cs.dropWhile (· != '"') = [] := by
    have hdrop : (cs ++ []).dropWhile (· != '"') = [] :=
      dropWhile_append_of_boundary (bne_of_not_mem hopen) nofun
    rwa [List.append_nil] at hdrop
  refine congrArg some (ofChars_string.trans ?_)
  unfold string
  rw [hnone]

/-- The lexer takes a lexeme off, if it is maximal. -/
theorem first?_of_spelled {kind : Kind} {lexeme : List Char} (h : Spelled kind lexeme)
    (hmax : Maximal kind lexeme behind) :
    first? (lexeme ++ behind) = some ⟨kind, [], lexeme, behind⟩ := by
  cases h with
  | symbol htext => exact first?_symbol htext hmax.1
  | @keyword k _ htext =>
    obtain ⟨c, cs, hk, hstart, hrest⟩ := k.text_isWord
    obtain rfl := String.ofList_injective (htext.trans hk)
    rw [first?_word hstart hrest hmax, Kind.ofWord, htext, Keyword.ofText?_text]
  | identifier hstart hrest hfree =>
    rw [first?_word hstart hrest hmax, Kind.ofWord, Keyword.ofText?_eq_none hfree]
  | string hclosed => exact first?_string hclosed
  | integer hsome hall =>
    obtain ⟨c, cs, rfl⟩ := List.exists_cons_of_ne_nil hsome
    have hpoint : '.' ∉ c :: cs := fun hmem => absurd (hall _ hmem) (by decide)
    rw [List.cons_append, first?_number (hall c List.mem_cons_self), ← List.cons_append,
      number_integer hall hmax.1 (hmax.2 hpoint)]
  | fraction hsome hwhole hsomeDigits hdigits =>
    obtain ⟨c, cs, rfl⟩ := List.exists_cons_of_ne_nil hsome
    rw [← number_fraction hwhole hsomeDigits hdigits hmax.1]
    exact first?_number (hwhole c List.mem_cons_self)
  | stray hstray => exact congrArg some (ofChars_stray hstray)

end

/-! ### From tokens to lexemes -/

/-- The text of the token follows the lexical rules, and nothing behind it goes on with it. -/
structure Fits (t : Taken) : Prop where
  dropped : t.dropped = []
  spelled : Spelled t.kind t.lexeme
  maximal : Maximal t.kind t.lexeme t.rest

section

variable {c : Char} {cs : List Char}

/-- A symbol is taken as its rules say, unless it starts a comment. -/
theorem fits_symbol {s : Symbol} (h : Symbol.ofChar? c = some s)
    (hslash : c = '/' → cs.head? ≠ some '/') : (symbol s c cs).Fits := by
  unfold symbol
  split
  · next t rest ht =>
    obtain ⟨-, hfinal⟩ := Symbol.mem_of_withEqual? ht
    refine ⟨rfl, .symbol (ofList_of_withEqual? h ht), fun hmem => ?_, fun hmem => ?_⟩
    · exact absurd hmem hfinal.1
    · exact absurd hmem hfinal.2
  · next hnot =>
    refine ⟨rfl, .symbol (ofList_of_ofChar? h), fun hmem hhead => ?_, fun hs => hslash ?_⟩
    · obtain ⟨rest, rfl⟩ := List.head?_eq_some_iff.1 hhead
      obtain ⟨t, ht⟩ := Symbol.exists_withEqual? hmem
      exact hnot t rest ht rfl
    · subst hs
      exact Symbol.eq_slash h

/-- A word is taken as its rules say. -/
theorem fits_word (h : isWordStart c = true) : (word (c :: cs)).Fits := by
  have hrest := isWordRest_of_isWordStart h
  have hlexeme : (c :: cs).takeWhile isWordRest = c :: cs.takeWhile isWordRest := by
    rw [List.takeWhile_cons, if_pos hrest]
  have hword : word (c :: cs) = ⟨.ofWord (String.ofList (c :: cs.takeWhile isWordRest)), [],
      c :: cs.takeWhile isWordRest, (c :: cs).dropWhile isWordRest⟩ := by
    unfold word
    rw [hlexeme]
  rw [hword, Kind.ofWord]
  cases hkeyword : Keyword.ofText? (String.ofList (c :: cs.takeWhile isWordRest)) with
  | some k =>
    have htext : String.ofList (c :: cs.takeWhile isWordRest) = k.text := by
      have := List.find?_some hkeyword
      exact (eq_of_beq this).symm
    exact ⟨rfl, .keyword htext, eq_false_of_mem_head?_dropWhile⟩
  | none =>
    refine ⟨rfl, .identifier h of_mem_takeWhile fun k hk => ?_, eq_false_of_mem_head?_dropWhile⟩
    rw [hk, Keyword.ofText?_text] at hkeyword
    cases hkeyword

/-- A number is taken as its rules say. -/
theorem fits_number (h : isDigit c = true) : (number (c :: cs)).Fits := by
  have hsome : (c :: cs).takeWhile isDigit ≠ [] := by
    rw [List.takeWhile_cons, if_pos h]
    exact List.cons_ne_nil _ _
  have hstops : ∀ d ∈ ((c :: cs).dropWhile isDigit).head?, isDigit d = false :=
    eq_false_of_mem_head?_dropWhile
  unfold number
  dsimp only
  split
  · next after hafter =>
    rw [hafter] at hstops
    split
    · next hnone =>
      refine ⟨rfl, .integer hsome of_mem_takeWhile, ?_, fun _ d rest heq => ?_⟩
      · rw [hafter]
        exact hstops
      · rw [hafter] at heq
        obtain ⟨-, rfl⟩ := List.cons.inj heq
        rw [Bool.eq_false_iff]
        intro hd
        simp [hd] at hnone
    · next hfraction =>
      refine ⟨rfl, .fraction hsome of_mem_takeWhile ?_ of_mem_takeWhile,
        eq_false_of_mem_head?_dropWhile, fun hpoint => absurd ?_ hpoint⟩
      · simpa using hfraction
      · simp
  · next hpoint =>
    exact ⟨rfl, .integer hsome of_mem_takeWhile, hstops, fun _ d rest heq =>
      absurd heq (hpoint (d :: rest))⟩

/-- A text literal is taken as its rules say, or it is not closed. -/
theorem fits_string (cs : List Char) :
    (string '"' cs).Fits
      ∨ ('"' = '"' ∧ '"' ∉ cs ∧ string '"' cs = ⟨.unknown, '"' :: cs, [], []⟩) := by
  have hstops : ∀ d ∈ (cs.dropWhile (· != '"')).head?, (d != '"') = false :=
    eq_false_of_mem_head?_dropWhile
  have hcontents : '"' ∉ cs.takeWhile (· != '"') := fun hmem =>
    absurd (of_mem_takeWhile _ hmem) (by simp)
  unfold string
  dsimp only
  cases hdrop : cs.dropWhile (· != '"') with
  | nil =>
    refine .inr ⟨rfl, fun hmem => ?_, rfl⟩
    have hall := List.takeWhile_append_dropWhile (p := (· != '"')) (l := cs)
    rw [hdrop, List.append_nil] at hall
    rw [hall] at hcontents
    exact hcontents hmem
  | cons close rest =>
    rw [hdrop] at hstops
    obtain rfl : close = '"' := by simpa using hstops close rfl
    exact .inl ⟨rfl, .string hcontents, trivial⟩

/-- The lexer takes a maximal lexeme off, unless there is a text without a closing quote. -/
theorem fits_ofChars (h : StartsPiece (c :: cs)) :
    (ofChars c cs).Fits
      ∨ (c = '"' ∧ '"' ∉ cs ∧ ofChars c cs = ⟨.unknown, '"' :: cs, [], []⟩) := by
  obtain ⟨hblank, hslash⟩ := h c cs rfl
  cases hsymbol : Symbol.ofChar? c with
  | some s =>
    rw [ofChars_symbol hsymbol]
    exact .inl (fits_symbol hsymbol hslash)
  | none =>
    by_cases hquote : c = '"'
    · subst hquote
      rw [ofChars_string]
      exact fits_string cs
    · by_cases hdigit : isDigit c = true
      · rw [ofChars_number hdigit]
        exact .inl (fits_number hdigit)
      · by_cases hstart : isWordStart c = true
        · rw [ofChars_word hstart]
          exact .inl (fits_word hstart)
        · have hstray : isStray c = true := by
            simp [isStray, hsymbol, hquote, hdigit, hstart, hblank]
          rw [ofChars_stray hstray]
          exact .inl ⟨rfl, .stray hstray, trivial⟩

end

end Taken

/-- A lexeme starts with no blank, and with a slash only if it is the slash. -/
theorem Spelled.exists_cons {kind : Kind} {lexeme : List Char} (h : Spelled kind lexeme) :
    ∃ c cs, lexeme = c :: cs ∧ isBlank c = false
      ∧ (c = '/' → kind = .symbol .slash ∧ cs = []) := by
  have word : ∀ {c : Char} {cs : List Char}, isWordRest c = true → lexeme = c :: cs →
      ∃ c cs, lexeme = c :: cs ∧ isBlank c = false
        ∧ (c = '/' → kind = .symbol .slash ∧ cs = []) := by
    intro c cs hc heq
    obtain ⟨hblank, hslash, -⟩ := not_blank_of_isWordRest hc
    exact ⟨c, cs, heq, hblank, fun h => absurd h hslash⟩
  cases h with
  | @symbol s _ htext =>
    rcases s.text_cases with ⟨c, hc, hs⟩ | ⟨c, t, hc, ht, hs⟩
    · obtain rfl := String.ofList_injective (htext.trans hs)
      obtain ⟨-, -, -, hblank, hslash⟩ := Symbol.of_ofChar? hc
      exact ⟨c, [], rfl, hblank, fun h => ⟨congrArg Kind.symbol (hslash h), rfl⟩⟩
    · obtain rfl := String.ofList_injective (htext.trans hs)
      obtain ⟨-, -, -, hblank, hslash⟩ := Symbol.of_ofChar? hc
      refine ⟨c, ['='], rfl, hblank, fun h => ?_⟩
      rw [hslash h] at ht
      cases ht
  | @keyword k _ htext =>
    obtain ⟨c, cs, hk, hstart, -⟩ := k.text_isWord
    exact word (isWordRest_of_isWordStart hstart) (String.ofList_injective (htext.trans hk))
  | identifier hstart _ _ => exact word (isWordRest_of_isWordStart hstart) rfl
  | string _ => exact ⟨_, _, rfl, rfl, nofun⟩
  | integer hsome hall =>
    obtain ⟨c, cs, rfl⟩ := List.exists_cons_of_ne_nil hsome
    exact word (isWordRest_of_isDigit (hall c List.mem_cons_self)) rfl
  | fraction hsome hwhole _ _ =>
    obtain ⟨c, cs, rfl⟩ := List.exists_cons_of_ne_nil hsome
    exact word (isWordRest_of_isDigit (hwhole c List.mem_cons_self)) rfl
  | @stray c hstray =>
    refine ⟨c, [], rfl, ?_, ?_⟩
    · simp only [isStray, Bool.and_eq_true, Bool.not_eq_true'] at hstray
      exact hstray.2
    · rintro rfl
      exact absurd hstray (by decide)

/-- No lexeme is empty. -/
theorem Spelled.length_pos {kind : Kind} {lexeme : List Char} (h : Spelled kind lexeme) :
    0 < lexeme.length := by
  obtain ⟨c, cs, rfl, -⟩ := h.exists_cons
  exact Nat.succ_pos _

/-- A maximal lexeme does not go on with the gap in front of it. -/
theorem Spelled.startsPiece {kind : Kind} {lexeme behind : List Char} (h : Spelled kind lexeme)
    (hmax : Maximal kind lexeme behind) : StartsPiece (lexeme ++ behind) := by
  obtain ⟨c, cs, rfl, hblank, hslash⟩ := h.exists_cons
  intro d rest heq
  obtain ⟨rfl, rfl⟩ := List.cons.inj heq
  refine ⟨hblank, fun hc => ?_⟩
  obtain ⟨rfl, rfl⟩ := hslash hc
  exact hmax.2 rfl

/-- The end of a source goes on with no lexeme. -/
theorem maximal_nil (kind : Kind) (lexeme : List Char) : Maximal kind lexeme [] := by
  cases kind with
  | symbol s => exact ⟨fun _ => nofun, fun _ => nofun⟩
  | number value => exact ⟨nofun, fun _ => nofun⟩
  | keyword k => exact nofun
  | identifier => exact nofun
  | _ => trivial

/-- The kind of a lexeme, with its value, is determined by the lexeme alone. -/
theorem Spelled.unique {kind kind' : Kind} {lexeme : List Char} (h : Spelled kind lexeme)
    (h' : Spelled kind' lexeme) : kind = kind' := by
  have htoken := Taken.first?_of_spelled h (maximal_nil kind lexeme)
  rw [Taken.first?_of_spelled h' (maximal_nil kind' lexeme)] at htoken
  injection htoken with htaken
  exact (congrArg Taken.kind htaken).symm

end Quill

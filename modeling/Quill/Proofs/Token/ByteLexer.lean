import Mathlib.Data.List.TakeWhile
import Quill.Proofs.Token.Bytes

/-!
# Reading tokens by bytes

A second lexer reads the bytes of a source and only counts how far it is (`ByteLexer`): it looks at
single bytes, searches for bytes, and takes pieces of the source between two offsets. Each of these
can go wrong, at an offset that is not there or is inside of a character, and then there is no
result. A loop that does not come to its end has no result either.

It always has a result, and gives out the tokens of `Lexer.next` (`ByteLexer.Tracks.next?`), which
splits off whole characters. For each step, a lemma about a reader between characters (`ByteLexer.At`)
says that it goes past the characters that the step of the other lexer splits off.
-/

namespace Quill

/-! ## The lexer -/

/-- How far a source has been read, by its bytes. -/
structure ByteLexer where
  /-- All of the source. -/
  source : String
  /-- The byte at which the text of the token starts. -/
  start : Nat
  /-- The first byte that has not been read. -/
  offset : Nat
  /-- The line that has been reached. -/
  line : Nat
  /-- The end has been given out. -/
  finished : Bool

/-- A word is looked up by its bytes. -/
def Kind.ofWordBytes (bytes : List UInt8) : Kind :=
  match Keyword.all.find? fun k => utf8Bytes k.text == bytes with
  | some k => keyword k
  | none => identifier

/-- The value of digits, or of digits on both sides of a point. No other text has a value. -/
def readNumber? (text : String) : Option Number :=
  let whole := text.toList.takeWhile isDigit
  if whole.isEmpty then none
  else
    match text.toList.dropWhile isDigit with
    | [] => some (Decimal.ofDigitChars whole 0).toNumber
    | '.' :: fraction =>
      if fraction.isEmpty || !fraction.all isDigit then none
      else some (Decimal.ofDigitChars (whole ++ fraction) fraction.length).toNumber
    | _ => none

/-- Looking a word up by its bytes finds what looking it up by its text does. -/
theorem Kind.ofWordBytes_bytesOf (cs : List Char) :
    Kind.ofWordBytes (bytesOf cs) = Kind.ofWord (String.ofList cs) := by
  have hsame : ∀ text, (utf8Bytes text == bytesOf cs) = (text == String.ofList cs) := by
    intro text
    rw [Bool.eq_iff_iff, beq_iff_eq, beq_iff_eq, ← utf8Bytes_ofList, utf8Bytes_inj]
  have hfind : (Keyword.all.find? fun k => utf8Bytes k.text == bytesOf cs) =
      Keyword.ofText? (String.ofList cs) := by
    simp only [hsame, Keyword.ofText?]
  rw [ofWordBytes, hfind]
  rfl

/-- Digits have the value of their decimal. -/
theorem readNumber?_integer {digits : List Char} (hsome : digits ≠ [])
    (hall : ∀ d ∈ digits, isDigit d = true) :
    readNumber? (String.ofList digits) = some (Decimal.ofDigitChars digits 0).toNumber := by
  have htake := List.takeWhile_eq_self_iff.2 hall
  have hdrop := List.dropWhile_eq_nil_iff.2 hall
  simp [readNumber?, htake, hdrop, hsome]

/-- Digits on both sides of a point have the value of their decimal. -/
theorem readNumber?_fraction {whole digits : List Char} (hsomeWhole : whole ≠ [])
    (hwhole : ∀ d ∈ whole, isDigit d = true) (hsome : digits ≠ [])
    (hdigits : ∀ d ∈ digits, isDigit d = true) :
    readNumber? (String.ofList (whole ++ '.' :: digits)) =
      some (Decimal.ofDigitChars (whole ++ digits) digits.length).toNumber := by
  have hpoint : ∀ d ∈ ('.' :: digits).head?, isDigit d = false := by
    rintro d ⟨⟩
    decide
  have hall : digits.all isDigit = true := List.all_eq_true.2 hdigits
  simp [readNumber?, takeWhile_append_of_boundary hwhole hpoint,
    dropWhile_append_of_boundary hwhole hpoint, hsomeWhole, hsome, hall]

/-- The text of a number token has the value of the token. -/
theorem readNumber?_of_spelled {value : Number} {text : String}
    (h : Spelled (.number value) text.toList) : readNumber? text = some value := by
  rw [← String.ofList_toList (s := text)]
  generalize text.toList = lexeme at h ⊢
  cases h with
  | integer hsome hall => exact readNumber?_integer hsome hall
  | fraction hsomeWhole hwhole hsome hdigits =>
    exact readNumber?_fraction hsomeWhole hwhole hsome hdigits

namespace ByteLexer

/-- The lexer at the front of a source. -/
def ofSource (source : String) : ByteLexer where
  source := source
  start := 0
  offset := 0
  line := 1
  finished := false

/-- So many bytes further. -/
def forward (b : ByteLexer) (n : Nat) : ByteLexer :=
  { b with offset := b.offset + n }

/-- More rounds than a loop over the source can take. -/
def fuel (b : ByteLexer) : Nat :=
  b.source.utf8ByteSize + 1

/-- The bytes that are left. -/
def remaining? (b : ByteLexer) : Option (List UInt8) :=
  if b.offset ≤ (utf8Bytes b.source).length then some ((utf8Bytes b.source).drop b.offset)
  else none

/-- The byte so many places ahead, as a character, or the null character if there is no such byte. -/
def peekAt? (b : ByteLexer) (n : Nat) : Option Char :=
  b.remaining?.map fun bytes => .ofUInt8 (bytes.getD n 0)

/-- Reads the next byte. -/
def bump? (b : ByteLexer) : Option (Char × ByteLexer) :=
  (utf8Bytes b.source)[b.offset]?.map fun byte => (.ofUInt8 byte, b.forward 1)

/-- Passes over bytes of a class. -/
def skipWhile? (p : Char → Bool) : (fuel : Nat) → ByteLexer → Option ByteLexer
  | 0, _ => none
  | fuel + 1, b => do
    if p (← b.peekAt? 0) then skipWhile? p fuel (b.forward 1) else some b

/-- Passes over bytes up to a boundary between characters. -/
def skipToBoundary? : (fuel : Nat) → ByteLexer → Option ByteLexer
  | 0, _ => none
  | fuel + 1, b =>
    if (⟨b.offset⟩ : String.Pos.Raw).IsValid b.source then some b
    else skipToBoundary? fuel (b.forward 1)

/-- Passes over a comment, up to the end of its line. -/
def skipComment? (b : ByteLexer) : Option ByteLexer :=
  b.remaining?.map fun bytes =>
    match bytes.idxOf? '\n'.toUInt8 with
    | some n => b.forward n
    | none => { b with offset := b.source.utf8ByteSize }

/-- A symbol behind its first character. -/
def symbol? (s : Symbol) (b : ByteLexer) : Option (Kind × ByteLexer) :=
  match s.withEqual? with
  | some t => (b.peekAt? 0).map fun c => if c = '=' then (.symbol t, b.forward 1) else (.symbol s, b)
  | none => some (.symbol s, b)

/-- A text literal behind its opening quote. -/
def string? (b : ByteLexer) : Option (Kind × ByteLexer) := do
  let bytes ← b.remaining?
  match bytes.idxOf? '"'.toUInt8 with
  | some n =>
    let contents ← slice? b.source b.offset (b.offset + n)
    let lines := (utf8Bytes contents).count '\n'.toUInt8
    some (.string contents, { b with offset := b.offset + (n + 1), line := b.line + lines })
  | none =>
    let last := b.source.utf8ByteSize
    let lines := bytes.count '\n'.toUInt8
    some (.unknown, { b with start := last, offset := last, line := b.line + lines })

/-- Passes over a point and digits, if there are digits behind the point. -/
def skipFraction? (b : ByteLexer) : Option ByteLexer := do
  if (← b.peekAt? 0) == '.' && isDigit (← b.peekAt? 1) then
    skipWhile? isDigit b.fuel (b.forward 1)
  else some b

/-- A number literal behind its first digit. -/
def number? (b : ByteLexer) : Option (Kind × ByteLexer) := do
  let b ← skipWhile? isDigit b.fuel b
  let b ← b.skipFraction?
  let text ← slice? b.source b.start b.offset
  let value ← readNumber? text
  some (.number value, b)

/-- A name or reserved word behind its first character. -/
def word? (b : ByteLexer) : Option (Kind × ByteLexer) := do
  let b ← skipWhile? isWordRest b.fuel b
  let bytes ← byteSlice? b.source b.start b.offset
  some (.ofWordBytes bytes, b)

/-- What starts with a byte, behind that byte. Blanks and comments are of no kind. -/
def scanFrom? (c : Char) (b : ByteLexer) : Option (Option Kind × ByteLexer) :=
  if isBlank c then some (none, if c = '\n' then { b with line := b.line + 1 } else b)
  else if c = '/' then do
    if (← b.peekAt? 0) = '/' then
      let b ← b.skipComment?
      some (none, b)
    else some (some (.symbol .slash), b)
  else
    let found (scanned : Option (Kind × ByteLexer)) : Option (Option Kind × ByteLexer) :=
      scanned.map fun (kind, b) => (some kind, b)
    match Symbol.ofChar? c with
    | some s => found (b.symbol? s)
    | none =>
      if c = '"' then found b.string?
      else if isDigit c then found b.number?
      else if isWordStart c then found b.word?
      else do
        let b ← b.skipToBoundary? b.fuel
        -- The log shows the character.
        let _ ← slice? b.source b.start b.offset
        some (some .unknown, b)

/-- What starts with the next byte. -/
def scan? (b : ByteLexer) : Option (Option Kind × ByteLexer) :=
  b.bump?.bind fun (c, b) => b.scanFrom? c

/-- Passes over blanks and comments, up to the next token. -/
def scanAll? : (fuel : Nat) → ByteLexer → Option (Token × ByteLexer)
  | 0, _ => none
  | fuel + 1, b =>
    if b.source.utf8ByteSize ≤ b.offset then
      some (⟨.eof, "", b.line⟩, { b with finished := true })
    else do
      let (found, b) ← scan? { b with start := b.offset }
      match found with
      | none => scanAll? fuel b
      | some kind =>
        let lexeme ← slice? b.source b.start b.offset
        some (⟨kind, lexeme, b.line⟩, b)

/-- The next token and the lexer behind it. After the end there is no token. -/
def next? (b : ByteLexer) : Option (Option Token × ByteLexer) :=
  if b.finished then some (none, b)
  else (b.scanAll? b.fuel).map fun (t, b) => (some t, b)

/-- The lexer after so many calls. -/
def skip? (b : ByteLexer) : Nat → Option ByteLexer
  | 0 => some b
  | n + 1 => b.next?.bind fun (_, b) => b.skip? n

/-! ## Readers between characters -/

/-- The reader is between characters: behind those before the token and the first ones of the
token. -/
structure At (b : ByteLexer) (before lexeme rest : List Char) : Prop where
  source_eq : b.source.toList = before ++ (lexeme ++ rest)
  start : b.start = byteSize before
  offset : b.offset = byteSize (before ++ lexeme)

/-- The reader behind more characters. -/
def past (b : ByteLexer) (cs : List Char) : ByteLexer :=
  { b with offset := b.offset + byteSize cs, line := b.line + cs.count '\n' }

/-- Characters are passed one stretch after the other. -/
theorem past_past (b : ByteLexer) (cs ds : List Char) : (b.past cs).past ds = b.past (cs ++ ds) := by
  simp [past, Nat.add_assoc]

/-- Going one byte further passes a character that is a single byte. -/
theorem forward_eq_past (b : ByteLexer) {c : Char} (hc : c.toNat < 128) (hline : c ≠ '\n') :
    b.forward 1 = b.past [c] := by
  have hsize : byteSize [c] = 1 := by
    rw [← length_bytesOf, bytesOf_cons, utf8EncodeChar_of_lt hc]
    rfl
  have hcount : [c].count '\n' = 0 := List.count_eq_zero.2 (by simpa using Ne.symm hline)
  rw [forward, past, hsize, hcount]
  rfl

namespace At

variable {b : ByteLexer} {before lexeme rest : List Char}

/-- Behind more characters of a token the reader is still between characters. -/
theorem past {cs : List Char} (h : b.At before lexeme (cs ++ rest)) :
    (b.past cs).At before (lexeme ++ cs) rest where
  source_eq := by
    rw [List.append_assoc]
    exact h.source_eq
  start := h.start
  offset := by
    rw [← List.append_assoc, byteSize_append, ← h.offset]
    rfl

/-- The bytes that are left are those of the characters that are left. -/
theorem remaining? (h : b.At before lexeme rest) : b.remaining? = some (bytesOf rest) := by
  have hbytes : utf8Bytes b.source = bytesOf (before ++ lexeme) ++ bytesOf rest := by
    rw [utf8Bytes_eq, h.source_eq, ← List.append_assoc, bytesOf_append]
  have hoffset : (bytesOf (before ++ lexeme)).length = b.offset := by
    rw [length_bytesOf, h.offset]
  have hle : b.offset ≤ (utf8Bytes b.source).length := by
    rw [hbytes, List.length_append, hoffset]
    exact Nat.le_add_right _ _
  rw [ByteLexer.remaining?, if_pos hle, hbytes, List.drop_left' hoffset]

/-- A byte ahead is one of the characters that are left, or null behind them all. -/
theorem peekAt? (h : b.At before lexeme rest) (n : Nat) :
    b.peekAt? n = some (.ofUInt8 ((bytesOf rest).getD n 0)) := by
  rw [ByteLexer.peekAt?, h.remaining?, Option.map_some]

/-- The text from the start of a token is what has been read of it. -/
theorem slice? (h : b.At before lexeme rest) :
    Quill.slice? b.source b.start b.offset = some (String.ofList lexeme) := by
  rw [h.start, h.offset]
  exact slice?_eq h.source_eq

/-- The bytes from the start of a token are those of what has been read of it. -/
theorem byteSlice? (h : b.At before lexeme rest) :
    Quill.byteSlice? b.source b.start b.offset = some (bytesOf lexeme) := by
  rw [h.start, h.offset]
  exact byteSlice?_eq h.source_eq

/-- A loop that takes a character a round comes to its end. -/
theorem length_lt_fuel (h : b.At before lexeme rest) : rest.length < b.fuel := by
  have hsize := byteSize_toList b.source
  have hlength := length_le_byteSize rest
  rw [h.source_eq, byteSize_append, byteSize_append] at hsize
  rw [fuel]
  omega

/-- The characters of a class are passed over. -/
theorem skipWhile? {p : Char → Bool} (hp : AsciiOnly p) (hline : p '\n' = false) {fuel : Nat}
    (h : b.At before lexeme rest) (hfuel : rest.length < fuel) :
    b.skipWhile? p fuel = some (b.past (rest.takeWhile p)) := by
  induction fuel generalizing b lexeme rest with
  | zero => exact absurd hfuel (Nat.not_lt_zero _)
  | succ fuel ih =>
    rw [ByteLexer.skipWhile?, h.peekAt? 0]
    show (if p _ = true then _ else _) = _
    rw [hp.front]
    cases rest with
    | nil => rfl
    | cons c cs =>
      rw [List.head?_cons, Option.any_some]
      by_cases hc : p c = true
      · have hne : c ≠ '\n' := by
          rintro rfl
          rw [hline] at hc
          cases hc
        have hnext : (b.past [c]).At before (lexeme ++ [c]) cs := h.past
        rw [if_pos hc, List.takeWhile_cons_of_pos hc, forward_eq_past b (hp c hc).2 hne,
          ih hnext (Nat.lt_of_succ_lt_succ hfuel), past_past]
        rfl
      · rw [if_neg hc, List.takeWhile_cons_of_neg hc]
        rfl

/-- The null character, which stands for the end, is of no class. -/
theorem peekAt?_any {p : Char → Bool} (h : b.At before lexeme rest) (hp : AsciiOnly p) :
    ∃ c, b.peekAt? 0 = some c ∧ p c = rest.head?.any p :=
  ⟨_, h.peekAt? 0, hp.front rest⟩

/-- A comment is passed up to the end of its line. -/
theorem skipComment? (h : b.At before lexeme rest) :
    b.skipComment? = some (b.past (rest.takeWhile (· != '\n'))) := by
  have hnone : '\n' ∉ rest.takeWhile (· != '\n') := fun hmem =>
    absurd (of_mem_takeWhile _ hmem) (by decide)
  have hpast : b.past (rest.takeWhile (· != '\n')) =
      b.forward (byteSize (rest.takeWhile (· != '\n'))) := by
    rw [ByteLexer.past, List.count_eq_zero.2 hnone]
    rfl
  rw [ByteLexer.skipComment?, h.remaining?, Option.map_some, idxOf?_bytesOf (by decide), hpast]
  split
  · next n hn =>
    split at hn
    · rw [Option.some.inj hn]
    · cases hn
  · next hn =>
    split at hn
    · cases hn
    · next hclosed =>
      -- Without a line feed the comment is all that is left.
      have hsize := byteSize_toList b.source
      rw [h.source_eq, ← List.append_assoc, byteSize_append, ← h.offset] at hsize
      rw [List.takeWhile_eq_self_iff.2 (bne_of_not_mem hclosed), forward, hsize]

end At

/-- Behind the character `c`, the token that starts with it is found. -/
def Finds (b : ByteLexer) (c : Char) (t : Taken) (found : Option (Kind × ByteLexer)) : Prop :=
  ∃ more, t.dropped ++ t.lexeme = c :: more
    ∧ found = some (t.kind, { b.past more with start := b.start + byteSize t.dropped })

namespace At

variable {b : ByteLexer} {before : List Char} {c : Char} {cs : List Char}

/-- Behind its first character a symbol is found. -/
theorem finds_symbol (h : b.At before [c] cs) (s : Symbol) :
    b.Finds c (Taken.symbol s c cs) (b.symbol? s) := by
  obtain ⟨d, hpeek, hd⟩ := h.peekAt?_any (asciiOnly_beq (d := '=') (by decide))
  rw [ByteLexer.symbol?, hpeek]
  unfold Taken.symbol
  split
  · next t rest ht =>
    have hequal : d = '=' := by simpa using hd
    have hforward : b.forward 1 = b.past ['='] := forward_eq_past b (by decide) (by decide)
    simp only [ht, Option.map_some, if_pos hequal, hforward]
    exact ⟨['='], rfl, rfl⟩
  · next hnot =>
    refine ⟨[], rfl, ?_⟩
    cases hequal : s.withEqual? with
    | none => rfl
    | some t =>
      have hother : d ≠ '=' := by
        rintro rfl
        obtain ⟨e, he, heq⟩ := (Option.any_eq_true _ _).1 hd.symm
        obtain ⟨rest, rfl⟩ := List.head?_eq_some_iff.1 he
        obtain rfl := eq_of_beq heq
        exact hnot t rest hequal rfl
      simp only [Option.map_some, if_neg hother]
      rfl

/-- Behind its first character a word is found. -/
theorem finds_word (h : b.At before [c] cs) (hstart : isWordStart c = true) :
    b.Finds c (Taken.word (c :: cs)) b.word? := by
  have hlexeme : (c :: cs).takeWhile isWordRest = c :: cs.takeWhile isWordRest :=
    List.takeWhile_cons_of_pos (isWordRest_of_isWordStart hstart)
  have hskip := h.skipWhile? asciiOnly_isWordRest (by decide) h.length_lt_fuel
  rw [← List.takeWhile_append_dropWhile (p := isWordRest) (l := cs)] at h
  refine ⟨cs.takeWhile isWordRest, hlexeme, ?_⟩
  simp only [ByteLexer.word?, hskip, Option.bind_eq_bind, Option.bind_some, h.past.byteSlice?]
  rw [List.singleton_append, Kind.ofWordBytes_bytesOf, Taken.word, hlexeme]
  rfl

/-- Behind its quote a text literal is found, if it is closed. -/
theorem finds_closed {contents rest : List Char} (h : b.At before ['"'] (contents ++ '"' :: rest))
    (hcontents : '"' ∉ contents) :
    b.Finds '"' (Taken.string '"' (contents ++ '"' :: rest)) b.string? := by
  have hclosed : '"' ∈ contents ++ '"' :: rest := by simp
  have htaken : Taken.string '"' (contents ++ '"' :: rest) =
      ⟨.string (String.ofList contents), [], '"' :: contents ++ ['"'], rest⟩ := by
    have hfirst : Taken.first? ('"' :: contents ++ ['"'] ++ rest) = _ :=
      Taken.first?_string hcontents
    rw [List.append_assoc] at hfirst
    exact Option.some.inj hfirst
  have htake : (contents ++ '"' :: rest).takeWhile (· != '"') = contents :=
    takeWhile_append_of_boundary (bne_of_not_mem hcontents) (by simp)
  have hslice : Quill.slice? b.source b.offset (b.offset + byteSize contents) =
      some (String.ofList contents) := by
    rw [h.offset, ← byteSize_append]
    exact slice?_eq (by rw [h.source_eq, List.append_assoc])
  have hquote : '"'.utf8Size = 1 := rfl
  refine ⟨contents ++ ['"'], by rw [htaken]; rfl, ?_⟩
  simp only [ByteLexer.string?, h.remaining?, Option.bind_eq_bind, Option.bind_some,
    idxOf?_bytesOf (d := '"') (by decide), if_pos hclosed, htake, hslice, utf8Bytes_ofList,
    count_bytesOf (d := '\n') (by decide), htaken]
  simp [ByteLexer.past, hquote]

/-- An unclosed text starts behind the source, and has no characters. -/
theorem finds_unclosed (h : b.At before ['"'] cs) (hopen : '"' ∉ cs) :
    b.Finds '"' (Taken.string '"' cs) b.string? := by
  have hfirst := Taken.first?_unclosed hopen
  have htaken : Taken.string '"' cs = ⟨.unknown, '"' :: cs, [], []⟩ := Option.some.inj hfirst
  have hsize := byteSize_toList b.source
  rw [h.source_eq, byteSize_append, List.singleton_append] at hsize
  have hstart : b.start + byteSize ('"' :: cs) = b.source.utf8ByteSize := by rw [h.start, hsize]
  have hoffset : b.offset + byteSize cs = b.source.utf8ByteSize := by
    rw [h.offset, ← hsize, byteSize_append, Nat.add_assoc, ← byteSize_append]
    rfl
  refine ⟨cs, by rw [htaken, List.append_nil], ?_⟩
  simp only [ByteLexer.string?, h.remaining?, Option.bind_eq_bind, Option.bind_some,
    idxOf?_bytesOf (d := '"') (by decide), if_neg hopen,
    count_bytesOf (d := '\n') (by decide), htaken, ByteLexer.past, hstart, hoffset]

/-- Behind its quote a text literal is found, closed or not. -/
theorem finds_string (h : b.At before ['"'] cs) :
    b.Finds '"' (Taken.string '"' cs) b.string? := by
  by_cases hclosed : '"' ∈ cs
  · obtain ⟨contents, rest, rfl, hcontents⟩ := List.eq_append_cons_of_mem hclosed
    exact h.finds_closed hcontents
  · exact h.finds_unclosed hclosed

/-- A point with digits behind it is passed together with them. -/
theorem skipFraction?_digits {lexeme after : List Char} (h : b.At before lexeme ('.' :: after))
    (hdigit : after.head?.any isDigit = true) :
    b.skipFraction? = some (b.past ('.' :: after.takeWhile isDigit)) := by
  have hpoint : b.peekAt? 0 = some '.' := h.peekAt? 0
  have hsecond : (bytesOf ('.' :: after)).getD 1 0 = (bytesOf after).getD 0 0 := rfl
  have hbehind := h.peekAt? 1
  have hforward : b.forward 1 = b.past ['.'] := forward_eq_past b (by decide) (by decide)
  have hnext : (b.past ['.']).At before (lexeme ++ ['.']) after := h.past
  rw [hsecond] at hbehind
  rw [← asciiOnly_isDigit.front] at hdigit
  simp only [ByteLexer.skipFraction?, hpoint, hbehind, Option.bind_eq_bind, Option.bind_some, hdigit,
    hforward]
  exact (hnext.skipWhile? asciiOnly_isDigit (by decide) hnext.length_lt_fuel).trans
    (congrArg some (past_past _ _ _))

/-- A point without a digit behind it is left. -/
theorem skipFraction?_none {lexeme rest : List Char} (h : b.At before lexeme rest)
    (hnone : ∀ after, rest = '.' :: after → after.head?.any isDigit = false) :
    b.skipFraction? = some b := by
  obtain ⟨d, hpeek, hd⟩ := h.peekAt?_any (asciiOnly_beq (d := '.') (by decide))
  have hbehind := h.peekAt? 1
  simp only [ByteLexer.skipFraction?, hpeek, hbehind, Option.bind_eq_bind, Option.bind_some]
  refine if_neg fun hdigits => ?_
  rw [Bool.and_eq_true] at hdigits
  obtain ⟨e, he, hpoint⟩ := (Option.any_eq_true _ _).1 (hd.symm.trans hdigits.1)
  obtain ⟨after, rfl⟩ := List.head?_eq_some_iff.1 he
  obtain rfl := eq_of_beq hpoint
  have hsecond : (bytesOf ('.' :: after)).getD 1 0 = (bytesOf after).getD 0 0 := rfl
  rw [hsecond, asciiOnly_isDigit.front, hnone after rfl] at hdigits
  cases hdigits.2

/-- A number without a fraction is found behind its first digit. -/
theorem finds_integer {whole rest : List Char} (h : b.At before [c] (whole ++ rest))
    (hall : ∀ d ∈ c :: whole, isDigit d = true) (hstops : ∀ d ∈ rest.head?, isDigit d = false)
    (hnone : ∀ after, rest = '.' :: after → after.head?.any isDigit = false) :
    b.Finds c (Taken.number (c :: (whole ++ rest))) b.number? := by
  have hskip := h.skipWhile? asciiOnly_isDigit (by decide) h.length_lt_fuel
  rw [takeWhile_append_of_boundary (List.forall_mem_cons.1 hall).2 hstops] at hskip
  have hnumber := Taken.number_integer hall hstops fun d after hafter => hnone (d :: after) hafter
  refine ⟨whole, by rw [← List.cons_append, hnumber]; rfl, ?_⟩
  simp only [ByteLexer.number?, hskip, Option.bind_eq_bind, Option.bind_some,
    h.past.skipFraction?_none hnone, h.past.slice?, List.singleton_append,
    readNumber?_integer (List.cons_ne_nil _ _) hall, ← List.cons_append, hnumber]
  rfl

/-- A number with a fraction is found behind its first digit. -/
theorem finds_fraction {whole digits rest : List Char}
    (h : b.At before [c] (whole ++ '.' :: (digits ++ rest)))
    (hall : ∀ d ∈ c :: whole, isDigit d = true) (hsome : digits ≠ [])
    (hdigits : ∀ d ∈ digits, isDigit d = true) (hstops : ∀ d ∈ rest.head?, isDigit d = false) :
    b.Finds c (Taken.number (c :: (whole ++ '.' :: (digits ++ rest)))) b.number? := by
  have hskip := h.skipWhile? asciiOnly_isDigit (by decide) h.length_lt_fuel
  rw [takeWhile_append_of_boundary (List.forall_mem_cons.1 hall).2 (by rintro d ⟨⟩; decide)]
    at hskip
  have hfirst : (digits ++ rest).head?.any isDigit = true := by
    obtain ⟨d, more, rfl⟩ := List.exists_cons_of_ne_nil hsome
    exact hdigits d List.mem_cons_self
  have hfraction := h.past.skipFraction?_digits hfirst
  rw [takeWhile_append_of_boundary hdigits hstops] at hfraction
  have hlast : (b.past (whole ++ '.' :: digits)).At before (c :: whole ++ '.' :: digits) rest := by
    have hwhole : b.At before [c] ((whole ++ '.' :: digits) ++ rest) := by simpa using h
    exact hwhole.past
  have hnumber := Taken.number_fraction hall hsome hdigits hstops
  simp only [List.cons_append, List.append_assoc] at hnumber
  refine ⟨whole ++ '.' :: digits, by rw [hnumber]; rfl, ?_⟩
  simp only [ByteLexer.number?, hskip, Option.bind_eq_bind, Option.bind_some, hfraction, past_past,
    hlast.slice?, readNumber?_fraction (List.cons_ne_nil _ _) hall hsome hdigits, hnumber]
  rfl

/-- Behind its first digit a number is found. -/
theorem finds_number (h : b.At before [c] cs) (hdigit : isDigit c = true) :
    b.Finds c (Taken.number (c :: cs)) b.number? := by
  have hall : ∀ d ∈ c :: cs.takeWhile isDigit, isDigit d = true :=
    List.forall_mem_cons.2 ⟨hdigit, of_mem_takeWhile⟩
  have hstops : ∀ d ∈ (cs.dropWhile isDigit).head?, isDigit d = false :=
    eq_false_of_mem_head?_dropWhile
  have hsplit := List.takeWhile_append_dropWhile (p := isDigit) (l := cs)
  by_cases hpoint : ∃ after, cs.dropWhile isDigit = '.' :: after ∧ after.head?.any isDigit = true
  · obtain ⟨after, hrest, hafter⟩ := hpoint
    have hsome : after.takeWhile isDigit ≠ [] := by
      cases after with
      | nil => cases hafter
      | cons d rest => simp [show isDigit d = true from hafter]
    rw [hrest, ← List.takeWhile_append_dropWhile (p := isDigit) (l := after)] at hsplit
    rw [← hsplit] at h ⊢
    exact h.finds_fraction hall hsome of_mem_takeWhile eq_false_of_mem_head?_dropWhile
  · have hnone : ∀ after, cs.dropWhile isDigit = '.' :: after → after.head?.any isDigit = false :=
      fun after hafter => Bool.eq_false_iff.2 fun hany => hpoint ⟨after, hafter, hany⟩
    rw [← hsplit] at h ⊢
    exact h.finds_integer hall hstops hnone

end At

/-- From inside a character the reader comes to the end of the character. -/
theorem skipToBoundary?_eq {b : ByteLexer} {before behind : List Char} {c : Char} {n fuel : Nat}
    (hsource : b.source.toList = before ++ c :: behind) (hoffset : b.offset = byteSize before + n)
    (hpos : 0 < n) (hinside : n ≤ c.utf8Size) (hfuel : c.utf8Size < n + fuel) :
    b.skipToBoundary? fuel = some { b with offset := byteSize before + c.utf8Size } := by
  induction fuel generalizing b n with
  | zero => omega
  | succ fuel ih =>
    rw [skipToBoundary?, hoffset]
    rcases Nat.lt_or_eq_of_le hinside with hlt | rfl
    · have hnext : (b.forward 1).offset = byteSize before + (n + 1) := by
        rw [forward, hoffset, Nat.add_assoc]
      rw [if_neg (not_isValid_inside hsource hpos hlt)]
      exact ih hsource hnext (Nat.succ_pos n) hlt (by omega)
    · have hend : b.source.toList = (before ++ [c]) ++ behind := by simpa using hsource
      have hvalid := isValid_byteSize hend
      rw [byteSize_append, byteSize_cons, byteSize_nil, Nat.add_zero] at hvalid
      rw [if_pos hvalid, ← hoffset]

end ByteLexer

end Quill

import Quill.Token
import Quill.Number.Decimal

/-!
# Reading tokens

Source text is read from the front, one token at a time, by splitting characters off: first the gap
of blanks and comments, then the longest piece that is a token.

* `splitGap`: the gap and what follows it.
* `Taken.ofChars`: the token that starts with a character, with everything behind it.
* `Lexer.next`: the next token; the end of the source is given out once, as a token of its own.
* `Lexer.tokens`: all tokens that are left.

The position of the lexer is that of all characters split off so far, so lines and byte offsets need
no counting of their own.
-/

namespace Quill

/-! ## Positions -/

/-- A place between two characters of the source. -/
structure Position where
  /-- The number of bytes before it. -/
  offset : Nat
  /-- One more than the number of line feeds before it. -/
  line : Nat
deriving DecidableEq

namespace Position

/-- The place before all characters. -/
def start : Position := ⟨0, 1⟩

/-- The place behind one more character. -/
def advance (p : Position) (c : Char) : Position :=
  ⟨p.offset + c.utf8Size, if c = '\n' then p.line + 1 else p.line⟩

/-- The place behind more characters. -/
def advanceAll (p : Position) (cs : List Char) : Position :=
  cs.foldl advance p

/-- Going past two texts is going past the first and then past the second. -/
theorem advanceAll_append (p : Position) (cs ds : List Char) :
    p.advanceAll (cs ++ ds) = (p.advanceAll cs).advanceAll ds :=
  List.foldl_append

end Position

/-! ## Character classes -/

/-- Blanks between tokens. -/
def isBlank (c : Char) : Bool :=
  c == ' ' || c == '\t' || c == '\r' || c == '\n'

/-- Decimal digits. -/
def isDigit (c : Char) : Bool :=
  decide ('0' ≤ c) && decide (c ≤ '9')

/-- Characters that a word starts with: the letters of the alphabet and the low line. -/
def isWordStart (c : Char) : Bool :=
  (decide ('a' ≤ c) && decide (c ≤ 'z')) || (decide ('A' ≤ c) && decide (c ≤ 'Z')) || c == '_'

/-- Characters that a word goes on with. -/
def isWordRest (c : Char) : Bool :=
  isWordStart c || isDigit c

/-! ## Gaps -/

/-- Splits off blanks and comments. A comment starts with two slashes and runs to the end of its
line; `inComment` says that one is open. -/
def splitGap (inComment : Bool) : List Char → List Char × List Char
  | [] => ([], [])
  | c :: cs =>
    if inComment then
      let (gap, rest) := splitGap (c != '\n') cs
      (c :: gap, rest)
    else if isBlank c then
      let (gap, rest) := splitGap false cs
      (c :: gap, rest)
    else if c == '/' && cs.head? == some '/' then
      let (gap, rest) := splitGap true cs
      (c :: gap, rest)
    else ([], c :: cs)

/-- Splitting off a gap loses nothing. -/
theorem splitGap_append (inComment : Bool) (cs : List Char) :
    (splitGap inComment cs).1 ++ (splitGap inComment cs).2 = cs := by
  induction cs generalizing inComment with
  | nil => rfl
  | cons c cs ih =>
    rw [splitGap]
    split
    · exact congrArg (c :: ·) (ih _)
    · split
      · exact congrArg (c :: ·) (ih _)
      · split
        · exact congrArg (c :: ·) (ih _)
        · rfl

/-! ## One token -/

/-- A token split off the source: characters that are dropped, characters of the token, the rest.
Together the three are the characters it was split off from. -/
structure Taken where
  /-- What the token is. -/
  kind : Kind
  /-- Characters in front of the token's own text that go with it: all of an unclosed text. -/
  dropped : List Char
  /-- The token's own text. -/
  lexeme : List Char
  /-- What follows. -/
  rest : List Char

namespace Taken

/-- All characters that the token was split off from. -/
def source (t : Taken) : List Char :=
  t.dropped ++ t.lexeme ++ t.rest

/-- A symbol, together with a directly following `=` if the two are one symbol. -/
def symbol (s : Symbol) (c : Char) (cs : List Char) : Taken :=
  match s.withEqual?, cs with
  | some t, '=' :: rest => ⟨.symbol t, [], [c, '='], rest⟩
  | _, _ => ⟨.symbol s, [], [c], cs⟩

/-- A text literal, up to the next quote; without one, everything is dropped and the token has no
text. -/
def string (quote : Char) (cs : List Char) : Taken :=
  let contents := cs.takeWhile (· != '"')
  match cs.dropWhile (· != '"') with
  | close :: rest => ⟨.string (String.ofList contents), [], quote :: contents ++ [close], rest⟩
  | [] => ⟨.unknown, quote :: cs, [], []⟩

/-- A number literal: digits, and a point with digits behind it. A point without digits is left. -/
def number (cs : List Char) : Taken :=
  let whole := cs.takeWhile isDigit
  let rest := cs.dropWhile isDigit
  match rest with
  | '.' :: after =>
    let fraction := after.takeWhile isDigit
    if fraction.isEmpty then
      ⟨.number (Decimal.ofDigitChars whole 0).toNumber, [], whole, rest⟩
    else
      ⟨.number (Decimal.ofDigitChars (whole ++ fraction) fraction.length).toNumber, [],
        whole ++ '.' :: fraction, after.dropWhile isDigit⟩
  | _ => ⟨.number (Decimal.ofDigitChars whole 0).toNumber, [], whole, rest⟩

/-- A name or reserved word. -/
def word (cs : List Char) : Taken :=
  let lexeme := cs.takeWhile isWordRest
  ⟨.ofWord (String.ofList lexeme), [], lexeme, cs.dropWhile isWordRest⟩

/-- The token that starts with the character `c`. -/
def ofChars (c : Char) (cs : List Char) : Taken :=
  match Symbol.ofChar? c with
  | some s => symbol s c cs
  | none =>
    if c = '"' then string c cs
    else if isDigit c then number (c :: cs)
    else if isWordStart c then word (c :: cs)
    else ⟨.unknown, [], [c], cs⟩

/-! No token loses a character. -/

/-- A symbol takes its character and what belongs to it, and leaves the rest. -/
theorem source_symbol (s : Symbol) (c : Char) (cs : List Char) :
    (symbol s c cs).source = c :: cs := by
  unfold symbol
  split <;> rfl

/-- A text literal takes its quote and what belongs to it, and leaves the rest. -/
theorem source_string (quote : Char) (cs : List Char) :
    (string quote cs).source = quote :: cs := by
  unfold string
  split
  · next close rest h =>
    have split := List.takeWhile_append_dropWhile (p := (· != '"')) (l := cs)
    rw [h] at split
    simpa [source] using split
  · simp [source]

/-- A number takes its characters and leaves the rest. -/
theorem source_number (cs : List Char) : (number cs).source = cs := by
  have split := List.takeWhile_append_dropWhile (p := isDigit) (l := cs)
  unfold number
  dsimp only
  split
  · next after h =>
    split
    · simp [source]
    · rw [h] at split
      simpa [source, List.takeWhile_append_dropWhile] using split
  · simp [source]

/-- A word takes its characters and leaves the rest. -/
theorem source_word (cs : List Char) : (word cs).source = cs := by
  simp [word, source, List.takeWhile_append_dropWhile]

/-- A piece of the source takes its characters and leaves the rest. -/
theorem source_ofChars (c : Char) (cs : List Char) : (ofChars c cs).source = c :: cs := by
  unfold ofChars
  split
  · exact source_symbol _ c cs
  · split
    · exact source_string c cs
    · split
      · exact source_number (c :: cs)
      · split
        · exact source_word (c :: cs)
        · rfl

end Taken

/-! ## The lexer -/

/-- How far a source has been read. -/
structure Lexer where
  /-- The characters not yet read. -/
  rest : List Char
  /-- The place of the first of them. -/
  position : Position
  /-- The byte offset at which the last token's text starts. -/
  start : Nat
  /-- The end has been given out. -/
  finished : Bool
deriving DecidableEq

namespace Lexer

/-- The lexer at the front of a source. -/
def ofSource (source : String) : Lexer where
  rest := source.toList
  position := .start
  start := 0
  finished := false

/-- The line that has been reached. -/
def line (l : Lexer) : Nat :=
  l.position.line

/-- The next token and the lexer behind it. After the end there is none. -/
def next (l : Lexer) : Option (Token × Lexer) :=
  if l.finished then none
  else
    let (gap, rest) := splitGap false l.rest
    let position := l.position.advanceAll gap
    match rest with
    | [] => some (⟨.eof, "", position.line⟩, ⟨[], position, position.offset, true⟩)
    | c :: cs =>
      let taken := Taken.ofChars c cs
      let before := position.advanceAll taken.dropped
      let after := before.advanceAll taken.lexeme
      some (⟨taken.kind, String.ofList taken.lexeme, after.line⟩,
        ⟨taken.rest, after, before.offset, false⟩)

/-- At most `fuel` of the tokens that are left. -/
def tokensAtFuel : (fuel : Nat) → Lexer → List Token
  | 0, _ => []
  | fuel + 1, l =>
    match l.next with
    | none => []
    | some (t, l') => t :: tokensAtFuel fuel l'

/-- The tokens that are left, the end of the source included. Every token but the end takes at least
one character. -/
def tokens (l : Lexer) : List Token :=
  l.tokensAtFuel (l.rest.length + 1)

/-- The lexer after so many tokens have been taken. -/
def skip (l : Lexer) : Nat → Lexer
  | 0 => l
  | n + 1 =>
    match l.next with
    | none => l
    | some (_, l') => l'.skip n

end Lexer

/-- All tokens of a source, the end included. -/
def tokenize (source : String) : List Token :=
  (Lexer.ofSource source).tokens

end Quill

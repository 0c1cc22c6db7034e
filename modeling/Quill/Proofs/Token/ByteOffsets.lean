import Quill.Proofs.Token.ByteLexer

/-!
# Offsets stay between characters

`ByteLexer` counts bytes, and `Lexer` splits off characters. They stay side by side: at the same
place of the same source (`ByteLexer.Tracks`), they give out the same token and are at the same place
again (`Tracks.next?`), so they are so after any number of calls (`exists_tracks_skip`).

A round of the loop reads a blank, a comment or a token. The first two are gaps, which change nothing
about what `Lexer.next` gives out (`Lexer.next_eq_of_gap`), so the loop is followed round by round
(`Tracks.scanAll?`).

* `byte_offsets_on_boundaries`: what this says of offsets.
* `line_of_next`: what it says of lines. The lexer that counts bytes also counts lines, at each of the
  places where it may pass over a line feed, and comes to the line that the place in the source has.
-/

namespace Quill

/-! ## What the lexer gives out -/

/-- Until the end has been given out there is a next token. -/
theorem Lexer.exists_next {l : Lexer} (hnew : l.finished = false) :
    ∃ t l', l.next = some (t, l') := by
  rw [next_eq hnew]
  cases Taken.first? (splitGap false l.rest).2 with
  | none => exact ⟨_, _, rfl⟩
  | some taken => exact ⟨_, _, rfl⟩

/-- A token is the end of the source, or follows the lexical rules, or is an unclosed text. -/
theorem Lexer.spelled_of_next {l l' : Lexer} {t : Token} (h : l.next = some (t, l')) :
    (t.kind = .eof ∧ l'.finished = true)
      ∨ (Spelled t.kind t.lexeme.toList ∨ t.kind = .unknown) ∧ l'.finished = false := by
  have hnew : l.finished = false := by
    rw [Bool.eq_false_iff]
    intro hfinished
    rw [next, if_pos hfinished] at h
    cases h
  have hstarts := startsPiece_splitGap false l.rest
  rw [next_eq hnew] at h
  cases hrest : (splitGap false l.rest).2 with
  | nil =>
    rw [hrest] at h
    obtain ⟨rfl, rfl⟩ := Prod.mk.inj (Option.some.inj h)
    exact .inl ⟨rfl, rfl⟩
  | cons c cs =>
    rw [hrest] at h hstarts
    obtain ⟨rfl, rfl⟩ := Prod.mk.inj (Option.some.inj h)
    refine .inr ⟨?_, rfl⟩
    rcases Taken.fits_ofChars hstarts with hfits | ⟨-, -, hopen⟩
    · refine .inl ?_
      rw [String.toList_ofList]
      exact hfits.spelled
    · exact .inr (congrArg Taken.kind hopen)

/-- After the end more calls change nothing. -/
theorem Lexer.skip_of_next_eq_none {l : Lexer} (h : l.next = none) (n : Nat) : l.skip n = l := by
  cases n with
  | zero => rfl
  | succ n => rw [skip, h]

/-- What the lexer gives out next does not change behind a gap. -/
theorem Lexer.next_eq_of_gap {l l' : Lexer} {gap : List Char} (h : Gap gap l'.rest)
    (hrest : l.rest = gap ++ l'.rest) (hposition : l'.position = l.position.advanceAll gap)
    (hnew : l.finished = false) (hnew' : l'.finished = false) : l.next = l'.next := by
  rw [next_eq hnew, next_eq hnew', hrest, h.splitGap_append, hposition]
  simp only [Position.advanceAll_append]

namespace ByteLexer

/-! ## Rounds -/

/-- A token that is found leaves the reader behind it, at the start of its lexeme. -/
theorem Finds.map_eq {b : ByteLexer} {c : Char} {t : Taken} {found : Option (Kind × ByteLexer)}
    (h : (b.past [c]).Finds c t found) :
    (found.map fun (kind, b) => (some kind, b)) = some (some t.kind,
      { b.past (t.dropped ++ t.lexeme) with start := b.start + byteSize t.dropped }) := by
  obtain ⟨more, hmore, rfl⟩ := h
  rw [hmore, Option.map_some, past_past]
  rfl

namespace At

variable {b : ByteLexer} {read : List Char} {c : Char} {cs : List Char}

/-- The byte in front of the reader is the first one of a character. -/
theorem bump? (h : b.At read [] (c :: cs)) :
    ∃ d, b.bump? = some (d, b.forward 1) ∧ (c.toNat < 128 → d = c)
      ∧ (128 ≤ c.toNat → 128 ≤ d.toNat) := by
  obtain ⟨byte, more, hbytes, hlow, hhigh⟩ := exists_firstByte c
  have hsource : utf8Bytes b.source = bytesOf read ++ byte :: (more ++ bytesOf cs) := by
    rw [utf8Bytes_eq, h.source_eq, List.nil_append, bytesOf_append, bytesOf_cons, hbytes]
    rfl
  have hoffset : b.offset = (bytesOf read).length := by
    rw [h.offset, List.append_nil, length_bytesOf]
  refine ⟨.ofUInt8 byte, ?_, fun hc => (hlow hc).1, hhigh⟩
  rw [ByteLexer.bump?, hsource, hoffset, List.getElem?_append_right (Nat.le_refl _), Nat.sub_self]
  rfl

/-- Behind one character the reader is in a token that starts with it. -/
theorem past_first (h : b.At read [] (c :: cs)) : (b.past [c]).At read [c] cs := by
  have hpast : (b.past [c]).At read ([] ++ [c]) cs := h.past
  exact hpast

/-- A character of one byte is read as a whole. -/
theorem scan?_ascii (h : b.At read [] (c :: cs)) (hc : c.toNat < 128) (hline : c ≠ '\n') :
    b.scan? = (b.past [c]).scanFrom? c := by
  obtain ⟨d, hbump, hlow, -⟩ := h.bump?
  obtain rfl := hlow hc
  rw [scan?, hbump, ← forward_eq_past b hc hline]
  rfl

/-- A blank is passed and is no token. -/
theorem scan?_blank (h : b.At read [] (c :: cs)) (hblank : isBlank c = true) :
    b.scan? = some (none, b.past [c]) := by
  by_cases hline : c = '\n'
  · subst hline
    obtain ⟨d, hbump, hlow, -⟩ := h.bump?
    obtain rfl := hlow (by decide)
    rw [scan?, hbump]
    rfl
  · rw [h.scan?_ascii (asciiOnly_isBlank c hblank).2 hline, scanFrom?, if_pos hblank, if_neg hline]

/-- A comment is passed and is no token. -/
theorem scan?_comment (h : b.At read [] ('/' :: '/' :: cs)) :
    b.scan? = some (none, b.past ('/' :: '/' :: cs.takeWhile (· != '\n'))) := by
  have hnext := h.past_first
  have hpeek : (b.past ['/']).peekAt? 0 = some '/' := hnext.peekAt? 0
  rw [h.scan?_ascii (by decide) (by decide), scanFrom?, if_neg (by decide), if_pos rfl, hpeek,
    hnext.skipComment?]
  exact congrArg (fun b => some (none, b)) (past_past _ _ _)

/-- A single slash is a symbol of its own. -/
theorem scan?_slash (h : b.At read [] ('/' :: cs)) (hsingle : cs.head? ≠ some '/') :
    b.scan? = some (some (.symbol .slash), b.past ['/']) := by
  obtain ⟨d, hpeek, hd⟩ := h.past_first.peekAt?_any (asciiOnly_beq (d := '/') (by decide))
  have hother : d ≠ '/' := by
    rintro rfl
    obtain ⟨e, he, hsame⟩ := (Option.any_eq_true _ _).1 hd.symm
    exact hsingle (he.trans (congrArg some (eq_of_beq hsame)))
  rw [h.scan?_ascii (by decide) (by decide), scanFrom?, if_neg (by decide), if_pos rfl]
  simp only [hpeek, Option.bind_eq_bind, Option.bind_some, if_neg hother]

/-- A stray character is a token up to the next boundary. -/
theorem scanFrom?_stray (b : ByteLexer) (hstray : isStray c = true) :
    b.scanFrom? c = (b.skipToBoundary? b.fuel).bind fun b =>
      (Quill.slice? b.source b.start b.offset).bind fun _ => some (some .unknown, b) := by
  simp only [isStray, Bool.and_eq_true, Option.isNone_iff_eq_none, bne_iff_ne, ne_eq,
    Bool.not_eq_true'] at hstray
  obtain ⟨⟨⟨⟨hsymbol, hquote⟩, hdigit⟩, hstart⟩, hblank⟩ := hstray
  have hslash : c ≠ '/' := by
    rintro rfl
    cases hsymbol
  simp [scanFrom?, hsymbol, hquote, hdigit, hstart, hblank, hslash]

/-- A character of several bytes starts nothing else, so it is stray. -/
theorem isStray_of_le (hc : 128 ≤ c.toNat) : isStray c = true := by
  have hsymbol : (Symbol.ofChar? c).isNone = true := by
    rw [← Option.not_isSome, asciiOnly_isSome_ofChar?.eq_false hc]
    rfl
  have hquote : c ≠ '"' := by
    rintro rfl
    exact absurd hc (by decide)
  simp [isStray, hsymbol, hquote, asciiOnly_isDigit.eq_false hc, asciiOnly_isWordStart.eq_false hc,
    asciiOnly_isBlank.eq_false hc]

/-- A stray character is passed over as a whole, however many bytes it has. -/
theorem scanFrom?_forward (h : b.At read [] (c :: cs)) (hline : c ≠ '\n') {d : Char}
    (hd : isStray d = true) :
    (b.forward 1).scanFrom? d = some (some .unknown, b.past [c]) := by
  have hsize := byteSize_toList b.source
  rw [h.source_eq, List.nil_append, byteSize_append, byteSize_cons] at hsize
  have hoffset : (b.forward 1).offset = byteSize read + 1 := by
    rw [← List.append_nil read, ← h.offset]
    rfl
  have hfuel : c.utf8Size < 1 + (b.forward 1).fuel := by
    show c.utf8Size < 1 + (b.source.utf8ByteSize + 1)
    omega
  have hcount : [c].count '\n' = 0 := List.count_eq_zero.2 (by simpa using Ne.symm hline)
  have hsource : (b.forward 1).source.toList = read ++ c :: cs := h.source_eq
  have hpast : { b.forward 1 with offset := byteSize read + c.utf8Size } = b.past [c] := by
    rw [ByteLexer.past, hcount, byteSize_cons, h.offset, List.append_nil]
    rfl
  rw [scanFrom?_stray _ hd, skipToBoundary?_eq hsource hoffset Nat.one_pos c.utf8Size_pos hfuel,
    hpast, Option.bind_some, h.past_first.slice?]
  rfl

/-- A stray character is passed with all of its bytes. -/
theorem scan?_stray (h : b.At read [] (c :: cs)) (hline : c ≠ '\n') (hstray : isStray c = true) :
    b.scan? = some (some .unknown, b.past [c]) := by
  obtain ⟨d, hbump, hlow, hhigh⟩ := h.bump?
  have hd : isStray d = true := by
    rcases Nat.lt_or_ge c.toNat 128 with hc | hc
    · rwa [hlow hc]
    · exact isStray_of_le (hhigh hc)
  rw [scan?, hbump]
  exact h.scanFrom?_forward hline hd

/-- A gap is read where no token starts. -/
theorem scan?_gap (h : b.At read [] (c :: cs)) (hstarts : ¬ StartsPiece (c :: cs)) :
    ∃ gap rest, gap ≠ [] ∧ Gap gap rest ∧ c :: cs = gap ++ rest
      ∧ b.scan? = some (none, b.past gap) := by
  by_cases hblank : isBlank c = true
  · exact ⟨[c], cs, List.cons_ne_nil _ _, .blank hblank .nil, rfl, h.scan?_blank hblank⟩
  · obtain ⟨rfl, hhead⟩ : c = '/' ∧ cs.head? = some '/' := by
      by_contra hcomment
      refine hstarts fun d rest heq => ?_
      obtain ⟨rfl, rfl⟩ := List.cons.inj heq
      exact ⟨Bool.eq_false_iff.2 hblank, fun hc hhead => hcomment ⟨hc, hhead⟩⟩
    obtain ⟨rest, rfl⟩ := List.head?_eq_some_iff.1 hhead
    have hsplit := List.takeWhile_append_dropWhile (p := (· != '\n')) (l := rest)
    have hline : '\n' ∉ rest.takeWhile (· != '\n') := fun hmem =>
      absurd (of_mem_takeWhile _ hmem) (by decide)
    have hends : ∀ c ∈ (rest.dropWhile (· != '\n')).head?, c = '\n' := fun c hc => by
      simpa using eq_false_of_mem_head?_dropWhile c hc
    have hgap := Gap.comment hline hends .nil
    rw [List.append_nil] at hgap
    refine ⟨_, _, List.cons_ne_nil _ _, hgap, ?_, h.scan?_comment⟩
    rw [List.cons_append, List.cons_append, hsplit]

/-- A token is found where no blank and no comment starts. -/
theorem scan?_token (h : b.At read [] (c :: cs)) (hstarts : StartsPiece (c :: cs)) :
    b.scan? = some (some (Taken.ofChars c cs).kind,
      { b.past ((Taken.ofChars c cs).dropped ++ (Taken.ofChars c cs).lexeme) with
        start := b.start + byteSize (Taken.ofChars c cs).dropped }) := by
  obtain ⟨hblank, hslash⟩ := hstarts c cs rfl
  have hline : c ≠ '\n' := by
    rintro rfl
    cases hblank
  by_cases hstray : isStray c = true
  · rw [Taken.ofChars_stray hstray, h.scan?_stray hline hstray]
    rfl
  by_cases hcomment : c = '/'
  · subst hcomment
    rw [h.scan?_slash (hslash rfl)]
    rfl
  have hc : c.toNat < 128 := Nat.lt_of_not_ge fun hc => hstray (isStray_of_le hc)
  have hfirst := h.past_first
  rw [h.scan?_ascii hc hline, scanFrom?, if_neg (by simp [hblank]), if_neg hcomment]
  dsimp only
  cases hsymbol : Symbol.ofChar? c with
  | some s =>
    rw [Taken.ofChars_symbol hsymbol]
    exact (hfirst.finds_symbol s).map_eq
  | none =>
    by_cases hquote : c = '"'
    · subst hquote
      exact hfirst.finds_string.map_eq
    · by_cases hdigit : isDigit c = true
      · rw [Taken.ofChars_number hdigit]
        simp only [if_neg hquote, if_pos hdigit]
        exact (hfirst.finds_number hdigit).map_eq
      · have hstart : isWordStart c = true := by
          by_contra hstart
          exact hstray (by simp [isStray, hsymbol, hquote, hdigit, hstart, hblank])
        rw [Taken.ofChars_word hstart]
        simp only [if_neg hquote, if_neg hdigit, if_pos hstart]
        exact (hfirst.finds_word hstart).map_eq

end At

/-! ## Both lexers side by side -/

/-- Both lexers are at the same place of the same source, and what has been read last starts at a
boundary in front of it. -/
structure Tracks (b : ByteLexer) (l : Lexer) : Prop where
  past : ∃ read, l.Past b.source.toList read
  position : l.position = ⟨b.offset, b.line⟩
  finished : l.finished = b.finished
  start_le : b.start ≤ b.offset
  start_valid : (⟨b.start⟩ : String.Pos.Raw).IsValid b.source

/-- Both lexers start at the front of the source. -/
theorem tracks_ofSource (source : String) : (ofSource source).Tracks (.ofSource source) where
  past := ⟨[], Lexer.past_ofSource source⟩
  position := rfl
  finished := rfl
  start_le := Nat.le_refl _
  start_valid := String.Pos.Raw.isValid_zero

namespace Tracks

variable {b : ByteLexer} {l : Lexer}

/-- The offset is the number of bytes that have been read. -/
theorem exists_read (h : b.Tracks l) :
    ∃ read, l.Past b.source.toList read ∧ b.offset = byteSize read := by
  obtain ⟨read, hpast⟩ := h.past
  have hoffset := hpast.offset
  rw [h.position] at hoffset
  exact ⟨read, hpast, hoffset⟩

/-- The bytes of the source are those read and those left. -/
theorem size_eq (h : b.Tracks l) : b.source.utf8ByteSize = b.offset + byteSize l.rest := by
  obtain ⟨read, hpast, hoffset⟩ := h.exists_read
  rw [← byteSize_toList, hpast.source_eq, byteSize_append, hoffset]

/-- The offset is a boundary between characters. -/
theorem offset_valid (h : b.Tracks l) : (⟨b.offset⟩ : String.Pos.Raw).IsValid b.source := by
  obtain ⟨read, hpast, hoffset⟩ := h.exists_read
  rw [hoffset]
  exact isValid_byteSize hpast.source_eq

/-- A round starts between characters. -/
theorem exists_at (h : b.Tracks l) : ∃ read, At { b with start := b.offset } read [] l.rest := by
  obtain ⟨read, hpast, hoffset⟩ := h.exists_read
  exact ⟨read, hpast.source_eq, hoffset, by rw [List.append_nil]; exact hoffset⟩

/-- Both lexers read on, up to a later place. -/
theorem passes (h : b.Tracks l) (hnew : l.finished = false) {front behind rest : List Char}
    (hrest : l.rest = (front ++ behind) ++ rest) (start : Nat) :
    Tracks { b.past (front ++ behind) with start := b.offset + byteSize front }
      ⟨rest, l.position.advanceAll (front ++ behind), start, false⟩ := by
  obtain ⟨read, hpast, hoffset⟩ := h.exists_read
  refine ⟨⟨read ++ (front ++ behind), ?_, ?_⟩, ?_, hnew.symm.trans h.finished, ?_, ?_⟩
  · exact hpast.source_eq.trans (by rw [hrest, List.append_assoc read])
  · simp only [hpast.position, Position.advanceAll_append]
  · rw [Position.advanceAll_eq, h.position]
    rfl
  · show b.offset + byteSize front ≤ b.offset + byteSize (front ++ behind)
    rw [byteSize_append]
    omega
  · have hstart : b.source.toList = (read ++ front) ++ (behind ++ rest) := by
      rw [hpast.source_eq, hrest]
      simp only [List.append_assoc]
    rw [hoffset, ← byteSize_append]
    exact isValid_byteSize hstart

/-- Both lexers are at the end. -/
theorem ends (h : b.Tracks l) (hrest : l.rest = []) :
    Tracks { b with finished := true } ⟨[], l.position, l.position.offset, true⟩ := by
  obtain ⟨read, hpast⟩ := h.past
  exact ⟨⟨read, hrest ▸ hpast.source_eq, hpast.position⟩, h.position, rfl, h.start_le,
    h.start_valid⟩

/-- While characters are left, the source has not ended. -/
theorem not_ends (h : b.Tracks l) {c : Char} {cs : List Char} (hrest : l.rest = c :: cs) :
    ¬ b.source.utf8ByteSize ≤ b.offset := by
  have hpos := c.utf8Size_pos
  rw [h.size_eq, hrest, byteSize_cons]
  omega

/-- The token that starts where the lexers are, and where they are behind it. -/
theorem takes (h : b.Tracks l) (hnew : l.finished = false) {c : Char} {cs : List Char}
    (hrest : l.rest = c :: cs) (hstarts : StartsPiece (c :: cs)) (fuel : Nat) :
    ∃ t b' l', l.next = some (t, l') ∧ b.scanAll? (fuel + 1) = some (t, b') ∧ b'.Tracks l'
      ∧ b'.source = b.source := by
  obtain ⟨read, hat⟩ := h.exists_at
  have hsource := Taken.source_ofChars c cs
  have hsplit := hstarts.splitGap_eq
  rw [hrest] at hat
  have hscan := hat.scan?_token hstarts
  have hnext := Lexer.next_eq hnew
  rw [hrest, hsplit] at hnext
  dsimp only [Taken.first?] at hnext
  generalize Taken.ofChars c cs = taken at *
  have htracks := h.passes hnew (hrest.trans hsource.symm)
    (l.position.advanceAll taken.dropped).offset
  have hline := congrArg Position.line htracks.position
  have hposition : (l.position.advanceAll taken.dropped).advanceAll taken.lexeme =
      l.position.advanceAll (taken.dropped ++ taken.lexeme) :=
    (Position.advanceAll_append _ _ _).symm
  rw [show l.position.advanceAll [] = l.position from rfl, hposition] at hnext
  have hslice : slice? b.source (b.offset + byteSize taken.dropped)
      (b.offset + byteSize (taken.dropped ++ taken.lexeme)) =
        some (String.ofList taken.lexeme) := by
    have hoffset : b.offset = byteSize read := by simpa using hat.offset
    have hall : b.source.toList = (read ++ taken.dropped) ++ (taken.lexeme ++ taken.rest) := by
      rw [hat.source_eq, List.nil_append, ← hsource, Taken.source]
      simp only [List.append_assoc]
    have hslice := slice?_eq hall
    rwa [List.append_assoc, byteSize_append, byteSize_append, ← hoffset] at hslice
  refine ⟨_, _, _, hnext, ?_, htracks, rfl⟩
  rw [ByteLexer.scanAll?, if_neg (h.not_ends hrest), hscan, hline]
  dsimp only [Option.bind_eq_bind, Option.bind_some, ByteLexer.past]
  rw [hslice]
  rfl

/-- A gap takes a round of its own. -/
theorem skips (h : b.Tracks l) (hnew : l.finished = false) {c : Char} {cs : List Char}
    (hrest : l.rest = c :: cs) (hstarts : ¬ StartsPiece (c :: cs)) (fuel : Nat) :
    ∃ (b' : ByteLexer) (l' : Lexer), l.next = l'.next
      ∧ b.scanAll? (fuel + 1) = b'.scanAll? fuel ∧ b'.Tracks l' ∧ b'.source = b.source
      ∧ l'.finished = false ∧ l'.rest.length < l.rest.length := by
  obtain ⟨read, hat⟩ := h.exists_at
  rw [hrest] at hat
  obtain ⟨gap, rest, hsome, hgap, happend, hscan⟩ := hat.scan?_gap hstarts
  have hfront : l.rest = ([] ++ gap) ++ rest := hrest.trans happend
  have htracks := h.passes hnew hfront b.offset
  refine ⟨_, _, ?_, ?_, htracks, rfl, rfl, ?_⟩
  · exact Lexer.next_eq_of_gap hgap hfront rfl hnew rfl
  · rw [ByteLexer.scanAll?, if_neg (h.not_ends hrest), hscan]
    rfl
  · have hpos := List.length_pos_iff.2 hsome
    rw [hfront, List.nil_append, List.length_append]
    exact Nat.lt_add_of_pos_left hpos

/-- The lexers give out the same token and stay at the same place. -/
theorem scanAll? {fuel : Nat} (h : b.Tracks l) (hnew : l.finished = false)
    (hfuel : l.rest.length < fuel) {t : Token} {l' : Lexer} (hnext : l.next = some (t, l')) :
    ∃ b', b.scanAll? fuel = some (t, b') ∧ b'.Tracks l' ∧ b'.source = b.source := by
  induction fuel generalizing b l with
  | zero => exact absurd hfuel (Nat.not_lt_zero _)
  | succ fuel ih =>
    cases hrest : l.rest with
    | nil =>
      have hend : b.source.utf8ByteSize ≤ b.offset := by
        rw [h.size_eq, hrest]
        exact Nat.le_refl _
      rw [Lexer.next_eq hnew, hrest] at hnext
      obtain ⟨rfl, rfl⟩ := Prod.mk.inj (Option.some.inj hnext)
      rw [ByteLexer.scanAll?, if_pos hend]
      refine ⟨_, ?_, h.ends hrest, rfl⟩
      show some ((⟨.eof, "", b.line⟩ : Token), _) = some ((⟨.eof, "", l.position.line⟩ : Token), _)
      rw [h.position]
    | cons c cs =>
      by_cases hstarts : StartsPiece (c :: cs)
      · obtain ⟨t', b', l'', hnext', hscan, htracks, hsource⟩ := h.takes hnew hrest hstarts fuel
        obtain ⟨rfl, rfl⟩ := Prod.mk.inj (Option.some.inj (hnext.symm.trans hnext'))
        exact ⟨b', hscan, htracks, hsource⟩
      · obtain ⟨b₁, l₁, hsame, hscan, htracks, hsource, hnew₁, hshort⟩ :=
          h.skips hnew hrest hstarts fuel
        obtain ⟨b', hscan', htracks', hsource'⟩ :=
          ih htracks hnew₁ (by omega) (hsame.symm.trans hnext)
        exact ⟨b', hscan.trans hscan', htracks', hsource'.trans hsource⟩

/-- Each call has a result, and the same one for both lexers. -/
theorem next? (h : b.Tracks l) :
    (b.finished = true ∧ b.next? = some (none, b) ∧ l.next = none)
      ∨ (b.finished = false ∧ ∃ t b' l', b.next? = some (some t, b') ∧ l.next = some (t, l')
        ∧ b'.Tracks l' ∧ b'.source = b.source) := by
  have hfinished := h.finished
  rw [ByteLexer.next?]
  cases hnew : b.finished with
  | true =>
    rw [hnew] at hfinished
    exact .inl ⟨rfl, if_pos rfl, by rw [Lexer.next, if_pos hfinished]⟩
  | false =>
    rw [hnew] at hfinished
    obtain ⟨read, hat⟩ := h.exists_at
    obtain ⟨t, l', hnext⟩ := Lexer.exists_next hfinished
    obtain ⟨b', hscan, htracks, hsource⟩ := h.scanAll? hfinished hat.length_lt_fuel hnext
    refine .inr ⟨rfl, t, b', l', ?_, hnext, htracks, hsource⟩
    rw [if_neg Bool.false_ne_true, show b.scanAll? b.fuel = _ from hscan]
    rfl

/-- A token that is not the end takes at least one byte. -/
theorem offset_lt (h : b.Tracks l) {t : Token} {b' : ByteLexer} {l' : Lexer}
    (hnext : l.next = some (t, l')) (htracks : b'.Tracks l') :
    t.kind = .eof ∨ b.offset < b'.offset := by
  rcases Lexer.spelled_of_next hnext with ⟨hend, -⟩ | ⟨-, hopen⟩
  · exact .inl hend
  · refine .inr ?_
    obtain ⟨read, hpast, hoffset⟩ := h.exists_read
    obtain ⟨⟨more, -, hmore⟩, -, -⟩ := hpast.next hnext
    have hbehind : b'.offset = byteSize (read ++ more) := by
      have hbehind := hmore.offset
      rwa [htracks.position] at hbehind
    have hsplit : l.rest = more ++ l'.rest := by
      have hsource := hpast.source_eq.symm.trans hmore.source_eq
      rwa [List.append_assoc, List.append_cancel_left_eq] at hsource
    have hshort : l'.rest.length < l.rest.length :=
      (Lexer.length_rest_of_next hnext).resolve_left (by simp [hopen])
    have hsize := length_le_byteSize more
    rw [hsplit, List.length_append] at hshort
    rw [hbehind, hoffset, byteSize_append]
    omega

end Tracks

/-- Both lexers stay at the same place through any number of calls. -/
theorem exists_tracks_skip (n : Nat) {b : ByteLexer} {l : Lexer} (h : b.Tracks l) :
    ∃ b', b.skip? n = some b' ∧ b'.Tracks (l.skip n) ∧ b'.source = b.source := by
  induction n generalizing b l with
  | zero => exact ⟨b, rfl, h, rfl⟩
  | succ n ih =>
    rw [skip?, Lexer.skip]
    rcases h.next? with ⟨-, hcall, hnext⟩ | ⟨-, t, b', l', hcall, hnext, htracks, hsource⟩
    · rw [hcall, hnext]
      obtain ⟨b', hskip, htracks, hsource⟩ := ih h
      rw [Lexer.skip_of_next_eq_none hnext] at htracks
      exact ⟨b', hskip, htracks, hsource⟩
    · rw [hcall, hnext]
      obtain ⟨b'', hskip, htracks', hsource'⟩ := ih htracks
      exact ⟨b'', hskip, htracks', hsource'.trans hsource⟩

end ByteLexer

/-- **Offsets stay on characters.** Reading a source by its bytes never fails, whatever the number of
calls: no byte is looked at that is not there, nothing is cut inside of a character, every loop comes
to its end, and the text of a number has a value. The offsets are in order, in the source, and
between characters. The next call gives out what the lexer that splits off characters gives out at
the same place; unless that is the end of the source, it reads at least one byte; and the text of a
number is made of digits, or of digits on both sides of a point. -/
theorem byte_offsets_on_boundaries (source : String) (n : Nat) :
    ∃ b, (ByteLexer.ofSource source).skip? n = some b
      ∧ (b.start ≤ b.offset ∧ b.offset ≤ source.utf8ByteSize
        ∧ (⟨b.start⟩ : String.Pos.Raw).IsValid source
        ∧ (⟨b.offset⟩ : String.Pos.Raw).IsValid source)
      ∧ ((Lexer.ofSource source).skip n).position = ⟨b.offset, b.line⟩
      ∧ ((b.finished = true ∧ b.next? = some (none, b)
          ∧ ((Lexer.ofSource source).skip n).next = none)
        ∨ (b.finished = false ∧ ∃ t b' l', b.next? = some (some t, b')
          ∧ ((Lexer.ofSource source).skip n).next = some (t, l')
          ∧ (t.kind = .eof ∨ b.offset < b'.offset)
          ∧ ∀ value, t.kind = .number value →
            Spelled (.number value) t.lexeme.toList ∧ readNumber? t.lexeme = some value)) := by
  obtain ⟨b, hskip, htracks, hsource⟩ :=
    ByteLexer.exists_tracks_skip n (ByteLexer.tracks_ofSource source)
  have hsame : b.source = source := hsource
  subst hsame
  refine ⟨b, hskip, ⟨htracks.start_le, htracks.offset_valid.le_utf8ByteSize, htracks.start_valid,
    htracks.offset_valid⟩, htracks.position, ?_⟩
  rcases htracks.next? with hlast | ⟨hnew, t, b', l', hcall, hnext, hbehind, -⟩
  · exact .inl hlast
  · refine .inr ⟨hnew, t, b', l', hcall, hnext, htracks.offset_lt hnext hbehind, fun value hkind => ?_⟩
    rcases Lexer.spelled_of_next hnext with ⟨hend, -⟩ | ⟨hspelled | hunknown, -⟩
    · cases hend.symm.trans hkind
    · rw [hkind] at hspelled
      exact ⟨hspelled, readNumber?_of_spelled hspelled⟩
    · cases hunknown.symm.trans hkind

-- A character of three bytes is stray as a whole, and an open text starts behind everything.
example : ((ByteLexer.ofSource "€ \"é").skip? 1).map ByteLexer.offset = some 3
    ∧ ((ByteLexer.ofSource "€ \"é").skip? 2).map ByteLexer.start = some 7 := by
  decide +kernel

/-- **Lines are exact.** After any number of calls the next one gives out a token on the line of the
end of its text: one more than there are line feeds in the source up to there. This is the place that
the lexer is then at, in characters, bytes and lines. A token without a text, at the end or for a
text that is not closed, is on the last line of the source. No token is on an earlier line than the
one before it. The lexer that counts lines as it reads bytes gives out the same token after as many
calls, and has then counted up to its line. -/
theorem line_of_next {source : String} {n : Nat} {t : Token} {l : Lexer}
    (h : ((Lexer.ofSource source).skip n).next = some (t, l)) :
    (∃ read, source.toList = read ++ l.rest ∧ l.position.offset = (String.ofList read).utf8ByteSize
        ∧ t.lexeme.toList <:+ read ∧ t.line = 1 + read.count '\n')
      ∧ (t.isEof = true ∨ t.lexeme = "" → t.line = 1 + source.toList.count '\n')
      ∧ l.line = t.line
      ∧ (∀ {t' l'}, l.next = some (t', l') → t.line ≤ t'.line)
      ∧ ∃ b b', (ByteLexer.ofSource source).skip? n = some b ∧ b.next? = some (some t, b')
        ∧ b'.line = t.line ∧ b'.offset = l.position.offset := by
  obtain ⟨before, hbefore⟩ := Lexer.exists_past_skip n (Lexer.past_ofSource source)
  obtain ⟨⟨more, hsuffix, hpast⟩, hline, hlast⟩ := hbefore.next h
  refine ⟨⟨before ++ more, hpast.source_eq, hpast.offset, ?_, ?_⟩, fun htextless => ?_, hline.symm,
    fun hnext => ?_, ?_⟩
  · exact hsuffix.trans (List.suffix_append _ _)
  · rw [hline, hpast.line]
  · rw [hline, hpast.line, hpast.source_eq, hlast htextless, List.append_nil]
  · obtain ⟨⟨further, -, hfurther⟩, hline', -⟩ := hpast.next hnext
    have hmore : (before ++ more ++ further).count '\n' =
        (before ++ more).count '\n' + further.count '\n' := List.count_append
    rw [hline, hline', hpast.line, hfurther.line, hmore]
    omega
  · obtain ⟨b, hskip, htracks, -⟩ :=
      ByteLexer.exists_tracks_skip n (ByteLexer.tracks_ofSource source)
    rcases htracks.next? with ⟨-, -, hend⟩ | ⟨-, t', b', l', hcall, hnext, hbehind, -⟩
    · cases hend.symm.trans h
    · obtain ⟨rfl, rfl⟩ := Prod.mk.inj (Option.some.inj (hnext.symm.trans h))
      refine ⟨b, b', hskip, hcall, ?_, ?_⟩
      · rw [hline, Lexer.line, hbehind.position]
      · rw [hbehind.position]

/-- A text over two lines behind a comment is on the line of its closing quote. -/
theorem line_of_next_text :
    ((Lexer.ofSource "// a\nlet \"\n\";").skip 1).next =
        some (⟨.string "\n", "\"\n\"", 3⟩, ⟨[';'], ⟨12, 3⟩, 9, false⟩)
      ∧ (∃ read, "// a\nlet \"\n\";".toList = read ++ [';'] ∧ 3 = 1 + read.count '\n')
      ∧ ∃ b b', (ByteLexer.ofSource "// a\nlet \"\n\";").skip? 1 = some b
        ∧ b.next? = some (some ⟨.string "\n", "\"\n\"", 3⟩, b') ∧ b'.line = 3
        ∧ b'.offset = 12 := by
  have hnext : ((Lexer.ofSource "// a\nlet \"\n\";").skip 1).next =
      some (⟨.string "\n", "\"\n\"", 3⟩, ⟨[';'], ⟨12, 3⟩, 9, false⟩) := by decide +kernel
  obtain ⟨⟨read, hsource, -, -, hline⟩, -, -, -, hbytes⟩ := line_of_next hnext
  exact ⟨hnext, ⟨read, hsource, hline⟩, hbytes⟩

end Quill

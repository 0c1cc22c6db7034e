import Quill.Proofs.Token.Lines

/-!
# The bytes of a text

The bytes of a text are those of its characters in order. A character of the alphabet that tokens
are made of is one byte, the same as its number, and no byte of any other character is such a number.
So a look at bytes tells as much about these characters as a look at the text: a byte belongs to a
class of them exactly if the character it starts does (`AsciiOnly.frontByte`), and searching and
counting bytes is searching and counting characters (`idxOf?_bytesOf`, `count_bytesOf`).
-/

namespace Quill

/-! ## Bytes in order -/

/-- The bytes of a text. -/
def utf8Bytes (text : String) : List UInt8 :=
  text.toByteArray.data.toList

/-- The bytes of characters. -/
def bytesOf (cs : List Char) : List UInt8 :=
  cs.flatMap String.utf8EncodeChar

/-- The number of bytes of characters. -/
def byteSize (cs : List Char) : Nat :=
  (String.ofList cs).utf8ByteSize

@[simp] theorem byteSize_nil : byteSize [] = 0 := rfl

@[simp] theorem byteSize_cons (c : Char) (cs : List Char) :
    byteSize (c :: cs) = c.utf8Size + byteSize cs := by
  rw [byteSize, String.ofList_cons, String.utf8ByteSize_append, String.utf8ByteSize_singleton,
    byteSize]

@[simp] theorem byteSize_append (cs ds : List Char) :
    byteSize (cs ++ ds) = byteSize cs + byteSize ds := by
  rw [byteSize, String.ofList_append, String.utf8ByteSize_append, byteSize, byteSize]

/-- The size of a text is that of its characters. -/
theorem byteSize_toList (text : String) : byteSize text.toList = text.utf8ByteSize := by
  rw [byteSize, String.ofList_toList]

/-- Characters have as many bytes as their sizes say. -/
theorem length_bytesOf (cs : List Char) : (bytesOf cs).length = byteSize cs := by
  induction cs with
  | nil => rfl
  | cons c cs ih =>
    rw [bytesOf, List.flatMap_cons, List.length_append, String.length_utf8EncodeChar, byteSize_cons]
    exact congrArg _ ih

/-- The bytes of a text of characters are the bytes of the characters. -/
theorem utf8Bytes_ofList (cs : List Char) : utf8Bytes (String.ofList cs) = bytesOf cs := by
  rw [utf8Bytes, String.toByteArray_ofList, List.utf8Encode, List.toList_data_toByteArray, bytesOf]

/-- The bytes of a text are those of its characters. -/
theorem utf8Bytes_eq (text : String) : utf8Bytes text = bytesOf text.toList := by
  rw [← utf8Bytes_ofList, String.ofList_toList]

/-- Texts of the same bytes are the same. -/
theorem utf8Bytes_inj {text text' : String} : utf8Bytes text = utf8Bytes text' ↔ text = text' := by
  rw [utf8Bytes, utf8Bytes, Array.toList_inj, ← ByteArray.ext_iff, String.toByteArray_inj]

/-- Characters one after another have their bytes one after another. -/
theorem bytesOf_append (cs ds : List Char) : bytesOf (cs ++ ds) = bytesOf cs ++ bytesOf ds :=
  List.flatMap_append

/-- The bytes of the first character come first. -/
theorem bytesOf_cons (c : Char) (cs : List Char) :
    bytesOf (c :: cs) = String.utf8EncodeChar c ++ bytesOf cs :=
  List.flatMap_cons

/-- Every character has at least one byte. -/
theorem length_le_byteSize (cs : List Char) : cs.length ≤ byteSize cs := by
  induction cs with
  | nil => exact Nat.le_refl _
  | cons c cs ih =>
    have hpos := c.utf8Size_pos
    rw [List.length_cons, byteSize_cons]
    omega

/-- The place behind characters, in bytes and lines. -/
theorem Position.advanceAll_eq (p : Position) (cs : List Char) :
    p.advanceAll cs = ⟨p.offset + byteSize cs, p.line + cs.count '\n'⟩ := by
  rw [byteSize, ← p.offset_advanceAll cs, ← p.line_advanceAll cs]

/-! ## One character -/

/-- A character below 128 is a single byte. -/
theorem utf8EncodeChar_of_lt {c : Char} (h : c.toNat < 128) :
    String.utf8EncodeChar c = [c.toUInt8] := by
  rw [String.utf8EncodeChar]
  exact if_pos (Nat.le_of_lt_succ h)

/-- A character beyond the first 128 has no byte below 128. -/
theorem le_toNat_of_mem_utf8EncodeChar {c : Char} (h : 128 ≤ c.toNat) :
    ∀ b ∈ String.utf8EncodeChar c, 128 ≤ b.toNat := by
  intro b hb
  rw [Char.toNat] at h
  simp only [String.utf8EncodeChar] at hb
  rw [if_neg (by omega)] at hb
  split at hb
  · simp at hb
    rcases hb with rfl | rfl <;> simp <;> omega
  · split at hb
    · simp at hb
      rcases hb with rfl | rfl | rfl <;> simp <;> omega
    · simp at hb
      rcases hb with rfl | rfl | rfl | rfl <;> simp <;> omega

/-- The byte of a character below 128 has the number of the character. -/
theorem toNat_toUInt8 {c : Char} (h : c.toNat < 128) : c.toUInt8.toNat = c.toNat := by
  have hsmall : c.toNat % 2 ^ 8 = c.toNat := Nat.mod_eq_of_lt (by omega)
  rw [← hsmall]
  rfl

/-- A byte as a character keeps its number. -/
theorem toNat_ofUInt8 (b : UInt8) : (Char.ofUInt8 b).toNat = b.toNat := by
  rfl

/-- A character below 128 is its own byte as a character. -/
theorem ofUInt8_toUInt8 {c : Char} (h : c.toNat < 128) : Char.ofUInt8 c.toUInt8 = c := by
  rw [← Char.toNat_inj, toNat_ofUInt8, toNat_toUInt8 h]

/-- The character, read for its first byte. -/
theorem exists_firstByte (c : Char) : ∃ b rest, String.utf8EncodeChar c = b :: rest
    ∧ (c.toNat < 128 → Char.ofUInt8 b = c ∧ rest = [])
    ∧ (128 ≤ c.toNat → 128 ≤ (Char.ofUInt8 b).toNat) := by
  obtain ⟨b, rest, hbytes⟩ := List.exists_cons_of_ne_nil (String.utf8EncodeChar_ne_nil (c := c))
  refine ⟨b, rest, hbytes, fun hlow => ?_, fun hhigh => ?_⟩
  · rw [utf8EncodeChar_of_lt hlow] at hbytes
    obtain ⟨rfl, rfl⟩ := List.cons.inj hbytes
    exact ⟨ofUInt8_toUInt8 hlow, rfl⟩
  · rw [toNat_ofUInt8]
    exact le_toNat_of_mem_utf8EncodeChar hhigh b (by rw [hbytes]; exact List.mem_cons_self)

/-! ## Classes of characters -/

/-- Only some of the first 128 characters belong to the class, and the null character does not. -/
def AsciiOnly (p : Char → Bool) : Prop :=
  ∀ c, p c = true → 0 < c.toNat ∧ c.toNat < 128

/-- Comparing with a character below 128, other than null, concerns such characters only. -/
theorem asciiOnly_beq {d : Char} (h : 0 < d.toNat ∧ d.toNat < 128) : AsciiOnly (· == d) := by
  intro c hc
  rwa [eq_of_beq hc]

/-- Digits are among the first 128 characters. -/
theorem asciiOnly_isDigit : AsciiOnly isDigit := by
  intro c hc
  have hbounds : 48 ≤ c.toNat ∧ c.toNat ≤ 57 := by
    simpa [isDigit, Char.le_def, UInt32.le_iff_toNat_le] using hc
  omega

/-- Characters that words start with are among the first 128. -/
theorem asciiOnly_isWordStart : AsciiOnly isWordStart := by
  intro c hc
  by_cases hlow : c = '_'
  · subst hlow
    decide
  · simp [isWordStart, Char.le_def, UInt32.le_iff_toNat_le, hlow] at hc
    omega

/-- Characters of words are among the first 128. -/
theorem asciiOnly_isWordRest : AsciiOnly isWordRest := by
  intro c hc
  rcases Bool.or_eq_true_iff.1 hc with hstart | hdigit
  · exact asciiOnly_isWordStart c hstart
  · exact asciiOnly_isDigit c hdigit

/-- Blanks are among the first 128 characters. -/
theorem asciiOnly_isBlank : AsciiOnly isBlank := by
  intro c hc
  simp only [isBlank, Bool.or_eq_true, beq_iff_eq] at hc
  rcases hc with ((rfl | rfl) | rfl) | rfl <;> decide

/-- Characters of symbols are among the first 128. -/
theorem asciiOnly_isSome_ofChar? : AsciiOnly fun c => (Symbol.ofChar? c).isSome := by
  intro c hc
  obtain ⟨s, hs⟩ := Option.isSome_iff_exists.1 hc
  unfold Symbol.ofChar? at hs
  split at hs
  all_goals first
    | decide
    | cases hs

namespace AsciiOnly

variable {p : Char → Bool}

/-- No character from 128 on belongs to such a class. -/
theorem eq_false (h : AsciiOnly p) {c : Char} (hc : 128 ≤ c.toNat) : p c = false := by
  rw [Bool.eq_false_iff]
  intro hp
  have hlow := (h c hp).2
  omega

/-- The byte at the front of a text, or a null byte at its end, belongs to the class exactly if the
character there does. -/
theorem front (h : AsciiOnly p) (cs : List Char) :
    p (.ofUInt8 ((bytesOf cs).getD 0 0)) = cs.head?.any p := by
  cases cs with
  | nil =>
    rw [Bool.eq_false_iff.2 fun hnull => absurd (h _ hnull).1 (by decide)]
    rfl
  | cons c cs =>
    obtain ⟨b, rest, hbytes, hlow, hhigh⟩ := exists_firstByte c
    rw [bytesOf_cons, hbytes, List.cons_append, List.getD_cons_zero, List.head?_cons,
      Option.any_some]
    rcases Nat.lt_or_ge c.toNat 128 with hc | hc
    · rw [(hlow hc).1]
    · rw [h.eq_false (hhigh hc), h.eq_false hc]

end AsciiOnly

/-! ## Searching and counting -/

/-- One of the first 128 characters is not among the bytes of another character. -/
theorem toUInt8_not_mem_utf8EncodeChar {c d : Char} (hd : d.toNat < 128) (h : c ≠ d) :
    d.toUInt8 ∉ String.utf8EncodeChar c := by
  intro hmem
  rcases Nat.lt_or_ge c.toNat 128 with hc | hc
  · rw [utf8EncodeChar_of_lt hc] at hmem
    have hsame := congrArg Char.ofUInt8 (List.mem_singleton.1 hmem)
    rw [ofUInt8_toUInt8 hd, ofUInt8_toUInt8 hc] at hsame
    exact h hsame.symm
  · have hhigh := le_toNat_of_mem_utf8EncodeChar hc _ hmem
    rw [toNat_toUInt8 hd] at hhigh
    omega

/-- The byte of a character below 128 is found where the character first stands. -/
theorem idxOf?_bytesOf {d : Char} (hd : d.toNat < 128) (cs : List Char) :
    (bytesOf cs).idxOf? d.toUInt8 =
      if d ∈ cs then some (byteSize (cs.takeWhile (· != d))) else none := by
  induction cs with
  | nil => rfl
  | cons c cs ih =>
    rw [bytesOf_cons]
    by_cases h : c = d
    · subst h
      simp [utf8EncodeChar_of_lt hd, List.idxOf?_cons]
    · have hnone : (String.utf8EncodeChar c).findIdx? (· == d.toUInt8) = none :=
        List.findIdx?_eq_none_iff.2 fun b hb => beq_eq_false_iff_ne.2 fun hsame =>
          toUInt8_not_mem_utf8EncodeChar hd h (hsame ▸ hb)
      rw [List.idxOf?, List.findIdx?_append, hnone, Option.none_or, ← List.idxOf?, ih,
        String.length_utf8EncodeChar]
      by_cases hcs : d ∈ cs
      · simp [hcs, h, Nat.add_comm]
      · simp [hcs, Ne.symm h]

/-- The byte of a character below 128 is found as often as the character. -/
theorem count_bytesOf {d : Char} (hd : d.toNat < 128) (cs : List Char) :
    (bytesOf cs).count d.toUInt8 = cs.count d := by
  induction cs with
  | nil => rfl
  | cons c cs ih =>
    rw [bytesOf_cons, List.count_append, ih]
    by_cases h : c = d
    · subst h
      rw [utf8EncodeChar_of_lt hd, List.count_singleton_self, List.count_cons_self, Nat.add_comm]
    · rw [List.count_eq_zero_of_not_mem (toUInt8_not_mem_utf8EncodeChar hd h), Nat.zero_add,
        List.count_cons_of_ne h]

/-! ## Character boundaries -/

/-- A text ends, and another starts, at a boundary. -/
theorem isValid_byteSize {source : String} {before behind : List Char}
    (h : source.toList = before ++ behind) : (⟨byteSize before⟩ : String.Pos.Raw).IsValid source := by
  refine String.Pos.Raw.isValid_iff_exists_append.2
    ⟨String.ofList before, String.ofList behind, ?_, rfl⟩
  rw [← String.ofList_append, ← h, String.ofList_toList]

/-- There is no boundary inside a character. -/
theorem not_isValid_inside {source : String} {before behind : List Char} {c : Char} {n : Nat}
    (h : source.toList = before ++ c :: behind) (hpos : 0 < n) (hinside : n < c.utf8Size) :
    ¬ (⟨byteSize before + n⟩ : String.Pos.Raw).IsValid source := by
  intro hvalid
  obtain ⟨i, hi⟩ := String.Pos.Raw.isValid_iff_exists_take_toList.1 hvalid
  have hsize : byteSize before + n = byteSize ((before ++ c :: behind).take i) := by rw [← h]; exact hi
  rcases Nat.lt_or_ge before.length i with hlong | hshort
  · obtain ⟨k, rfl⟩ := Nat.exists_eq_add_of_lt hlong
    rw [Nat.add_assoc, List.take_length_add_append, List.take_succ_cons, byteSize_append,
      byteSize_cons] at hsize
    omega
  · have hsplit := congrArg byteSize (List.take_append_drop i before)
    rw [List.take_append_of_le_length hshort] at hsize
    rw [byteSize_append] at hsplit
    omega

/-- The bytes between two places of a text. -/
theorem take_drop_bytes {source : String} {before inside behind : List Char}
    (h : source.toList = before ++ (inside ++ behind)) :
    ((utf8Bytes source).drop (byteSize before)).take
      (byteSize (before ++ inside) - byteSize before) = bytesOf inside := by
  rw [utf8Bytes_eq, h, bytesOf_append, bytesOf_append, List.drop_left' (length_bytesOf before),
    byteSize_append, Nat.add_sub_cancel_left, List.take_left' (length_bytesOf inside)]

/-- What stands between two boundaries. -/
def slice? (source : String) (first last : Nat) : Option String :=
  if h : (⟨first⟩ : String.Pos.Raw).IsValid source ∧ (⟨last⟩ : String.Pos.Raw).IsValid source
      ∧ first ≤ last then
    some (String.extract (source.pos ⟨first⟩ h.1) (source.pos ⟨last⟩ h.2.1))
  else none

/-- Between two boundaries stands what is between them. -/
theorem slice?_eq {source : String} {before inside behind : List Char}
    (h : source.toList = before ++ (inside ++ behind)) :
    slice? source (byteSize before) (byteSize (before ++ inside)) = some (String.ofList inside) := by
  have hlast : source.toList = (before ++ inside) ++ behind := by rw [h, List.append_assoc]
  have hle : byteSize before ≤ byteSize (before ++ inside) := by
    rw [byteSize_append]
    exact Nat.le_add_right _ _
  rw [slice?, dif_pos ⟨isValid_byteSize h, isValid_byteSize hlast, hle⟩]
  refine congrArg some (String.toByteArray_inj.1 (ByteArray.ext (Array.toList_inj.1 ?_)))
  rw [String.toByteArray_extract, ByteArray.data_extract, Array.toList_extract]
  exact (take_drop_bytes h).trans (utf8Bytes_ofList inside).symm

/-- The bytes between two offsets. -/
def byteSlice? (source : String) (first last : Nat) : Option (List UInt8) :=
  if first ≤ last ∧ last ≤ (utf8Bytes source).length then
    some (((utf8Bytes source).drop first).take (last - first))
  else none

/-- Between two boundaries stand the bytes of what is between them. -/
theorem byteSlice?_eq {source : String} {before inside behind : List Char}
    (h : source.toList = before ++ (inside ++ behind)) :
    byteSlice? source (byteSize before) (byteSize (before ++ inside)) = some (bytesOf inside) := by
  have hlength : (utf8Bytes source).length = byteSize before + byteSize (inside ++ behind) := by
    rw [utf8Bytes_eq, length_bytesOf, h, byteSize_append]
  rw [byteSlice?, if_pos (by rw [hlength]; simp only [byteSize_append]; omega), take_drop_bytes h]

end Quill

/-!
# Reading bytes as UTF-8

A byte sequence is read character by character. Where it is no text, the fault says at which byte
the bad sequence starts and how many bytes of it had looked like a character so far; a sequence that
the end of the input cuts off has no such length.

* `Utf8.decode`: the text, or the first fault.
* `Utf8.decodeLossy`: the text with every bad sequence replaced by one replacement character.
-/

namespace Quill.Text

/-- Where bytes stop being text. -/
structure Utf8Fault where
  /-- The byte at which the bad sequence starts. -/
  index : Nat
  /-- Its length, unless the input ended inside of it. -/
  length : Option Nat
deriving DecidableEq

namespace Utf8Fault

/-- The fault in words. -/
def message (fault : Utf8Fault) : String :=
  match fault.length with
  | some n => s!"invalid utf-8 sequence of {n} bytes from index {fault.index}"
  | none => s!"incomplete utf-8 byte sequence from index {fault.index}"

end Utf8Fault

namespace Utf8

/-- What a leading byte promises: its own share of the code point, the number of bytes that must
follow, and the range of the first of them. -/
structure Lead where
  /-- The leading bits of the code point. -/
  bits : Nat
  /-- The bytes that must follow. -/
  tails : Nat
  /-- The least value of the first following byte. -/
  low : Nat
  /-- The greatest value of the first following byte. -/
  high : Nat

/-- The promise of a leading byte. Bytes that would start an overlong form, a surrogate or a point
beyond the last one make none, or narrow the range of the byte after them. -/
def lead? (b : Nat) : Option Lead :=
  if b < 0x80 then some ⟨b, 0, 0x80, 0xBF⟩
  else if b < 0xC2 then none
  else if b < 0xE0 then some ⟨b - 0xC0, 1, 0x80, 0xBF⟩
  else if b = 0xE0 then some ⟨0, 2, 0xA0, 0xBF⟩
  else if b = 0xED then some ⟨0x0D, 2, 0x80, 0x9F⟩
  else if b < 0xF0 then some ⟨b - 0xE0, 2, 0x80, 0xBF⟩
  else if b = 0xF0 then some ⟨0, 3, 0x90, 0xBF⟩
  else if b < 0xF4 then some ⟨b - 0xF0, 3, 0x80, 0xBF⟩
  else if b = 0xF4 then some ⟨4, 3, 0x80, 0x8F⟩
  else none

/-- What stands at the front of a byte sequence. -/
inductive Piece where
  /-- A character of so many bytes. -/
  | char (c : Char) (width : Nat)
  /-- A bad sequence of so many bytes. -/
  | bad (length : Nat)
  /-- The start of a character that the end of the input cuts off. -/
  | cut

/-- Collects the bytes that a leading byte promised; `taken` counts those read so far. -/
def follow (taken point : Nat) : (tails low high : Nat) → List UInt8 → Piece
  | 0, _, _, _ => .char (Char.ofNat point) taken
  | _ + 1, _, _, [] => .cut
  | tails + 1, low, high, b :: rest =>
    if low ≤ b.toNat ∧ b.toNat ≤ high then
      follow (taken + 1) (point * 64 + (b.toNat - 0x80)) tails 0x80 0xBF rest
    else .bad taken

/-- The piece that starts with byte `b`. -/
def piece (b : UInt8) (rest : List UInt8) : Piece :=
  match lead? b.toNat with
  | some l => follow 1 l.bits l.tails l.low l.high rest
  | none => .bad 1

/-- Reads on from byte `index`, after skipping the bytes that belong to the last character read. -/
def decodeFrom (index skip : Nat) (text : String) : List UInt8 → Except Utf8Fault String
  | [] => .ok text
  | b :: rest =>
    match skip with
    | skip + 1 => decodeFrom (index + 1) skip text rest
    | 0 =>
      match piece b rest with
      | .char c width => decodeFrom (index + 1) (width - 1) (text.push c) rest
      | .bad length => .error ⟨index, some length⟩
      | .cut => .error ⟨index, none⟩

/-- The text that the bytes encode, or the first fault. -/
def decode (bytes : List UInt8) : Except Utf8Fault String :=
  decodeFrom 0 0 "" bytes

/-- The character that stands for bytes which are no text. -/
def replacement : Char := '\uFFFD'

/-- As `decodeFrom`, going on after faults. -/
def decodeLossyFrom (skip : Nat) (text : String) : List UInt8 → String
  | [] => text
  | b :: rest =>
    match skip with
    | skip + 1 => decodeLossyFrom skip text rest
    | 0 =>
      match piece b rest with
      | .char c width => decodeLossyFrom (width - 1) (text.push c) rest
      | .bad length => decodeLossyFrom (length - 1) (text.push replacement) rest
      | .cut => text.push replacement

/-- The text that the bytes encode, each bad sequence replaced by one character. -/
def decodeLossy (bytes : List UInt8) : String :=
  decodeLossyFrom 0 "" bytes

end Utf8

end Quill.Text

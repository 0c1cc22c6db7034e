import Quill.Number.Decimal

/-!
# Layouts of a number

The three texts in which a number is written:

* `Number.text`: printed values, trees and rendered programs. Always positional, never an exponent,
  no needless point.
* `Number.tokenText`: token listings. As above, but a whole number below `10 ^ 15` has the places
  `.0`.
* `Number.jsonText?`: JSON documents. Scientific outside of sixteen places before and five behind
  the point; numbers that are not finite have no text.
-/

namespace Quill

namespace Decimal

/-- Digits with the point in its place: no exponent, a zero before a leading point. -/
def positional (d : Decimal) : List Char :=
  let digits := Nat.toDigits 10 d.digits
  match d.exponent with
  | .ofNat zeros => digits ++ List.replicate zeros '0'
  | .negSucc e =>
    let places := e + 1
    if places < digits.length then
      digits.take (digits.length - places) ++ '.' :: digits.drop (digits.length - places)
    else
      '0' :: '.' :: List.replicate (places - digits.length) '0' ++ digits

/-- One digit before the point, the rest behind it, and a signed power of ten. -/
def scientific (d : Decimal) : List Char :=
  let digits := Nat.toDigits 10 d.digits
  let power : Int := d.exponent + (digits.length - 1 : Nat)
  let fraction := if digits.length ≤ 1 then [] else '.' :: digits.drop 1
  let sign := if power < 0 then '-' else '+'
  digits.take 1 ++ fraction ++ 'e' :: sign :: Nat.toDigits 10 power.natAbs

end Decimal

namespace Number

/-- Whole numbers below this bound are written out in full. -/
def plainBound : Nat := Nat.pow 10 15

/-- A whole number below the bound. -/
def isPlain (n : Number) : Bool :=
  n.isWhole && decide (n.wholePart < plainBound)

/-- The minus of a negative number, zero included. -/
def signChars (n : Number) : List Char :=
  if n.isNegative then ['-'] else []

/-- The text of a number that is not finite. The undefined value has no sign. -/
def unboundedChars (n : Number) : List Char :=
  if n.isNaN then "NaN".toList else n.signChars ++ "inf".toList

/-- The canonical characters of a number. -/
def chars (n : Number) : List Char :=
  if n.isPlain then n.signChars ++ Nat.toDigits 10 n.wholePart
  else if n.isFinite then n.signChars ++ (n.shortest .up).positional
  else n.unboundedChars

/-- The canonical text of a number: a plain integer, or the fewest digits that read back. -/
def text (n : Number) : String :=
  String.ofList n.chars

/-- The text of a number in a token listing. Negative zero loses its sign here. -/
def tokenText (n : Number) : String :=
  if n.isPlain then
    let sign := if n.isZero then [] else n.signChars
    String.ofList (sign ++ Nat.toDigits 10 n.wholePart ++ ".0".toList)
  else n.text

/-- Powers of ten of the leading digit that JSON writes without an exponent. -/
def jsonPositional (power : Int) : Bool :=
  decide (-5 ≤ power ∧ power ≤ 15)

/-- The text of a finite number in JSON, always with a point or an exponent. -/
def jsonText? (n : Number) : Option String :=
  if n.isFinite then
    let d := n.shortest .even
    let power : Int := d.exponent + ((Nat.toDigits 10 d.digits).length - 1 : Nat)
    let body :=
      if jsonPositional power then
        if 0 ≤ d.exponent then d.positional ++ ".0".toList else d.positional
      else d.scientific
    some (String.ofList (n.signChars ++ body))
  else none

end Number

end Quill

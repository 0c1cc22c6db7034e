import Quill.Number

/-!
# Decimal digits of a number

Reading digits and choosing digits.

* `Decimal.toNumber`: the number nearest to a decimal.
* `Number.shortest`: the fewest digits that read back as the number, and of those the nearest. On a
  grid of one more digit at a time, only the two neighbours of the exact value need be tried: if any
  point of the grid reads back, one of the two does.
* Every finite number is a finite decimal (`Number.exactDecimal`), so the search has an answer in
  any case.
-/

namespace Quill

/-- A decimal without sign: `digits * 10 ^ exponent`. -/
structure Decimal where
  /-- All digits, as one natural. -/
  digits : Nat
  /-- The power of ten of the last digit. -/
  exponent : Int
deriving DecidableEq

/-- Which of two equally near decimals is taken. -/
inductive Tie where
  /-- The greater one. -/
  | up
  /-- The one whose last digit is even. -/
  | even
deriving DecidableEq

namespace Decimal

/-- The nearest number. -/
def toNumber (d : Decimal) : Number :=
  match d.exponent with
  | .ofNat e => Number.ofRatio (d.digits * Nat.pow 10 e) 1
  | .negSucc e => Number.ofRatio d.digits (Nat.pow 10 (e + 1))

/-- The decimal that digit characters spell, the last `places` of them behind the point. -/
def ofDigitChars (digits : List Char) (places : Nat) : Decimal where
  digits := Nat.ofDigitChars 10 digits 0
  exponent := -places

end Decimal

namespace Number

/-- The places behind the point that a finite number needs: it is a significand divided by this
power of two, and two divides ten. -/
def decimalPlaces (n : Number) : Nat :=
  unitPlaces - scale n.magnitude

/-- A finite number counted in its last decimal place. Nothing is lost, because
`1 / 2 ^ places = 5 ^ places / 10 ^ places`. -/
def decimalUnits (n : Number) : Nat :=
  significand n.magnitude * Nat.pow 2 (scale n.magnitude - unitPlaces) * Nat.pow 5 n.decimalPlaces

/-- The finite number itself as a decimal. -/
def exactDecimal (n : Number) : Decimal where
  digits := n.decimalUnits
  exponent := -n.decimalPlaces

/-- A count in the number's last decimal place has the number's magnitude as the nearest one. -/
def readsBack (n : Number) (count : Nat) : Bool :=
  nearestMagnitude count (Nat.pow 10 n.decimalPlaces) == n.magnitude

/-- The decimal of exactly `width` digits that reads back as the number and is nearest to it, where
`total` is the number of digits of its decimal units. -/
def decimalOfWidth? (tie : Tie) (n : Number) (total width : Nat) : Option Decimal :=
  let dropped := total - width
  let step := Nat.pow 10 dropped
  let low := n.decimalUnits / step
  let twice := 2 * (n.decimalUnits % step)
  let exponent : Int := dropped - n.decimalPlaces
  let below : Decimal := ⟨low, exponent⟩
  let above : Decimal :=
    if low + 1 = Nat.pow 10 width then ⟨1, exponent + width⟩ else ⟨low + 1, exponent⟩
  match n.readsBack (low * step), n.readsBack ((low + 1) * step) with
  | false, false => none
  | true, false => some below
  | false, true => some above
  | true, true =>
    if twice < step then some below
    else if step < twice then some above
    else match tie with
      | .up => some above
      | .even => if low % 2 = 0 then some below else some above

/-- The fewest digits that read back as the number, the nearest of those, and of two equally near
the one the tie rule names. Seventeen digits always suffice. -/
def shortest (tie : Tie) (n : Number) : Decimal :=
  if n.units = 0 then ⟨0, 0⟩
  else
    let total := (Nat.toDigits 10 n.decimalUnits).length
    ((List.range 17).findSome? fun i => n.decimalOfWidth? tie total (i + 1)).getD n.exactDecimal

end Number

end Quill

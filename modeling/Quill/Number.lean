/-!
# Numbers

A number of the language is a binary floating-point value of sixty-four bits, kept as those bits, so
that equality of numbers is equality of bits and every law about them can be stated on `Nat`.

* `Number.magnitude`, `Number.isNegative`: the bits without the sign bit, and the sign bit.
* `Number.units`: the size of a finite number, counted in units of `2 ^ (-1074)`, the least positive
  number. Every finite number is a whole count of them.
* `Number.ofRatio`: the number nearest to a ratio of naturals, halves going to the even neighbour.
* Arithmetic and comparison are those of binary64.
-/

namespace Quill

/-- A number, by its sixty-four bits: sign, eleven bits of exponent, fifty-two of fraction. -/
structure Number where
  /-- The bits, the sign first. -/
  bits : UInt64
deriving DecidableEq, Inhabited

namespace Number

/-! ## The parts of a number -/

/-- The bit patterns below this count as magnitudes: all bits but the sign. -/
def signBit : Nat := Nat.pow 2 63

/-- The magnitude of infinity; greater magnitudes are not numbers at all. -/
def infiniteMagnitude : Nat := 2047 * Nat.pow 2 52

/-- The sign bit is set. -/
def isNegative (n : Number) : Bool :=
  decide (signBit ≤ n.bits.toNat)

/-- The bits without the sign. Greater magnitudes are greater sizes. -/
def magnitude (n : Number) : Nat :=
  n.bits.toNat % signBit

/-- Neither infinite nor undefined. -/
def isFinite (n : Number) : Bool :=
  decide (n.magnitude < infiniteMagnitude)

/-- The undefined value, in any of its patterns. -/
def isNaN (n : Number) : Bool :=
  decide (infiniteMagnitude < n.magnitude)

/-- Zero, of either sign. -/
def isZero (n : Number) : Bool :=
  n.magnitude == 0

/-- The number of a magnitude, with the sign bit as asked. -/
def ofMagnitude (negative : Bool) (magnitude : Nat) : Number :=
  ⟨UInt64.ofNat (if negative then signBit + magnitude else magnitude)⟩

/-- The same size without its sign. -/
def abs (n : Number) : Number :=
  ofMagnitude false n.magnitude

/-! ## The size of a finite number -/

/-- The count of the fifty-three leading bits: the fraction with its hidden bit, which is missing in
the lowest range. -/
def significand (magnitude : Nat) : Nat :=
  if magnitude < Nat.pow 2 52 then magnitude else magnitude % Nat.pow 2 52 + Nat.pow 2 52

/-- The power of two by which the significand is scaled, counted from the lowest range. -/
def scale (magnitude : Nat) : Nat :=
  magnitude / Nat.pow 2 52 - 1

/-- The power of two that divides one into units. -/
def unitPlaces : Nat := 1074

/-- The size of a finite number in units of `2 ^ (-1074)`. -/
def units (n : Number) : Nat :=
  significand n.magnitude * Nat.pow 2 (scale n.magnitude)

/-- The whole part of a finite number's size. -/
def wholePart (n : Number) : Nat :=
  n.units / Nat.pow 2 unitPlaces

/-- A finite number without a fraction. -/
def isWhole (n : Number) : Bool :=
  n.isFinite && n.units % Nat.pow 2 unitPlaces == 0

/-! ## The nearest number to a ratio -/

/-- A quotient rounded to the nearest natural; a half goes to the even neighbour. -/
def roundQuotient (num den : Nat) : Nat :=
  let quotient := num / den
  let twice := 2 * (num % den)
  if twice < den then quotient
  else if den < twice then quotient + 1
  else quotient + quotient % 2

/-- The magnitude nearest to `num / den`. The scale leaves fifty-three bits before rounding; a
rounding that carries into the next range gives that range's first magnitude by the same sum, and
whatever lies beyond the greatest finite magnitude is infinite. -/
def nearestMagnitude (num den : Nat) : Nat :=
  let scaled := num * Nat.pow 2 unitPlaces
  let range := Nat.log2 (scaled / den) - 52
  min (range * Nat.pow 2 52 + roundQuotient scaled (den * Nat.pow 2 range)) infiniteMagnitude

/-- The number nearest to `num / den`. -/
def ofRatio (num den : Nat) : Number :=
  ofMagnitude false (nearestMagnitude num den)

/-- The number nearest to an integer. -/
def ofInt (i : Int) : Number :=
  ofMagnitude (decide (i < 0)) (nearestMagnitude i.natAbs 1)

/-! ## Arithmetic and comparison -/

/-- The floating-point value with these bits. -/
def toFloat (n : Number) : Float :=
  Float.ofBits n.bits

/-- The number with the bits of a floating-point value. -/
def ofFloat (x : Float) : Number :=
  ⟨x.toBits⟩

/-- The same size with the other sign. -/
def neg (n : Number) : Number :=
  ofMagnitude (!n.isNegative) n.magnitude

/-- The rounded sum. -/
def add (a b : Number) : Number := ofFloat (a.toFloat + b.toFloat)

/-- The rounded difference. -/
def sub (a b : Number) : Number := ofFloat (a.toFloat - b.toFloat)

/-- The rounded product. -/
def mul (a b : Number) : Number := ofFloat (a.toFloat * b.toFloat)

/-- The rounded quotient. -/
def div (a b : Number) : Number := ofFloat (a.toFloat / b.toFloat)

/-- Less, as sizes with sign; false of an undefined value. -/
def lt (a b : Number) : Bool := a.toFloat < b.toFloat

/-- Less or equal, as sizes with sign; false of an undefined value. -/
def le (a b : Number) : Bool := a.toFloat ≤ b.toFloat

/-- Equal as sizes with sign: the two zeros are equal, an undefined value equals nothing. -/
def same (a b : Number) : Bool := a.toFloat == b.toFloat

end Number

end Quill

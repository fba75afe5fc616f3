/-!
# Doubles as exact fractions

The magnitude of a double is the number that its lower 63 bits spell. Below `infinityBits` such a
number `b` stands for the fraction `significand b * 2 ^ scale b` over `denominator`, and
`b = scale b * leadingBit + significand b` (`scale_significand`), so the order of the magnitudes is
the order of the fractions. `roundRatio` goes the other way: it gives the magnitude of the double
nearest to a fraction, and of two equally near ones the one with the even significand.
-/

namespace LoxTree.Number

/-- The bit that is implied in the significand of a normal double: `2 ^ 52`. -/
def leadingBit : Nat :=
  0x10000000000000

/-- The bit above a magnitude, which is set in a negative double: `2 ^ 63`. -/
def signBit : Nat :=
  0x8000000000000000

/-- The magnitude of the infinities; finite doubles have smaller ones, NaN has a larger one. -/
def infinityBits : Nat :=
  0x7FF0000000000000

/-- The magnitude of the NaN that a word denotes. -/
def nanBits : Nat :=
  0x7FF8000000000000

/-- The denominator of every finite double as a fraction; the least positive one is the inverse. -/
def denominator : Nat :=
  Nat.pow 2 1074

/-- The weight of the last place of a magnitude, as a power of two over `denominator`. -/
def scale (bits : Nat) : Nat :=
  bits / leadingBit - 1

/-- The significand of a magnitude; the leading bit is implied unless the double is subnormal. -/
def significand (bits : Nat) : Nat :=
  if bits < leadingBit then bits else leadingBit + bits % leadingBit

/-- A magnitude is its significand in units of its scale. -/
theorem scale_significand (bits : Nat) : scale bits * leadingBit + significand bits = bits := by
  unfold scale significand leadingBit
  split <;> omega

/-- The numerator of the fraction that a magnitude stands for, over `denominator`. -/
def numerator (bits : Nat) : Nat :=
  significand bits * Nat.pow 2 (scale bits)

/-- The quotient rounded to a natural number; a half goes to the even neighbour. -/
def roundDiv (num den : Nat) : Nat :=
  let quotient := num / den
  let twice := 2 * (num % den)
  if twice < den then quotient
  else if den < twice then quotient + 1
  else if quotient % 2 = 0 then quotient
  else quotient + 1

/-- The magnitude of the double nearest to a fraction, infinite when there is none so large. -/
def roundRatio (num den : Nat) : Nat :=
  let scaled := num * denominator
  let place := (scaled / den).log2 - 52
  min (place * leadingBit + roundDiv scaled (den * Nat.pow 2 place)) infinityBits

/-- The magnitude of a double. -/
def magnitude (x : Float) : Nat :=
  x.toBits.toNat % signBit

/-- Whether the sign bit of a double is set. -/
def isNegative (x : Float) : Bool :=
  signBit ≤ x.toBits.toNat

/-- The double with the given sign and magnitude. -/
def ofMagnitude (negative : Bool) (bits : Nat) : Float :=
  Float.ofBits (UInt64.ofNat (bits + if negative then signBit else 0))

/-- The double nearest to an integer, `none` when it would be infinite. -/
def ofInt? (n : Int) : Option Float :=
  let bits := roundRatio n.natAbs 1
  if bits < infinityBits then some (ofMagnitude (n < 0) bits) else none

end LoxTree.Number

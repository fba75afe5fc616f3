import LoxTree.Number.Decimal

/-!
# Texts of numbers

A layout fixes how the shortest decimal of a double is written: which exponents are written out
positionally, what marks a whole number, and the words for the values that are no numbers.
-/

namespace LoxTree.Number

/-- How doubles are written. -/
structure Layout where
  /-- The word for NaN. -/
  nan : String
  /-- The word for infinity. -/
  infinity : String
  /-- What follows a whole number that is written positionally. -/
  wholeMark : String
  /-- Whether a number is written positionally when its leading digit has this power of ten. -/
  positional : Int → Bool

/-- A decimal without an exponent. -/
def Decimal.positional (d : Decimal) (wholeMark : String) : List Char :=
  let digits := Nat.toDigits 10 d.coefficient
  if 0 ≤ d.exponent then digits ++ List.replicate d.exponent.toNat '0' ++ wholeMark.toList
  else
    let places := (-d.exponent).toNat
    if places < digits.length then
      digits.take (digits.length - places) ++ '.' :: digits.drop (digits.length - places)
    else '0' :: '.' :: List.replicate (places - digits.length) '0' ++ digits

/-- A power of ten after its mark: a sign and at least two digits. -/
def exponentText (n : Int) : List Char :=
  let digits := Nat.toDigits 10 n.natAbs
  'e' :: (if n < 0 then '-' else '+') :: (if digits.length < 2 then '0' :: digits else digits)

/-- A decimal as one leading digit, the others after a point, and a power of ten. -/
def Decimal.scientific (d : Decimal) : List Char :=
  let digits := Nat.toDigits 10 d.coefficient
  let lead := digits.take 1
  let rest := digits.drop 1
  lead ++ (if rest.isEmpty then [] else '.' :: rest) ++
    exponentText (d.exponent + (digits.length - 1 : Nat))

/-- The power of ten of the leading digit. -/
def Decimal.leadingPower (d : Decimal) : Int :=
  d.exponent + (digitCount d.coefficient - 1 : Nat)

/-- A double in the given layout. -/
def Layout.write (layout : Layout) (x : Float) : String :=
  let bits := magnitude x
  if infinityBits < bits then layout.nan
  else
    let sign := if isNegative x then "-" else ""
    if bits = infinityBits then sign ++ layout.infinity
    else
      let d := shortest bits
      let text :=
        if layout.positional d.leadingPower then d.positional layout.wholeMark else d.scientific
      sign ++ String.ofList text

end LoxTree.Number

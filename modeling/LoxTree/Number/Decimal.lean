import LoxTree.Number.Binary64

/-!
# Decimals

A decimal is a coefficient times a power of ten. `Decimal.round` gives the magnitude of the double
nearest to it. `shortest` goes back: of the decimals that round to a magnitude it gives one with the
fewest digits, and of these the one nearest to the magnitude's exact value. It looks for it among
the two neighbours of the exact value on the grids of 1, 2, …, 17 digits, the nearer of the two
first; should none of them round to the magnitude, the exact value itself is the answer.
-/

namespace LoxTree.Number

/-- A power of ten. -/
def tenTo (n : Nat) : Nat :=
  Nat.pow 10 n

/-- The number `coefficient * 10 ^ exponent`. -/
structure Decimal where
  coefficient : Nat
  exponent : Int
  deriving DecidableEq, Repr

namespace Decimal

/-- The magnitude of the double nearest to a decimal. Exponents far outside the range of the doubles
are decided without the power of ten: `10 ^ 310` is beyond the largest double, and a coefficient of
`b` bits is below `10 ^ b`. -/
def round (d : Decimal) : Nat :=
  if d.coefficient = 0 then 0
  else if 310 ≤ d.exponent then infinityBits
  else if d.exponent < -(d.coefficient.log2 + 400 : Nat) then 0
  else roundRatio (d.coefficient * tenTo d.exponent.toNat) (tenTo (-d.exponent).toNat)

/-- The same number without zeros at the end of the coefficient. -/
def normalize (coefficient : Nat) (exponent : Int) : Decimal :=
  if coefficient = 0 then ⟨0, 0⟩
  else if coefficient % 10 = 0 then normalize (coefficient / 10) (exponent + 1)
  else ⟨coefficient, exponent⟩
termination_by coefficient

end Decimal

/-- The number of decimal digits. -/
def digitCount (n : Nat) : Nat :=
  (Nat.toDigits 10 n).length

/-- The number of digits before the point of a positive fraction, negative or zero for a small one:
the least `k` with `num / den < 10 ^ k`. -/
def pointPlace (num den : Nat) : Int :=
  let k : Int := (digitCount num : Int) - (digitCount den : Int)
  if num * tenTo (-k).toNat < den * tenTo k.toNat then k else k + 1

/-- The two multiples of `10 ^ exponent` around a fraction, the nearer first; a half goes to the
even one. -/
def gridNeighbours (num den : Nat) (exponent : Int) : List Decimal :=
  let n := num * tenTo (-exponent).toNat
  let d := den * tenTo exponent.toNat
  let below := n / d
  let near := roundDiv n d
  [⟨near, exponent⟩, ⟨if near = below then below + 1 else below, exponent⟩]

/-- The decimals that are tried for a magnitude, those with fewer digits first. -/
def candidates (bits : Nat) : List Decimal :=
  let place := pointPlace (numerator bits) denominator
  (List.range 17).flatMap fun i =>
    gridNeighbours (numerator bits) denominator (place - (i + 1 : Nat))

/-- The exact value of a magnitude. -/
def exactDecimal (bits : Nat) : Decimal :=
  ⟨numerator bits * Nat.pow 5 1074, -1074⟩

/-- A decimal with the fewest digits that rounds to a magnitude. -/
def shortest (bits : Nat) : Decimal :=
  let d := ((candidates bits).find? fun d => d.round == bits).getD (exactDecimal bits)
  Decimal.normalize d.coefficient d.exponent

end LoxTree.Number

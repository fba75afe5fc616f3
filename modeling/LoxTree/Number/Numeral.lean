import LoxTree.Number.Decimal
import LoxTree.Text.Blank
import LoxTree.Text.DecimalDigit

/-!
# Reading numerals

A numeral is an optional sign before a word for infinity or NaN, in any case, or before a decimal:
digits, a point with more digits, and a power of ten, of which the power may be absent and one side
of the point may be empty. Blanks may stand around it, single underscores between its digits, and
its digits may be of any script. `readNumeral?` gives the double nearest to what it denotes.
-/

namespace LoxTree.Number

/-- Whether a character is one of the digits `0` to `9`. -/
def isDigit (c : Char) : Bool :=
  '0' ≤ c && c ≤ '9'

/-- The value of a digit. -/
def digitValue (c : Char) : Nat :=
  c.toNat - '0'.toNat

/-- The number that digits spell. -/
def ofDigits (digits : List Char) : Nat :=
  digits.foldl (fun n c => 10 * n + digitValue c) 0

/-- Whether a character may surround a numeral. The four separator controls are blanks that may
not. -/
def isMargin (c : Char) : Bool :=
  Text.isBlank c && !(0x1C ≤ c.toNat && c.toNat ≤ 0x1F)

/-- A decimal digit of any script becomes the digit of the same value among `0` to `9`. -/
def plainDigit (c : Char) : Char :=
  match Text.decimalDigit? c with
  | some value => Nat.digitChar value
  | none => c

/-- Removes the underscores, each of which must stand between two digits; `afterDigit` says whether
the character before was a digit. -/
def dropUnderscores (afterDigit : Bool) : List Char → Option (List Char)
  | [] => some []
  | '_' :: rest =>
    match rest with
    | c :: _ => if afterDigit && isDigit c then dropUnderscores false rest else none
    | [] => none
  | c :: rest => (dropUnderscores (isDigit c) rest).map (c :: ·)

/-- An optional sign: whether it is a minus, and what follows it. -/
def splitSign : List Char → Bool × List Char
  | '-' :: rest => (true, rest)
  | '+' :: rest => (false, rest)
  | cs => (false, cs)

/-- A power of ten after its mark: an optional sign and one or more digits up to the end. -/
def readExponent? (cs : List Char) : Option Int :=
  let (negative, digits) := splitSign cs
  if digits.isEmpty || !digits.all isDigit then none
  else some (if negative then -(ofDigits digits : Int) else ofDigits digits)

/-- The power of ten that ends a decimal, zero where there is none. -/
def readPower? : List Char → Option Int
  | [] => some 0
  | c :: rest => if c = 'e' || c = 'E' then readExponent? rest else none

/-- A decimal without sign and underscores: digits, at most one point, and at most one power of
ten, with a digit on one side of the point at least. -/
def readDecimal? (cs : List Char) : Option Decimal :=
  let whole := cs.takeWhile isDigit
  let (part, rest) :=
    match cs.dropWhile isDigit with
    | '.' :: after => (after.takeWhile isDigit, after.dropWhile isDigit)
    | other => ([], other)
  if whole.isEmpty && part.isEmpty then none
  else (readPower? rest).map fun power => ⟨ofDigits (whole ++ part), power - part.length⟩

/-- The magnitude that a numeral without its sign denotes. -/
def readMagnitude? (cs : List Char) : Option Nat :=
  let lower := String.ofList (cs.map Char.toLower)
  if lower = "inf" || lower = "infinity" then some infinityBits
  else if lower = "nan" then some nanBits
  else (dropUnderscores false cs).bind fun digits => (readDecimal? digits).map Decimal.round

/-- The double that a numeral denotes, `none` if the text is no numeral. -/
def readNumeral? (text : String) : Option Float :=
  let cs := (Text.trimBoth isMargin text.toList).map plainDigit
  let (negative, rest) := splitSign cs
  (readMagnitude? rest).map (ofMagnitude negative)

end LoxTree.Number

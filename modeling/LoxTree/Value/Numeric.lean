import LoxTree.Fault
import LoxTree.Number.Numeral

/-!
# Data as numbers

Numbers of the language are doubles, but data that are read from files also hold integers, truth
values and texts that denote numbers. `Value.toNumber` turns them into doubles where that is
possible. `Value.quotient` divides data: two integers are divided exactly before the result is
rounded, so their quotient may be a number though they are not.
-/

namespace LoxTree.Value

/-! ### Conversion -/

/-- The double that an integer is nearest to. -/
def floatOfInteger (n : Int) : Except Fault Float :=
  match Number.ofInt? n with
  | some x => .ok x
  | none => .error .overflow

/-- The number that an integer is. -/
def ofInteger (n : Int) : Except Fault Value :=
  (floatOfInteger n).map .number

/-- The number that a text denotes. -/
def ofNumeral (text : String) : Except Fault Value :=
  match Number.readNumeral? text with
  | some x => .ok (.number x)
  | none => .error (.invalidNumeral text)

/-- The number that data denote. -/
def toNumber : Value → Except Fault Value
  | .string s => ofNumeral s
  | .integer n => ofInteger n
  | .boolean b => ofInteger (ofBool b)
  | .number x => .ok (.number x)
  | _ => .error .wrongType

/-- The integer that data are; a truth value is one or zero. -/
def toInteger? : Value → Option Int
  | .integer n => some n
  | .boolean b => some (ofBool b)
  | _ => none

/-- The double that data are, without reading texts. -/
def toFloat : Value → Except Fault Float
  | .number x => .ok x
  | .integer n => floatOfInteger n
  | .boolean b => floatOfInteger (ofBool b)
  | _ => .error .wrongType

/-- Whether data count as a number. -/
def isNumeric : Value → Bool
  | .number _ | .integer _ | .boolean _ => true
  | _ => false

/-! ### Division -/

/-- The number nearest to a ratio of integers. -/
def ofRatio (m n : Int) : Except Fault Value :=
  let bits := Number.roundRatio m.natAbs n.natAbs
  if bits < Number.infinityBits then
    .ok (.number (Number.ofMagnitude (decide (m < 0) != decide (n < 0)) bits))
  else .error .overflow

/-- The quotient of data as doubles. -/
def floatQuotient (v w : Value) : Except Fault Value := do
  return .number ((← v.toFloat) / (← w.toFloat))

/-- The quotient of data that count as numbers. Dividing by zero gives an infinity or NaN. -/
def quotient (v w : Value) : Except Fault Value :=
  if v.isNumeric && w.isNumeric then
    match v.toInteger?, w.toInteger? with
    | some m, some n => if n = 0 then floatQuotient v w else ofRatio m n
    | _, _ => floatQuotient v w
  else .error .wrongType

/-! ### Texts -/

/-- The text of a number as a program prints it; an integer must not be beyond the largest number,
and a truth value has no such text. -/
def numberText : Value → Except Fault String
  | .number x => .ok (printedNumber.write x)
  | .integer n => (floatOfInteger n).map fun _ => toString n
  | .boolean _ => .error .invalidDecimal
  | _ => .error .wrongType

end LoxTree.Value

import LoxTree.Fault

/-!
# Operators

What the operators of the language do to values. Arithmetic is that of IEEE 754 doubles, so dividing
by zero gives an infinity or NaN. Only Booleans and nil have a truth value, only numbers are
ordered, and any two values can be tested for equality.
-/

namespace LoxTree

/-- A prefix operator applied to a value. -/
def applyUnary (operator : Token) (v : Value) : Except Fault Value :=
  match operator.kind, v with
  | .minus, .number x => .ok (.number (-x))
  | .minus, _ => .error (.diagnostic (.mistypedAt operator .operandNotNumber))
  | .bang, .boolean b => .ok (.boolean !b)
  | .bang, .nil => .ok (.boolean true)
  | .bang, _ => .error (.diagnostic (.mistypedAt operator .operandNotBoolean))
  | _, _ => .error (.unsupported (.unaryOperator operator.lexeme))

/-- What an operator on two numbers gives, `none` if the operator is not one on numbers alone. -/
def numeric? (kind : Kind) (x y : Float) : Option Value :=
  match kind with
  | .minus => some (.number (x - y))
  | .slash => some (.number (x / y))
  | .star => some (.number (x * y))
  | .greater => some (.boolean (y < x))
  | .greaterEqual => some (.boolean (y ≤ x))
  | .less => some (.boolean (x < y))
  | .lessEqual => some (.boolean (x ≤ y))
  | _ => none

/-- The operators on numbers alone. -/
def numericKinds : List Kind :=
  [.minus, .slash, .star, .greater, .greaterEqual, .less, .lessEqual]

/-- An operator between two values. -/
def applyBinary (operator : Token) (v w : Value) : Except Fault Value :=
  match operator.kind with
  | .plus =>
    match v, w with
    | .number x, .number y => .ok (.number (x + y))
    | .string s, .string t => .ok (.string (s ++ t))
    | _, _ => .error (.diagnostic (.mistypedAt operator .operandsNotAddable))
  | .equalEqual => .ok (.boolean (v.equal w))
  | .bangEqual => .ok (.boolean !v.equal w)
  | kind =>
    if kind ∈ numericKinds then
      match v, w with
      | .number x, .number y =>
        match numeric? kind x y with
        | some result => .ok result
        | none => .error (.unsupported (.binaryOperator operator.lexeme))
      | _, _ => .error (.diagnostic (.mistypedAt operator .operandsNotNumbers))
    else .error (.unsupported (.binaryOperator operator.lexeme))

end LoxTree

import LoxTree.Number.Layout
import LoxTree.Text.Quoted

/-!
# Values

A Lox value is a Boolean, a number, a string or nil. Trees that are read from files can carry other
data in the place of a value: nothing at all, integers, lists and records. These are values of this
type too, so that they can be shown and compared, but no program can make one; `Value.isLox` tells
them apart.

A value has two texts. `display` is what a program prints. `inspect` is how a value is shown inside
other data, where strings are quoted and numbers keep a point or a power of ten.
-/

namespace LoxTree

/-- A value of the language, or other data that stands in the place of one. -/
inductive Value where
  | boolean (b : Bool)
  | number (x : Float)
  | string (s : String)
  | nil
  /-- No value at all. -/
  | absent
  | integer (n : Int)
  | list (items : List Value)
  | record (entries : List (String × Value))
  deriving Repr, Inhabited

namespace Value

/-- Whether a value is one of the language. -/
def isLox : Value → Bool
  | boolean _ | number _ | string _ | nil => true
  | absent | integer _ | list _ | record _ => false

/-- The type of a value, as it is named in traces. -/
def typeName : Value → String
  | boolean _ => "Boolean"
  | number _ => "Number"
  | string _ => "String"
  | nil => "Nil"
  | absent => "NoneType"
  | integer _ => "int"
  | list _ => "list"
  | record _ => "dict"

/-! ### Texts -/

/-- Numbers are printed positionally, and whole numbers without a point. -/
def printedNumber : Number.Layout where
  nan := "NaN"
  infinity := "inf"
  wholeMark := ""
  positional _ := true

/-- Inside other data, numbers below a ten-thousandth and from `10 ^ 16` on have a power of ten, and
whole numbers a point and a zero. -/
def inspectedNumber : Number.Layout where
  nan := "nan"
  infinity := "inf"
  wholeMark := ".0"
  positional power := -4 ≤ power && power < 16

mutual

/-- A value as it is shown inside other data. -/
def inspect : Value → String
  | boolean b => if b then "True" else "False"
  | number x => inspectedNumber.write x
  | string s => Text.quoted s
  | nil => "nil"
  | absent => "None"
  | integer n => toString n
  | list items => "[" ++ ", ".intercalate (inspectItems items) ++ "]"
  | record entries => "\x7b" ++ ", ".intercalate (inspectEntries entries) ++ "\x7d"

/-- The items of a list, each as it is shown inside other data. -/
def inspectItems : List Value → List String
  | [] => []
  | v :: rest => inspect v :: inspectItems rest

/-- The entries of a record, each with its name before it. -/
def inspectEntries : List (String × Value) → List String
  | [] => []
  | (name, v) :: rest => (Text.quoted name ++ ": " ++ inspect v) :: inspectEntries rest

end

/-- A value as a program prints it. -/
def display : Value → String
  | nil => "nil"
  | boolean b => if b then "true" else "false"
  | number x => printedNumber.write x
  | string s => s
  | other => other.inspect

/-! ### Equality -/

/-- Whether an integer and a double are the same number. -/
def sameNumber (n : Int) (x : Float) : Bool :=
  let bits := Number.magnitude x
  bits < Number.infinityBits && n.natAbs * Number.denominator == Number.numerator bits &&
    (n == 0 || (n < 0) == Number.isNegative x)

/-- A truth value counts as the number one or zero where data are compared. -/
def ofBool (b : Bool) : Int :=
  if b then 1 else 0

mutual

/-- Whether two values are the same data. Numbers, integers and truth values are compared as
numbers, lists item by item, and records by name whatever their order. -/
def sameData : Value → Value → Bool
  | boolean a, boolean b => a == b
  | boolean a, integer n => ofBool a == n
  | boolean a, number x => sameNumber (ofBool a) x
  | integer n, boolean b => n == ofBool b
  | integer n, integer m => n == m
  | integer n, number x => sameNumber n x
  | number x, boolean b => sameNumber (ofBool b) x
  | number x, integer n => sameNumber n x
  | number x, number y => x == y
  | string s, string t => s == t
  | nil, nil => true
  | absent, absent => true
  | list items, list others => sameItems items others
  | record entries, record others =>
    entries.length == others.length && sameEntries entries others
  | _, _ => false

/-- Whether two lists hold the same data. -/
def sameItems : List Value → List Value → Bool
  | [], [] => true
  | v :: rest, w :: others => sameData v w && sameItems rest others
  | _, _ => false

/-- Whether every entry has a counterpart of the same name that holds the same data. -/
def sameEntries : List (String × Value) → List (String × Value) → Bool
  | [], _ => true
  | (name, v) :: rest, others =>
    (match others.lookup name with
      | some w => sameData v w
      | none => false) && sameEntries rest others

end

/-- Equality in the language: two values are equal if they have the same type and are the same data.
No value of one type equals one of another. -/
def equal (v w : Value) : Bool :=
  v.typeName == w.typeName && sameData v w

/-- Whether data count as true where a flag is read: all but nothing, false, zero and empty data. -/
def isTruthy : Value → Bool
  | boolean b => b
  | number x => !(x == 0)
  | string s => !s.isEmpty
  | nil => true
  | absent => false
  | integer n => n != 0
  | list items => !items.isEmpty
  | record entries => !entries.isEmpty

end Value

end LoxTree

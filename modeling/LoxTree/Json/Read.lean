import LoxTree.Fault
import LoxTree.Nesting
import LoxTree.Number.Numeral

/-!
# Reading JSON

A text as the data that it denotes. The words for NaN and the infinities are read as numbers. A
number without a point and a power of ten is an integer, of at most `maxIntegerDigits` digits. Of
entries with the same name the last counts, in the place of the first. Lists and records take room
for nesting.
-/

namespace LoxTree.Json

/-- A reader: what it read and the rest of the text, or why it failed. -/
abbrev Reader (α : Type) := List Char → Except Fault (α × List Char)

/-- Whether a character may stand between the parts of a JSON text. -/
def isSpace (c : Char) : Bool :=
  c = ' ' || c = '\t' || c = '\n' || c = '\r'

/-- A text without the space at its front. -/
def skipSpace (cs : List Char) : List Char :=
  cs.dropWhile isSpace

/-! ### Strings -/

/-- What a character after a backslash stands for, `u` apart. -/
def simpleEscape? : Char → Option Char
  | '"' => some '"'
  | '\\' => some '\\'
  | '/' => some '/'
  | 'b' => some (Char.ofNat 0x08)
  | 'f' => some (Char.ofNat 0x0C)
  | 'n' => some '\n'
  | 'r' => some '\r'
  | 't' => some '\t'
  | _ => none

/-- The value of a hexadecimal digit. -/
def hexValue? (c : Char) : Option Nat :=
  if '0' ≤ c && c ≤ '9' then some (c.toNat - '0'.toNat)
  else if 'a' ≤ c && c ≤ 'f' then some (c.toNat - 'a'.toNat + 10)
  else if 'A' ≤ c && c ≤ 'F' then some (c.toNat - 'A'.toNat + 10)
  else none

/-- The number that hexadecimal digits spell. -/
def hexNumber? (digits : List Char) : Option Nat :=
  digits.foldlM (fun n c => (hexValue? c).map (16 * n + ·)) 0

/-- Whether a number is the first half of a pair that stands for one code point. -/
def isLeadingHalf (n : Nat) : Bool :=
  0xD800 ≤ n && n < 0xDC00

/-- Whether a number is the second half of such a pair. -/
def isTrailingHalf (n : Nat) : Bool :=
  0xDC00 ≤ n && n < 0xE000

/-- The units of a string after its opening quote, up to its closing quote: characters, and escaped
numbers that may be halves of a pair. -/
def readUnits : Reader (List (Char ⊕ Nat))
  | [] => .error .invalidJson
  | '"' :: rest => .ok ([], rest)
  | '\\' :: 'u' :: a :: b :: c :: d :: rest =>
    match hexNumber? [a, b, c, d] with
    | some n => do
      let (units, after) ← readUnits rest
      return (.inr n :: units, after)
    | none => .error .invalidJson
  | '\\' :: e :: rest =>
    match simpleEscape? e with
    | some c => do
      let (units, after) ← readUnits rest
      return (.inl c :: units, after)
    | none => .error .invalidJson
  | c :: rest =>
    if c.toNat < 0x20 || c = '\\' then .error .invalidJson
    else do
      let (units, after) ← readUnits rest
      return (.inl c :: units, after)

/-- The characters that units stand for. Two halves make one character; a half alone is no character
and is replaced. -/
def joinUnits : List (Char ⊕ Nat) → List Char
  | [] => []
  | .inl c :: rest => c :: joinUnits rest
  | [.inr n] => [if isLeadingHalf n || isTrailingHalf n then Char.ofNat 0xFFFD else Char.ofNat n]
  | .inr n :: next :: rest =>
    match next with
    | .inr m =>
      if isLeadingHalf n && isTrailingHalf m then
        Char.ofNat (0x10000 + (n - 0xD800) * 0x400 + (m - 0xDC00)) :: joinUnits rest
      else
        (if isLeadingHalf n || isTrailingHalf n then Char.ofNat 0xFFFD else Char.ofNat n) ::
          joinUnits (.inr m :: rest)
    | .inl c =>
      (if isLeadingHalf n || isTrailingHalf n then Char.ofNat 0xFFFD else Char.ofNat n) ::
        joinUnits (.inl c :: rest)
termination_by units => units.length

/-- A string after its opening quote. -/
def readString : Reader String := fun cs => do
  let (units, rest) ← readUnits cs
  return (String.ofList (joinUnits units), rest)

/-! ### Numbers -/

/-- The whole part of a number: a zero, or digits that start with another digit. -/
def splitWhole? : List Char → Option (List Char × List Char)
  | '0' :: rest => some (['0'], rest)
  | c :: rest =>
    if Number.isDigit c then
      some (c :: rest.takeWhile Number.isDigit, rest.dropWhile Number.isDigit)
    else none
  | [] => none

/-- The point of a number and the digits behind it, empty if no digit follows the point. -/
def splitFraction : List Char → List Char × List Char
  | '.' :: d :: rest =>
    if Number.isDigit d then
      ('.' :: d :: rest.takeWhile Number.isDigit, rest.dropWhile Number.isDigit)
    else ([], '.' :: d :: rest)
  | cs => ([], cs)

/-- The sign of a power of ten. -/
def splitPowerSign : List Char → List Char × List Char
  | '+' :: rest => (['+'], rest)
  | '-' :: rest => (['-'], rest)
  | cs => ([], cs)

/-- The power of ten of a number, empty if no digit follows its mark. -/
def splitPower (cs : List Char) : List Char × List Char :=
  match cs with
  | e :: rest =>
    if e = 'e' || e = 'E' then
      let (sign, after) := splitPowerSign rest
      let digits := after.takeWhile Number.isDigit
      if digits.isEmpty then ([], cs) else (e :: sign ++ digits, after.dropWhile Number.isDigit)
    else ([], cs)
  | [] => ([], cs)

/-- The most digits that an integer may have. -/
def maxIntegerDigits : Nat :=
  4300

/-- A number, with its sign. -/
def readNumber : Reader Value := fun cs => do
  let (sign, unsigned) := match cs with
    | '-' :: rest => (['-'], rest)
    | _ => ([], cs)
  match splitWhole? unsigned with
  | none => .error .invalidJson
  | some (whole, afterWhole) =>
    let (fraction, afterFraction) := splitFraction afterWhole
    let (power, rest) := splitPower afterFraction
    if fraction.isEmpty && power.isEmpty then
      if maxIntegerDigits < whole.length then throw (.integerTooLong whole.length)
      let n : Int := Number.ofDigits whole
      return (.integer (if sign.isEmpty then n else -n), rest)
    else
      match Number.readNumeral? (String.ofList (sign ++ whole ++ fraction ++ power)) with
      | some x => return (.number x, rest)
      | none => .error .invalidJson

/-! ### Values -/

/-- A word at the front of a text with the data that it stands for. -/
def words : List (String × Value) :=
  [("null", .absent), ("true", .boolean true), ("false", .boolean false),
    ("NaN", .number (Number.ofMagnitude false Number.nanBits)),
    ("Infinity", .number (Number.ofMagnitude false Number.infinityBits)),
    ("-Infinity", .number (Number.ofMagnitude true Number.infinityBits))]

/-- The word at the front of a text, and what follows it. -/
def readWord? (cs : List Char) : Option (Value × List Char) :=
  words.findSome? fun (word, v) =>
    if word.toList.isPrefixOf cs then some (v, cs.drop word.length) else none

/-- The items of a list from its first item on. Every item takes a character at least, so the length
of the text bounds their number. -/
def readItems (item : Reader Value) : Nat → Reader (List Value)
  | 0, _ => .error .invalidJson
  | bound + 1, cs => do
    let (v, rest) ← item cs
    match skipSpace rest with
    | ']' :: after => return ([v], after)
    | ',' :: after => do
      let (items, after) ← readItems item bound (skipSpace after)
      return (v :: items, after)
    | _ => .error .invalidJson

/-- Entries with one more in front, unless a later one has its name; then the later value counts. -/
def putFirst (name : String) (v : Value) (entries : List (String × Value)) :
    List (String × Value) :=
  match entries.lookup name with
  | some last => (name, last) :: entries.filter fun entry => entry.1 != name
  | none => (name, v) :: entries

/-- The entries of a record from its first name on. -/
def readEntries (item : Reader Value) : Nat → Reader (List (String × Value))
  | 0, _ => .error .invalidJson
  | bound + 1, cs => do
    match cs with
    | '"' :: cs =>
      let (name, rest) ← readString cs
      match skipSpace rest with
      | ':' :: rest =>
        let (v, rest) ← item (skipSpace rest)
        match skipSpace rest with
        | '}' :: after => return ([(name, v)], after)
        | ',' :: after =>
          let (entries, after) ← readEntries item bound (skipSpace after)
          return (putFirst name v entries, after)
        | _ => .error .invalidJson
      | _ => .error .invalidJson
    | _ => .error .invalidJson

/-- A value, within the given room. -/
def readValue : Nat → Reader Value
  | 0, _ => .error .tooDeep
  | room + 1, cs =>
    match cs with
    | '"' :: rest => do
      let (s, after) ← readString rest
      return (.string s, after)
    | '[' :: rest =>
      match skipSpace rest with
      | ']' :: after => .ok (.list [], after)
      | inner => do
        let (items, after) ← readItems (readValue room) inner.length inner
        return (.list items, after)
    | '{' :: rest =>
      match skipSpace rest with
      | '}' :: after => .ok (.record [], after)
      | inner => do
        let (entries, after) ← readEntries (readValue room) inner.length inner
        return (.record entries, after)
    | cs =>
      match readWord? cs with
      | some result => .ok result
      | none => readNumber cs

/-- The data that a JSON text denotes. -/
def read (text : String) : Except Fault Value := do
  let (v, rest) ← readValue nestingRoom (skipSpace text.toList)
  if (skipSpace rest).isEmpty then return v else .error .invalidJson

end LoxTree.Json

import LoxTree.Value

/-!
# Writing JSON

Data as JSON text, either on one line or with every item and entry on a line of its own, indented by
its depth. Characters beyond ASCII stand for themselves; a backslash, a double quote and the
controls below the space are escaped. The numbers that are not finite are written as words.
-/

namespace LoxTree.Json

/-- Numbers in JSON are written as inside other data, with words of its own for those that are not
finite. -/
def numberLayout : Number.Layout :=
  { Value.inspectedNumber with nan := "NaN", infinity := "Infinity" }

/-- One character inside a JSON string. -/
def escapedChar (c : Char) : List Char :=
  if c = '"' then ['\\', '"']
  else if c = '\\' then ['\\', '\\']
  else if c = '\n' then ['\\', 'n']
  else if c = '\r' then ['\\', 'r']
  else if c = '\t' then ['\\', 't']
  else if c = Char.ofNat 0x0C then ['\\', 'f']
  else if c = Char.ofNat 0x08 then ['\\', 'b']
  else if c.toNat < 0x20 then '\\' :: 'u' :: Text.hexDigits 4 c.toNat
  else [c]

/-- A text as a JSON string. -/
def writeString (s : String) : String :=
  "\"" ++ String.ofList (s.toList.flatMap escapedChar) ++ "\""

/-- What stands before an item at a depth: a line end and blanks, or nothing on one line. -/
def lineStart (indent : Option Nat) (depth : Nat) : String :=
  match indent with
  | some width => "\n" ++ String.ofList (List.replicate (width * depth) ' ')
  | none => ""

/-- Items between brackets, each on a line of its own if there is an indentation. -/
def writeBlock (indent : Option Nat) (depth : Nat) (left right : String) (items : List String) :
    String :=
  if items.isEmpty then left ++ right
  else
    let separator := match indent with
      | some _ => "," ++ lineStart indent (depth + 1)
      | none => ", "
    left ++ lineStart indent (depth + 1) ++ separator.intercalate items ++ lineStart indent depth ++
      right

mutual

/-- Data at a depth as JSON. Nil has no JSON form of its own and is written as nothing is. -/
def writeAt (indent : Option Nat) (depth : Nat) : Value → String
  | .boolean b => if b then "true" else "false"
  | .number x => numberLayout.write x
  | .string s => writeString s
  | .nil => "null"
  | .absent => "null"
  | .integer n => toString n
  | .list items => writeBlock indent depth "[" "]" (writeItems indent (depth + 1) items)
  | .record entries =>
    writeBlock indent depth "\x7b" "\x7d" (writeEntries indent (depth + 1) entries)

/-- The items of a list, each as JSON. -/
def writeItems (indent : Option Nat) (depth : Nat) : List Value → List String
  | [] => []
  | v :: rest => writeAt indent depth v :: writeItems indent depth rest

/-- The entries of a record, each as JSON after its name. -/
def writeEntries (indent : Option Nat) (depth : Nat) : List (String × Value) → List String
  | [] => []
  | (name, v) :: rest =>
    (writeString name ++ ": " ++ writeAt indent depth v) :: writeEntries indent depth rest

end

/-- Data as JSON on one line. -/
def writeLine (v : Value) : String :=
  writeAt none 0 v

/-- Data as JSON with an indentation of two for each depth. -/
def writeIndented (v : Value) : String :=
  writeAt (some 2) 0 v

end LoxTree.Json

import LoxTree.Nesting
import LoxTree.Tree
import LoxTree.Value.Numeric

/-!
# Trees as data

A tree is written as data: a node becomes a record with its class under `type` and its fields under
their names, a token a record with the name of its kind under `__token__`, and a literal keeps its
value, except that nil and the numbers that are not finite become records of their own.
`Tree.toData` and `Tree.ofData` go there and back. Reading takes an absent field for nothing and
does not check what the fields hold; of a token it checks the kind only, so that any data may stand
for its text, its literal and its line (`TokenRecord`).

Programs have trees with tokens of the scanner, and only such trees are run. `Tree.encode` and
`Tree.decode` go there and back for these: decoding refuses a token whose text is not a text or
whose line is not an integer. No part of running looks at the literal of a token in a tree, so there
any data are taken.
-/

namespace LoxTree

/-! ### Literals -/

/-- A value as data: nil and the numbers that are not finite become records. -/
def Value.encode : Value → Value
  | .nil => .record [("__nil__", .boolean true)]
  | .number x =>
    let bits := Number.magnitude x
    if bits < Number.infinityBits then .number x
    else if Number.infinityBits < bits then .record [("__number__", .string "nan")]
    else .record [("__number__", .string (if Number.isNegative x then "-inf" else "inf"))]
  | v => v

/-- The value that data stand for. An integer stands for the number that it is. -/
def Value.decode : Value → Except Fault Value
  | .record entries =>
    if (entries.lookup "__nil__").any Value.isTruthy then .ok .nil
    else
      match entries.lookup "__number__" with
      | some v => v.toNumber
      | none => .error (.invalidLiteral (.record entries))
  | .integer n => Value.ofInteger n
  | v => .ok v

/-! ### Tokens -/

/-- A token with any data in it. -/
structure TokenRecord where
  kind : Kind
  lexeme : Value
  literal : Value
  line : Value
  deriving Repr, Inhabited

/-- A token as data. -/
def TokenRecord.toData (t : TokenRecord) : Value :=
  .record [("__token__", .string t.kind.name), ("lexeme", t.lexeme), ("literal", t.literal),
    ("line", t.line)]

/-- The kind that data name. -/
def Kind.decode : Value → Except Fault Kind
  | .string name =>
    match Kind.ofName? name with
    | some kind => .ok kind
    | none => .error .missingEntry
  | .list _ | .record _ => .error .wrongType
  | _ => .error .missingEntry

/-- The entry of a record with the given name. -/
def requireEntry (entries : List (String × Value)) (name : String) : Except Fault Value :=
  match entries.lookup name with
  | some v => .ok v
  | none => .error .missingEntry

/-- The token that a record stands for. Its kind is looked up, and nothing else is checked. -/
def TokenRecord.ofEntries (entries : List (String × Value)) : Except Fault TokenRecord := do
  let kind ← Kind.decode (← requireEntry entries "__token__")
  let lexeme ← requireEntry entries "lexeme"
  let line ← requireEntry entries "line"
  return ⟨kind, lexeme, (entries.lookup "literal").getD .absent, line⟩

/-- The text that data are. -/
def Value.text? : Value → Option String
  | .string s => some s
  | _ => none

/-- A token of the scanner with its data. -/
def Token.record (t : Token) : TokenRecord where
  kind := t.kind
  lexeme := .string t.lexeme
  literal := (t.literal.map Value.string).getD .absent
  line := .integer t.line

/-- The token whose text and line the data are; other data than a text are no literal. -/
def TokenRecord.token? (t : TokenRecord) : Option Token :=
  match t.lexeme, t.line with
  | .string lexeme, .integer line => some ⟨t.kind, lexeme, t.literal.text?, line⟩
  | _, _ => none

/-- The token that data stand for. -/
def Token.ofData : Value → Except Fault Token
  | .record entries => do
    match (← TokenRecord.ofEntries entries).token? with
    | some t => return t
    | none => throw .wrongType
  | _ => .error .wrongType

/-! ### Nodes -/

namespace Tree

/-- A tree as data, within the given room; a list takes two units of it, all else one. -/
def toData : Nat → Tree TokenRecord → Except Fault Value
  | room + 2, list items => return .list (← items.mapM (toData room))
  | 1, list _ => .error .tooDeep
  | _ + 1, missing => .ok .absent
  | _ + 1, token t => .ok t.toData
  | _ + 1, literal v => .ok (.record [("type", .string "Literal"), ("value", v.encode)])
  | room + 1, t => do
    let fields ← t.fields.mapM fun (name, part) => do return (name, ← toData room part)
    return .record (("type", .string t.className) :: fields)
  | 0, _ => .error .tooDeep

/-- The node of a class from its fields, which are asked for in their order; `none` if no node has
the class. -/
def ofFields? {τ : Type} (className : String) (field : String → Except Fault (Tree τ)) :
    Option (Except Fault (Tree τ)) :=
  match className with
  | "Grouping" => some do return grouping (← field "expression")
  | "Unary" => some do return unary (← field "operator") (← field "right")
  | "Binary" => some do return binary (← field "left") (← field "operator") (← field "right")
  | "Logical" => some do return logical (← field "left") (← field "operator") (← field "right")
  | "Variable" => some do return reference (← field "name")
  | "Assign" => some do return assign (← field "name") (← field "value")
  | "Call" => some do return call (← field "callee") (← field "paren") (← field "arguments")
  | "Get" => some do return getProperty (← field "object") (← field "name")
  | "Set" => some do return setProperty (← field "object") (← field "name") (← field "value")
  | "This" => some do return this (← field "keyword")
  | "Super" => some do return super (← field "keyword") (← field "method")
  | "Expression" => some do return expressionStmt (← field "expression")
  | "Print" => some do return printStmt (← field "expression")
  | "Var" => some do return varDecl (← field "name") (← field "initializer")
  | "Block" => some do return block (← field "statements")
  | "If" =>
    some do return ifStmt (← field "condition") (← field "then_branch") (← field "else_branch")
  | "While" => some do return whileStmt (← field "condition") (← field "body")
  | "Function" => some do return functionDecl (← field "name") (← field "params") (← field "body")
  | "Return" => some do return returnStmt (← field "keyword") (← field "value")
  | "Class" =>
    some do return classDecl (← field "name") (← field "superclass") (← field "methods")
  | _ => none

/-- The tree that data stand for, within the given room; a level takes two units of it. -/
def ofData : Nat → Value → Except Fault (Tree TokenRecord)
  | room + 2, v =>
    match v with
    | .absent => .ok missing
    | .list items => return list (← items.mapM (ofData room))
    | .record entries =>
      if (entries.lookup "__token__").isSome then return token (← TokenRecord.ofEntries entries)
      else
        match (entries.lookup "type").getD .absent with
        | .string "Literal" => do return literal (← (← requireEntry entries "value").decode)
        | .string className =>
          let field := fun name => ofData room ((entries.lookup name).getD .absent)
          match ofFields? className field with
          | some node => node
          | none => .error (.unknownNode (.string className))
        | .list _ | .record _ => .error .wrongType
        | other => .error (.unknownNode other)
    | _ => .error .notATree
  | _, _ => .error .tooDeep

/-- The tree with tokens of the scanner in the place of their records. -/
def ofRecords (t : Tree TokenRecord) : Except Fault Tree :=
  if t.tokens.all (·.token?.isSome) then .ok (t.map fun r => r.token?.getD default)
  else .error .wrongType

/-- A tree of a program as data, within the given room. -/
def encode (room : Nat) (t : Tree) : Except Fault Value :=
  (t.map Token.record).toData room

/-- The tree of a program that data stand for, within the given room. -/
def decode (room : Nat) (data : Value) : Except Fault Tree := do
  (← ofData room data).ofRecords

end Tree

/-- Data that stand where a tree should, as data: only nothing and lists of it have an encoding. -/
def Value.encodeBare : Nat → Value → Except Fault Value
  | room + 2, .list items => return .list (← items.mapM (encodeBare room))
  | 1, .list _ => .error .tooDeep
  | _ + 1, .absent => .ok .absent
  | _ + 1, .boolean _ => .error (.notEncodable "bool")
  | _ + 1, .number _ => .error (.notEncodable "float")
  | _ + 1, .string _ => .error (.notEncodable "str")
  | _ + 1, .nil => .error (.notEncodable "NilVal")
  | _ + 1, .integer _ => .error (.notEncodable "int")
  | _ + 1, .record _ => .error (.notEncodable "dict")
  | 0, _ => .error .tooDeep

end LoxTree

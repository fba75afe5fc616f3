import LoxTree.Diagnostic
import LoxTree.Value

/-!
# Faults

A fault is why an operation gives no result. A diagnostic about the program is one kind of fault;
the others are about what was handed to the operation: trees of a shape that it cannot work on, data
that are no tree, files that cannot be read, and nesting beyond the room that there is for it.
-/

namespace LoxTree

/-- A part of the full language that an operation does not support. -/
inductive Unsupported where
  /-- Data of this class have no rendering. -/
  | rendering (className : String)
  /-- Statements of this class are not executed. -/
  | statement (className : String)
  /-- Expressions of this class are not evaluated. -/
  | expression (className : String)
  /-- A literal holds data that are no value of the language. -/
  | literal (value : Value)
  | unaryOperator (lexeme : String)
  | binaryOperator (lexeme : String)
  deriving Repr

/-- The wording for an unsupported part. -/
def Unsupported.message : Unsupported → String
  | rendering className => "print_ast: unexpected node type <class '" ++ className ++ "'>"
  | statement className => "execute: unsupported statement " ++ className
  | expression className => "evaluate: unsupported expression " ++ className
  | literal value => "evaluate: literal without a Lox value: " ++ value.inspect
  | unaryOperator lexeme => "unknown unary operator " ++ lexeme
  | binaryOperator lexeme => "unknown binary operator " ++ lexeme

/-- Why an operation gives no result. -/
inductive Fault where
  /-- A complaint about the program. -/
  | diagnostic (d : Diagnostic)
  | unsupported (what : Unsupported)
  /-- A text that should denote a number does not. -/
  | invalidNumeral (text : String)
  /-- A record that should denote a literal does not. -/
  | invalidLiteral (value : Value)
  /-- A record has the type of no node. -/
  | unknownNode (type : Value)
  /-- Data that are neither a list nor a record stand where a tree should. -/
  | notATree
  /-- Data of this class have no encoding as a tree. -/
  | notEncodable (className : String)
  /-- Data are not of the type that they must have. -/
  | wrongType
  /-- A record lacks an entry. -/
  | missingEntry
  /-- A tree lacks the part that is looked at. -/
  | missingPart
  /-- An integer is beyond the largest number. -/
  | overflow
  /-- Data have no text as a decimal. -/
  | invalidDecimal
  /-- The room for nesting is used up. -/
  | tooDeep
  /-- A text is not JSON. -/
  | invalidJson
  /-- An integer in a text has this many digits, more than are read. -/
  | integerTooLong (digits : Nat)
  /-- Bytes are not UTF-8. -/
  | invalidUtf8
  | fileNotFound
  | isDirectory
  /-- A name is longer than a disk allows. -/
  | nameTooLong
  deriving Repr

/-- The wording of a fault, where it has one. -/
def Fault.message? : Fault → Option String
  | diagnostic d => some d.text
  | unsupported what => some what.message
  | invalidNumeral text => some ("could not convert string to float: " ++ Text.quoted text)
  | invalidLiteral value => some ("Invalid literal object: " ++ value.inspect)
  | unknownNode (.string name) => some ("Unknown AST node type: " ++ name)
  | unknownNode type => some ("Unknown AST node type: " ++ type.inspect)
  | notATree => some "Invalid AST object"
  | integerTooLong digits =>
    some ("Exceeds the limit (4300 digits) for integer string conversion: value has " ++
      toString digits ++ " digits; use sys.set_int_max_str_digits() to increase the limit")
  | notEncodable className => some ("Unsupported node for serialization: " ++ className)
  | _ => none

end LoxTree

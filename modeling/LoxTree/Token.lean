/-!
# Tokens

A token is a kind, the text it was scanned from, an optional literal (the text of a number or the
decoded contents of a string) and the line on which it starts. The kinds are those of the Lox
language; the blanks and the quote are kinds of their own because the scanner finds them in the same
table as the operators, but no token has one of them.
-/

namespace LoxTree

/-- The kinds of tokens. -/
inductive Kind where
  | leftParen | rightParen | leftBrace | rightBrace | comma | dot | minus | plus | colon | semicolon
  | slash | star
  | bang | bangEqual | equal | equalEqual | greater | greaterEqual | less | lessEqual
  | identifier | string | number
  | kwAnd | kwClass | kwElse | kwFalse | kwFun | kwFor | kwIf | kwNil | kwOr | kwPrint | kwReturn
  | kwSuper | kwThis | kwTrue | kwVar | kwWhile
  | space | tab | carriageReturn | newline | quote
  | eof
  deriving DecidableEq, Repr, Inhabited

namespace Kind

/-- The kinds in the order in which they are listed. -/
def all : List Kind :=
  [leftParen, rightParen, leftBrace, rightBrace, comma, dot, minus, plus, colon, semicolon, slash,
    star, bang, bangEqual, equal, equalEqual, greater, greaterEqual, less, lessEqual, identifier,
    string, number, kwAnd, kwClass, kwElse, kwFalse, kwFun, kwFor, kwIf, kwNil, kwOr, kwPrint,
    kwReturn, kwSuper, kwThis, kwTrue, kwVar, kwWhile, space, tab, carriageReturn, newline, quote,
    eof]

/-- The name by which a kind is written. -/
def name : Kind → String
  | leftParen => "LEFT_PAREN"
  | rightParen => "RIGHT_PAREN"
  | leftBrace => "LEFT_BRACE"
  | rightBrace => "RIGHT_BRACE"
  | comma => "COMMA"
  | dot => "DOT"
  | minus => "MINUS"
  | plus => "PLUS"
  | colon => "COLON"
  | semicolon => "SEMICOLON"
  | slash => "SLASH"
  | star => "STAR"
  | bang => "BANG"
  | bangEqual => "BANG_EQUAL"
  | equal => "EQUAL"
  | equalEqual => "EQUAL_EQUAL"
  | greater => "GREATER"
  | greaterEqual => "GREATER_EQUAL"
  | less => "LESS"
  | lessEqual => "LESS_EQUAL"
  | identifier => "IDENTIFIER"
  | string => "STRING"
  | number => "NUMBER"
  | kwAnd => "AND"
  | kwClass => "CLASS"
  | kwElse => "ELSE"
  | kwFalse => "FALSE"
  | kwFun => "FUN"
  | kwFor => "FOR"
  | kwIf => "IF"
  | kwNil => "NIL"
  | kwOr => "OR"
  | kwPrint => "PRINT"
  | kwReturn => "RETURN"
  | kwSuper => "SUPER"
  | kwThis => "THIS"
  | kwTrue => "TRUE"
  | kwVar => "VAR"
  | kwWhile => "WHILE"
  | space => "SPACE"
  | tab => "TAB"
  | carriageReturn => "CARRIAGE_RETURN"
  | newline => "NEWLINE"
  | quote => "QUOTE"
  | eof => "EOF"

/-- The text of an operator, blank or keyword; the other kinds have a word that describes them. -/
def spelling : Kind → String
  | leftParen => "("
  | rightParen => ")"
  | leftBrace => "\x7b"
  | rightBrace => "\x7d"
  | comma => ","
  | dot => "."
  | minus => "-"
  | plus => "+"
  | colon => ":"
  | semicolon => ";"
  | slash => "/"
  | star => "*"
  | bang => "!"
  | bangEqual => "!="
  | equal => "="
  | equalEqual => "=="
  | greater => ">"
  | greaterEqual => ">="
  | less => "<"
  | lessEqual => "<="
  | identifier => "identifier"
  | string => "string"
  | number => "number"
  | kwAnd => "and"
  | kwClass => "class"
  | kwElse => "else"
  | kwFalse => "false"
  | kwFun => "fun"
  | kwFor => "for"
  | kwIf => "if"
  | kwNil => "nil"
  | kwOr => "or"
  | kwPrint => "print"
  | kwReturn => "return"
  | kwSuper => "super"
  | kwThis => "this"
  | kwTrue => "true"
  | kwVar => "var"
  | kwWhile => "while"
  | space => " "
  | tab => "\t"
  | carriageReturn => "\r"
  | newline => "\n"
  | quote => "\""
  | eof => "eof"

/-- The kind with the given name. -/
def ofName? (s : String) : Option Kind :=
  all.find? fun kind => kind.name == s

/-- Every kind is listed. -/
theorem mem_all (kind : Kind) : kind ∈ all := by
  cases kind <;> decide

/-- The name of a kind determines it. -/
theorem ofName?_name (kind : Kind) : ofName? kind.name = some kind := by
  cases kind <;> decide

/-- The operators, punctuation and blanks in the order in which the scanner tries them: those of two
characters come first, so that the first one that fits is the longest. -/
def operators : List Kind :=
  [bangEqual, equalEqual, greaterEqual, lessEqual, leftParen, rightParen, leftBrace, rightBrace,
    comma, dot, minus, plus, colon, semicolon, slash, star, bang, equal, greater, less, space, tab,
    carriageReturn, newline, quote]

/-- The reserved words. -/
def keywords : List Kind :=
  [kwAnd, kwClass, kwElse, kwFalse, kwFor, kwFun, kwIf, kwNil, kwOr, kwPrint, kwReturn, kwSuper,
    kwThis, kwTrue, kwVar, kwWhile]

/-- The blanks that separate tokens on a line. -/
def ignored : List Kind :=
  [carriageReturn, space, tab]

/-- The words that start a statement of the full language; the parser resumes at them. -/
def statementStarts : List Kind :=
  [kwClass, kwFor, kwFun, kwIf, kwPrint, kwReturn, kwVar, kwWhile]

/-- The kind of a word: a keyword if it is reserved, an identifier otherwise. -/
def ofWord (word : String) : Kind :=
  (keywords.find? fun kind => kind.spelling == word).getD identifier

end Kind

/-- A token. -/
structure Token where
  kind : Kind
  lexeme : String
  literal : Option String
  line : Int
  deriving DecidableEq, Repr, Inhabited

/-- A token as one line of text: its kind, its lexeme and its literal if it has one. -/
def Token.text (t : Token) : String :=
  match t.literal with
  | none => t.kind.name ++ " " ++ t.lexeme
  | some literal => t.kind.name ++ " " ++ t.lexeme ++ " " ++ literal

/-- The token that ends a program. -/
def Token.eof (line : Int) : Token :=
  ⟨.eof, "", none, line⟩

end LoxTree

import LoxTree.Token.Segment
import LoxTree.Diagnostic

/-!
# Scanning

Scanning reads the tokens off the segments of a source text and counts lines on the way. A line feed
between tokens ends a line, and so does one in a string, raw or behind a backslash; a string over
several lines has the line of its opening quote. Characters with which no token starts and a string
without an end are recorded, and scanning goes on behind them. The tokens end with one end-of-file
token on the last line.
-/

namespace LoxTree

namespace Segment

/-- The lines that end while the text behind the quote of a string is read. A backslash takes the
character after it along. -/
def stringNewlines : List Char → Nat
  | [] => 0
  | '\\' :: c :: rest => (if c = '\n' then 1 else 0) + stringNewlines rest
  | c :: rest => (if c = '\n' then 1 else 0) + stringNewlines rest

/-- The number of lines that end in a segment. -/
def newlines : Segment → Nat
  | newline => 1
  | openString text | token .string text _ => stringNewlines text.tail
  | _ => 0

end Segment

/-- What scanning gives: the tokens, the complaints and the line reached. -/
structure Scan where
  tokens : List Token
  errors : List Diagnostic
  line : Nat
  deriving DecidableEq, Repr

namespace Scan

/-- The result for segments that start on the given line. -/
def ofSegments (line : Nat) : List Segment → Scan
  | [] => ⟨[Token.eof line], [], line⟩
  | s :: rest =>
    let after := ofSegments (line + s.newlines) rest
    match s with
    | .token kind lexeme literal =>
      let t : Token := ⟨kind, String.ofList lexeme, literal.map String.ofList, line⟩
      { after with tokens := t :: after.tokens }
    | .stray c => { after with errors := .lexical (.unexpectedCharacter c) line :: after.errors }
    | .openString _ => { after with errors := .lexical .unterminatedString line :: after.errors }
    | _ => after

/-- The result for a source text. -/
def ofSource (source : String) : Scan :=
  ofSegments 1 (segments source.toList)

/-- The tokens of a source text, or the first complaint if there is one. -/
def tokenize (source : String) : Except Diagnostic (List Token) :=
  let scan := ofSource source
  match scan.errors with
  | e :: _ => .error e
  | [] => .ok scan.tokens

end Scan

end LoxTree

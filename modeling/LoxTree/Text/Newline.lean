/-!
# Line ends

A text that is read from outside has its line ends brought to one form: a carriage return and line
feed together, and a carriage return alone, become a line feed.
-/

namespace LoxTree.Text

/-- Every line end becomes a line feed. -/
def unifyNewlinesList : List Char → List Char
  | [] => []
  | '\r' :: '\n' :: rest => '\n' :: unifyNewlinesList rest
  | c :: rest => (if c = '\r' then '\n' else c) :: unifyNewlinesList rest

/-- A text with every line end as a line feed. -/
def unifyNewlines (s : String) : String :=
  String.ofList (unifyNewlinesList s.toList)

/-- The text that a file's bytes spell, with its line ends unified; `none` if the bytes are not
UTF-8. -/
def ofBytes? (bytes : ByteArray) : Option String :=
  (String.fromUTF8? bytes).map unifyNewlines

end LoxTree.Text

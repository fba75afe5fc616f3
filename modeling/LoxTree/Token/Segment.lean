import LoxTree.Token
import LoxTree.Number.Numeral
import LoxTree.Text.Letter
import LoxTree.Text.NumberSign

/-!
# Segments of a source text

A source text falls into consecutive segments: tokens, blanks, line feeds, comments, characters with
which no token starts, and at most one string without an end. `Segment.next` takes the longest
segment at the front of a text, and `segments` repeats it to the end. `text_next` says that a
segment and what follows it make up the text again, so that nothing is lost or read twice
(`flatMap_text_segments`).
-/

namespace LoxTree

/-- Whether a word may start with a character: a letter or an underscore. -/
def isWordStart (c : Char) : Bool :=
  Text.isLetter c || c = '_'

/-- Whether a word may go on with a character: also digits and number signs of every script. -/
def isWordPart (c : Char) : Bool :=
  isWordStart c || Number.isDigit c || Text.isNumberSign c

/-- A piece of a source text. -/
inductive Segment where
  /-- A blank between tokens on a line. -/
  | blank (c : Char)
  /-- A line feed. -/
  | newline
  /-- Two slashes and everything up to the end of the line. -/
  | comment (text : List Char)
  /-- A character with which no token starts. -/
  | stray (c : Char)
  /-- A string that the end of the source cuts off. -/
  | openString (text : List Char)
  /-- A token with its text and its literal. -/
  | token (kind : Kind) (lexeme : List Char) (literal : Option (List Char))
  deriving DecidableEq, Repr

namespace Segment

/-- The piece of source that a segment stands for. -/
def text : Segment → List Char
  | blank c => [c]
  | newline => ['\n']
  | comment text => text
  | stray c => [c]
  | openString text => text
  | token _ lexeme _ => lexeme

/-! ### Strings -/

/-- The characters that may follow a backslash, with what they stand for. -/
def escapes : List (Char × Char) :=
  [('"', '"'), ('\\', '\\'), ('n', '\n'), ('r', '\r'), ('t', '\t')]

/-- What a backslash and the character after it stand for; without a meaning of its own the pair
stands for itself. -/
def unescape (c : Char) : List Char :=
  match escapes.lookup c with
  | some meaning => [meaning]
  | none => ['\\', c]

/-- Splits a text at the first quote that no backslash escapes. -/
def closeString? : List Char → Option (List Char × List Char)
  | [] => none
  | '"' :: rest => some ([], rest)
  | '\\' :: c :: rest => (closeString? rest).map fun (body, after) => ('\\' :: c :: body, after)
  | c :: rest => (closeString? rest).map fun (body, after) => (c :: body, after)

/-- The contents of a string from the text between its quotes. -/
def decodeString : List Char → List Char
  | [] => []
  | '\\' :: c :: rest => unescape c ++ decodeString rest
  | c :: rest => c :: decodeString rest

/-- The segment after an opening quote, and what follows it. -/
def nextString (rest : List Char) : Segment × List Char :=
  match closeString? rest with
  | some (body, after) => (token .string ('"' :: body ++ ['"']) (some (decodeString body)), after)
  | none => (openString ('"' :: rest), [])

/-! ### Words, numbers and operators -/

/-- The longest number at the front of a text that starts with a digit: digits, and a point with
more digits if a digit follows the point. -/
def splitNumber (cs : List Char) : List Char × List Char :=
  let whole := cs.takeWhile Number.isDigit
  match cs.dropWhile Number.isDigit with
  | '.' :: d :: rest =>
    if Number.isDigit d then
      (whole ++ '.' :: (d :: rest).takeWhile Number.isDigit, (d :: rest).dropWhile Number.isDigit)
    else (whole, '.' :: d :: rest)
  | rest => (whole, rest)

/-- What follows a lexeme at the front of a text, `none` if the text does not start with it. -/
def after? : List Char → List Char → Option (List Char)
  | [], cs => some cs
  | _ :: _, [] => none
  | a :: lexeme, c :: cs => if a = c then after? lexeme cs else none

/-- The longest operator at the front of a text, and what follows it. -/
def splitOperator? (cs : List Char) : Option (Kind × List Char) :=
  Kind.operators.findSome? fun kind =>
    (after? kind.spelling.toList cs).map fun rest => (kind, rest)

/-- The segment that an operator starts, and what follows it. -/
def nextOperator (kind : Kind) (rest : List Char) : Segment × List Char :=
  match kind, rest with
  | .space, _ => (blank ' ', rest)
  | .tab, _ => (blank '\t', rest)
  | .carriageReturn, _ => (blank '\r', rest)
  | .newline, _ => (newline, rest)
  | .quote, _ => nextString rest
  | .slash, '/' :: after =>
    (comment ('/' :: '/' :: after.takeWhile (· ≠ '\n')), after.dropWhile (· ≠ '\n'))
  | _, _ => (token kind kind.spelling.toList none, rest)

/-- The segment at the front of the text `c :: rest`, and what follows it. -/
def next (c : Char) (rest : List Char) : Segment × List Char :=
  if isWordStart c then
    let word := c :: rest.takeWhile isWordPart
    (token (Kind.ofWord (String.ofList word)) word none, rest.dropWhile isWordPart)
  else if Number.isDigit c then
    let (number, after) := splitNumber (c :: rest)
    (token .number number (some number), after)
  else
    match splitOperator? (c :: rest) with
    | some (kind, after) => nextOperator kind after
    | none => (stray c, rest)

/-! ### Nothing is lost -/

theorem closeString?_eq {cs body after : List Char} (h : closeString? cs = some (body, after)) :
    cs = body ++ '"' :: after := by
  fun_induction closeString? cs generalizing body with
  | case1 => simp at h
  | case2 => simp_all
  | case3 c rest ih =>
    obtain ⟨⟨b, a⟩, hb, heq⟩ := Option.map_eq_some_iff.1 h
    simp only [Prod.mk.injEq] at heq
    obtain ⟨rfl, rfl⟩ := heq
    simp [ih hb]
  | case4 c rest _ _ ih =>
    obtain ⟨⟨b, a⟩, hb, heq⟩ := Option.map_eq_some_iff.1 h
    simp only [Prod.mk.injEq] at heq
    obtain ⟨rfl, rfl⟩ := heq
    simp [ih hb]

theorem text_nextString (rest : List Char) :
    (nextString rest).1.text ++ (nextString rest).2 = '"' :: rest := by
  unfold nextString
  split
  · next heq => simp [text, closeString?_eq heq]
  · simp [text]

theorem splitNumber_append (cs : List Char) : (splitNumber cs).1 ++ (splitNumber cs).2 = cs := by
  have h := List.takeWhile_append_dropWhile (p := Number.isDigit) (l := cs)
  unfold splitNumber
  split
  · next d rest heq =>
    rw [heq] at h
    split
    · simp only [List.append_assoc, List.cons_append, List.takeWhile_append_dropWhile]
      exact h
    · exact h
  · exact h

theorem after?_eq_some_iff {lexeme cs rest : List Char} :
    after? lexeme cs = some rest ↔ cs = lexeme ++ rest := by
  fun_induction after? lexeme cs with
  | case1 cs => simp [eq_comm]
  | case2 => simp
  | case3 lexeme c cs ih => simp [ih]
  | case4 a lexeme c cs h => simp [Ne.symm h]

theorem splitOperator?_eq {cs rest : List Char} {kind : Kind}
    (h : splitOperator? cs = some (kind, rest)) : cs = kind.spelling.toList ++ rest := by
  obtain ⟨k, -, hk⟩ := List.exists_of_findSome?_eq_some h
  obtain ⟨r, hr, heq⟩ := Option.map_eq_some_iff.1 hk
  simp only [Prod.mk.injEq] at heq
  obtain ⟨rfl, rfl⟩ := heq
  exact after?_eq_some_iff.1 hr

theorem text_nextOperator (kind : Kind) (rest : List Char) :
    (nextOperator kind rest).1.text ++ (nextOperator kind rest).2 =
      kind.spelling.toList ++ rest := by
  unfold nextOperator
  split
  · rfl
  · rfl
  · rfl
  · rfl
  · exact text_nextString rest
  · simp [text, Kind.spelling]
  · rfl

/-- A segment and what follows it make up the text. -/
theorem text_next (c : Char) (rest : List Char) :
    (next c rest).1.text ++ (next c rest).2 = c :: rest := by
  unfold next
  split
  · simp [text]
  · split
    · exact splitNumber_append (c :: rest)
    · split
      · next kind after heq => rw [text_nextOperator, ← splitOperator?_eq heq]
      · rfl

/-- The text of an operator is not empty. -/
theorem spelling_ne_nil (kind : Kind) : kind.spelling.toList ≠ [] := by
  cases kind <;> decide

theorem text_nextOperator_ne_nil (kind : Kind) (rest : List Char) :
    (nextOperator kind rest).1.text ≠ [] := by
  unfold nextOperator
  split
  · simp [text]
  · simp [text]
  · simp [text]
  · simp [text]
  · unfold nextString; split <;> simp [text]
  · simp [text]
  · exact spelling_ne_nil kind

/-- A number that starts with a digit is not empty. -/
theorem splitNumber_ne_nil {c : Char} (h : Number.isDigit c = true) (rest : List Char) :
    (splitNumber (c :: rest)).1 ≠ [] := by
  unfold splitNumber
  split
  · split <;> simp [h]
  · simp [h]

/-- No segment is empty. -/
theorem text_next_ne_nil (c : Char) (rest : List Char) : (next c rest).1.text ≠ [] := by
  unfold next
  split
  · simp [text]
  · split
    · next h => exact splitNumber_ne_nil h rest
    · split
      · exact text_nextOperator_ne_nil _ _
      · simp [text]

/-- What follows a segment is shorter than the text. -/
theorem length_next_lt (c : Char) (rest : List Char) :
    (next c rest).2.length < (c :: rest).length := by
  have h := congrArg List.length (text_next c rest)
  have hpos := List.length_pos_iff.2 (text_next_ne_nil c rest)
  rw [List.length_append] at h
  omega

end Segment

/-- The segments of a source text. -/
def segments : List Char → List Segment
  | [] => []
  | c :: rest => (Segment.next c rest).1 :: segments (Segment.next c rest).2
termination_by cs => cs.length
decreasing_by exact Segment.length_next_lt c rest

/-- The segments make up the source text. -/
theorem flatMap_text_segments (cs : List Char) : (segments cs).flatMap Segment.text = cs := by
  fun_induction segments cs with
  | case1 => rfl
  | case2 c rest ih => rw [List.flatMap_cons, ih, Segment.text_next]

end LoxTree

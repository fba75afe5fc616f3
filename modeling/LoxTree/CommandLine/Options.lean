import LoxTree.Text.DecimalDigit

/-!
# Command line options

The arguments of a command are options and at most one program. The options are a flag for more
tracing, a request for help, and three modes that take a file and exclude each other. A long option
may be cut short as long as it stays unambiguous, its file may follow a sign of equality, flags may
be grouped, and two dashes end the options. `Options.parse` reads arguments from left to right.
-/

namespace LoxTree

/-- What a command does with a file. -/
inductive Mode where
  | emitTree | runTree | printTree
  deriving DecidableEq, Repr

/-- An option. -/
inductive Switch where
  | help
  | verbose
  | mode (m : Mode)
  deriving DecidableEq, Repr

/-- The settings that arguments make. -/
structure Options where
  /-- How often more tracing was asked for. -/
  verbosity : Nat := 0
  /-- The modes with their files, a later one over an earlier one of the same mode. -/
  modes : List (Mode × String) := []
  /-- The program. -/
  program : Option String := none
  deriving DecidableEq, Repr

/-- What a command is asked to do, with the file that it works on. -/
inductive Task where
  | emitTree (file : String)
  | printTree (file : String)
  | runTree (file : String)
  | runProgram (file : String)
  | shell
  deriving DecidableEq, Repr

/-- Why arguments make no settings. -/
inductive Refusal where
  /-- Help was asked for. -/
  | help
  /-- The arguments are wrong. -/
  | usage
  deriving DecidableEq, Repr

/-- An argument by its form. -/
inductive Argument where
  /-- No option. -/
  | word (s : String)
  /-- An option, with the text that is joined to it. -/
  | switch (s : Switch) (joined : Option String)
  /-- A group of flags in one argument. -/
  | flags (fs : List Switch)
  /-- A flag with something joined to it that is no group of flags. -/
  | malformed
  /-- An option that there is not. -/
  | unknown
  /-- The end of the options. -/
  | dashes
  deriving DecidableEq, Repr

namespace Options

/-- The long options. -/
def longSwitches : List (String × Switch) :=
  [("--help", .help), ("--emit-ast", .mode .emitTree), ("--ast", .mode .runTree),
    ("--print-ast", .mode .printTree)]

/-- The flags. -/
def shortSwitch? : Char → Option Switch
  | 'h' => some .help
  | 'v' => some .verbose
  | _ => none

/-- Splits a text at its first sign of equality. -/
def splitEquals (s : String) : String × Option String :=
  let cs := s.toList
  match cs.dropWhile (· ≠ '=') with
  | _ :: rest => (String.ofList (cs.takeWhile (· ≠ '=')), some (String.ofList rest))
  | [] => (s, none)

/-- Whether a text consists of digits with at most one point, behind which there is a digit. -/
def isUnsignedNumber (cs : List Char) : Bool :=
  let isDigit := fun c => (Text.decimalDigit? c).isSome
  match cs.dropWhile isDigit with
  | [] => !cs.isEmpty
  | '.' :: fraction => !fraction.isEmpty && fraction.all isDigit
  | _ => false

/-- A text without the line feed that ends it, if one does. -/
def dropLineEnd (cs : List Char) : List Char :=
  if cs.getLast? = some '\n' then cs.dropLast else cs

/-- Whether a text is a dash followed by a number, which is no option. A line feed may end it. -/
def isNegativeNumber : List Char → Bool
  | '-' :: cs => isUnsignedNumber (dropLineEnd cs)
  | _ => false

/-- An argument that starts like an option but is none of them: a word if it is a number or has a
space in it. -/
def unknownOrWord (s : String) : Argument :=
  if isNegativeNumber s.toList || s.toList.contains ' ' then .word s else .unknown

/-- An argument that starts with two dashes. -/
def classifyLong (s : String) : Except Refusal Argument :=
  let (name, joined) := splitEquals s
  match longSwitches.lookup name with
  | some switch => .ok (.switch switch joined)
  | none =>
    match longSwitches.filter fun (long, _) => name.toList.isPrefixOf long.toList with
    | [] => .ok (unknownOrWord s)
    | [(_, switch)] => .ok (.switch switch joined)
    | _ => .error .usage

/-- The flags that are joined to a flag, with or without a sign of equality between, `none` if
something else is. -/
def joinedFlags? : List Char → Option (List Switch)
  | ['='] => none
  | '=' :: flags => flags.mapM shortSwitch?
  | flags => flags.mapM shortSwitch?

/-- An argument that starts with one dash, from the character after it. -/
def classifyShort (s : String) (c : Char) (rest : List Char) : Argument :=
  match shortSwitch? c with
  | none => unknownOrWord s
  | some first =>
    match joinedFlags? rest with
    | some more => .flags (first :: more)
    | none => .malformed

/-- An argument by its form. -/
def classify (s : String) : Except Refusal Argument :=
  match s.toList with
  | '-' :: '-' :: _ => classifyLong s
  | ['-'] => .ok (.word s)
  | '-' :: c :: rest => .ok (classifyShort s c rest)
  | _ => .ok (.word s)

/-- The arguments by their form; behind two dashes all are words. -/
def classifyAll : List String → Except Refusal (List Argument)
  | [] => .ok []
  | s :: rest =>
    if s = "--" then .ok (.dashes :: rest.map .word)
    else do return (← classify s) :: (← classifyAll rest)

/-- The file that is joined to a mode; two dashes stand for none. -/
def joinedFile (file : String) : String :=
  if file = "--" then "" else file

/-- The settings with a mode more; another mode excludes it. -/
def addMode (o : Options) (m : Mode) (file : String) : Except Refusal Options :=
  if o.modes.any fun (other, _) => other ≠ m then .error .usage
  else .ok { o with modes := [(m, file)] }

/-- The settings with flags more. -/
def addFlags (o : Options) : List Switch → Except Refusal Options
  | [] => .ok o
  | .help :: _ => .error .help
  | .verbose :: rest => addFlags { o with verbosity := o.verbosity + 1 } rest
  | .mode _ :: _ => .error .usage

/-- Reads arguments from left to right. `free` says whether the program may still come, and `extra`
whether there was an argument that has no use. -/
def read (o : Options) (free extra : Bool) : List Argument → Except Refusal Options
  | [] => if extra then .error .usage else .ok o
  | .word s :: .dashes :: rest =>
    if free then
      if extra || !rest.isEmpty then .error .usage else .ok { o with program := some s }
    else .error .usage
  | .word s :: rest =>
    if free then read { o with program := some s } false extra rest else read o free true rest
  | .dashes :: rest =>
    if free then
      match rest with
      | [] => if extra then .error .usage else .ok o
      | [.word s] => if extra then .error .usage else .ok { o with program := some s }
      | _ => .error .usage
    else .error .usage
  | .unknown :: rest => read o free true rest
  | .flags fs :: rest => do read (← o.addFlags fs) free extra rest
  | .malformed :: _ => .error .usage
  | .switch (.mode m) (some file) :: rest => do
    read (← o.addMode m (joinedFile file)) free extra rest
  | .switch (.mode m) none :: .word file :: rest => do read (← o.addMode m file) free extra rest
  | .switch (.mode _) none :: _ => .error .usage
  | .switch .help none :: _ => .error .help
  | .switch .verbose none :: rest =>
    read { o with verbosity := o.verbosity + 1 } free extra rest
  | .switch _ (some _) :: _ => .error .usage

/-- The settings that arguments make. -/
def parse (args : List String) : Except Refusal Options := do
  read {} true false (← classifyAll args)

/-- The file of a mode, if one that is not empty was given. -/
def file? (o : Options) (m : Mode) : Option String :=
  (o.modes.lookup m).filter fun file => !file.isEmpty

/-- The task that the settings ask for. A mode goes before the program, and without either the shell
is started. -/
def task (o : Options) : Task :=
  match o.file? .emitTree, o.file? .printTree, o.file? .runTree with
  | some file, _, _ => .emitTree file
  | none, some file, _ => .printTree file
  | none, none, some file => .runTree file
  | none, none, none =>
    match o.program with
    | some file => if file.isEmpty then .shell else .runProgram file
    | none => .shell

end Options

end LoxTree

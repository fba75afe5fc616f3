import LoxTree.Fault
import LoxTree.Scope

/-!
# Sessions

A session is what lasts from one program to the next: the scopes, the level of tracing, what was
written to the output, to the trace and to the error stream, and the complaints. The trace is open
from the start if the level is positive then; a session whose trace is not open traces to the error
stream.
-/

namespace LoxTree

/-- The state of a session. -/
structure Session where
  scopes : Forest := Forest.global
  /-- How much is traced: nothing at zero or below, statements and values at two and three. -/
  level : Int := 0
  /-- Whether traces go to the trace. -/
  traceOpen : Bool := false
  /-- What was printed and reported. -/
  output : String := ""
  /-- What was traced while the trace was open. -/
  trace : String := ""
  /-- What was traced while it was not. -/
  stderr : String := ""
  /-- The complaints that kept the last program from running. -/
  staticErrors : List Diagnostic := []
  /-- The complaints of all runs. -/
  runtimeErrors : List Diagnostic := []
  deriving Inhabited

/-- The number of the scope of the global variables. -/
def globalScope : Nat := 0

namespace Session

/-- A session at the start. -/
def start (level : Int) : Session where
  level := level
  traceOpen := 0 < level

/-- The session with a line more in the output. -/
def say (s : Session) (line : String) : Session :=
  { s with output := s.output ++ line ++ "\n" }

/-- The session with a line more in the trace, if it traces. -/
def note (s : Session) (line : String) : Session :=
  if 0 < s.level then
    if s.traceOpen then { s with trace := s.trace ++ line ++ "\n" }
    else { s with stderr := s.stderr ++ line ++ "\n" }
  else s

/-- The session with its trace closed. -/
def close (s : Session) : Session :=
  { s with traceOpen := false }

/-- Whether the last program had complaints that kept it from running. -/
def hadError (s : Session) : Bool :=
  !s.staticErrors.isEmpty

/-- Whether a run had complaints. -/
def hadRuntimeError (s : Session) : Bool :=
  !s.runtimeErrors.isEmpty

/-- The global variables in the order of their names. -/
def globals (s : Session) : List (String × Value) :=
  s.scopes.listing.headD []

end Session

/-- A step of a session, which may fail; what was done before a failure stays done. -/
abbrev Run := EStateM Fault Session

end LoxTree

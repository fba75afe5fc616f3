/-!
# Room for nesting

Reading, printing, encoding and evaluating nested trees takes room for each level of nesting, and
there is a fixed room for it. A recursive operation takes the room that is left as its first
argument, hands less of it to the next level, and gives up when it has none; so every such operation
ends, and deep nesting is a fault like any other.
-/

namespace LoxTree

/-- The room for nesting at the start of an operation. -/
def nestingRoom : Nat :=
  960

end LoxTree

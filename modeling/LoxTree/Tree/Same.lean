import LoxTree.Tree.Encode

/-!
# Sameness of trees

Two trees are the same if they have the same class and the same parts; tokens are compared with
their lines, and literals as data, so that a truth value is the same as the number one or zero and
NaN is not the same as itself. So are the data in the record of a token. Parts are compared in their
order, and the first difference decides. A list takes one unit of room, a node three.
-/

namespace LoxTree

instance : BEq TokenRecord where
  beq t u := t.kind == u.kind && t.lexeme.sameData u.lexeme && t.literal.sameData u.literal &&
    t.line.sameData u.line

namespace Tree

variable {τ : Type}

/-- Whether two lists of trees agree item by item; the first difference decides. -/
def sameAll (sameTree : Tree τ → Tree τ → Except Fault Bool) :
    List (Tree τ) → List (Tree τ) → Except Fault Bool
  | [], [] => .ok true
  | t :: rest, u :: others => do
    if ← sameTree t u then sameAll sameTree rest others else return false
  | _, _ => .ok false

/-- Whether two trees are the same, within the given room. -/
def same [BEq τ] : Nat → Tree τ → Tree τ → Except Fault Bool
  | _, missing, missing => .ok true
  | _, token a, token b => .ok (a == b)
  | _, literal v, literal w => .ok (v.sameData w)
  | room + 1, list items, list others =>
    if items.length = others.length then sameAll (same room) items others else .ok false
  | room + 3, t, u =>
    if t.className = u.className then sameAll (same room) t.parts u.parts else .ok false
  | _, t, u => if t.className = u.className then .error .tooDeep else .ok false

end Tree

end LoxTree

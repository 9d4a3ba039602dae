import RuleBase.Connective

/-!
# Alternatives

What a condition admits is written as alternatives, each a conjunction of items. A group collects
the alternatives of its children under one connective: a disjunction keeps all of them, a
conjunction makes every choice of one for each child.

* `both`, `combine`: the alternatives of a pair and of a list of children;
* `count`: how many there are, found without making them;
* `Group`, `Group.push`, `Group.combined`, `Group.count`.
-/

namespace RuleBase.Condition

/-- Items that hold together. -/
abbrev Conjunction (α : Type) : Type := List α

/-- Conjunctions of which one holds. -/
abbrev Alternatives (α : Type) : Type := List (Conjunction α)

variable {α : Type}

/-- Every choice of one conjunction on either side; the choice on the right varies fastest. -/
def both (left right : Alternatives α) : Alternatives α :=
  left.flatMap fun l => right.map (l ++ ·)

/-- The alternatives of a connective over its children. Without children nothing is asked for, so
the empty conjunction is the one alternative. -/
def combine : Connective → List (Alternatives α) → Alternatives α
  | _, [] => [[]]
  | .and, children => children.foldl both [[]]
  | .or, children => children.flatten

/-- Counts go no further. -/
def countCeiling : Nat := 18446744073709551615

/-- How many alternatives a connective has over its children, up to the ceiling. -/
def count : Connective → List (Alternatives α) → Nat
  | _, [] => 1
  | .and, children => children.foldl (fun n child => min (n * child.length) countCeiling) 1
  | .or, children => children.foldl (fun n child => min (n + child.length) countCeiling) 0

@[simp]
theorem length_both (left right : Alternatives α) :
    (both left right).length = left.length * right.length := by
  induction left with
  | nil => simp [both]
  | cons l left ih =>
    simp only [both, List.flatMap_cons, List.length_append, List.length_map, List.length_cons] at *
    rw [ih, Nat.add_mul, Nat.one_mul, Nat.add_comm]

/-- Children under one connective, the first one first. -/
structure Group (α : Type) where
  connective : Connective
  children : List (Alternatives α) := []

namespace Group

/-- The group with one more child. -/
def push (g : Group α) (child : Alternatives α) : Group α :=
  { g with children := g.children ++ [child] }

/-- The alternatives of a group. -/
def combined (g : Group α) : Alternatives α := combine g.connective g.children

/-- How many alternatives a group has, up to the ceiling. -/
def count (g : Group α) : Nat := Condition.count g.connective g.children

@[simp]
theorem children_push (g : Group α) (child : Alternatives α) :
    (g.push child).children = g.children ++ [child] := rfl

@[simp]
theorem connective_push (g : Group α) (child : Alternatives α) :
    (g.push child).connective = g.connective := rfl

end Group

end RuleBase.Condition

import RuleBase.Graph.Basic

/-!
# Trees of components

A component with everything below it, children in their order.

* `Graph.Tree`, `Graph.Tree.component`;
* `Graph.tree?`: the tree below a component.
-/

namespace RuleBase.Graph

/-- A component and the trees of its children. -/
inductive Tree where
  | node (component : Component) (children : List Tree)

/-- The component at the top of a tree. -/
def Tree.component : Tree → Component
  | .node component _ => component

/-- The trees of the children of a tree. -/
def Tree.children : Tree → List Tree
  | .node _ children => children

/-- The tree of a component, down to some depth below it. -/
def treeWithin (g : Graph) : Nat → Component → Tree
  | 0, c => .node c []
  | depth + 1, c => .node c ((g.children c.id).map (g.treeWithin depth))

/-- The tree of the component with the given number. Without a cycle of parents no component lies
deeper than there are components. -/
def tree? (g : Graph) (id : ComponentId) : Option Tree := (g.get? id).map (g.treeWithin g.size)

@[simp]
theorem component_treeWithin (g : Graph) (depth : Nat) (c : Component) :
    (g.treeWithin depth c).component = c := by
  cases depth <;> rfl

end RuleBase.Graph

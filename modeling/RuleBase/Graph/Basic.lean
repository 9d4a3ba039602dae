import RuleBase.Graph.Component
import RuleBase.Graph.Table

/-!
# Graphs of components

A graph holds components in the order in which they came about, so that the `i`-th one has the
number `i`, and the possibilities of its patterns and rules. Two tables lead to components: one
from a parent to its children, one from a key to the component that is found by it. Of packages,
classes and fields that is the oldest one, of the variables of a rule the youngest one of a name.

From a checkpoint on, a graph keeps a journal of what it was: how long its lists were, and the kind
of each older component that has changed. A graph that is rolled back drops its younger components
one by one, each with its entries in the tables.

* `Graph`, `Graph.add`, `Graph.modify`, `Graph.addPatternPossibilities`,
  `Graph.addRulePossibilities`;
* `Graph.checkpoint`, `Graph.commit`, `Graph.rollback`;
* `Graph.get?`, `Graph.children`, `Graph.roots`;
* `Graph.findPackage?`, `Graph.findClass?`, `Graph.findField?`, `Graph.findVar?`,
  `Graph.findRules`;
* `Graph.patternPossibility?`, `Graph.patternPossibilitiesOf`, `Graph.rulePossibilitiesOf`.
-/

namespace RuleBase

namespace Graph

/-- Restrictions of a pattern that can hold together. -/
structure PatternPossibility where
  id : PossibilityId
  rule : ComponentId
  pattern : ComponentId
  restrictions : List ComponentId
  deriving DecidableEq

/-- Possibilities of the patterns of a rule that can hold together. -/
structure RulePossibility where
  id : PossibilityId
  rule : ComponentId
  patterns : List PossibilityId
  deriving DecidableEq

/-- What a graph was at a checkpoint: the lengths of its lists, and the kinds of those of its
components that have changed since. -/
structure Journal where
  components : Nat
  patternPossibilities : Nat
  rulePossibilities : Nat
  issued : Nat
  overwritten : Table ComponentId Kind := .empty
  deriving DecidableEq

/-- The journal with the kind of a component that is about to change. Only the first kind of a
component that was there at the checkpoint counts. -/
def Journal.record (j : Journal) (id : ComponentId) (kind : Kind) : Journal :=
  if id ≤ j.components then
    { j with overwritten := j.overwritten.alter id fun old => old.or (some kind) }
  else j

end Graph

open RuleBase.Graph

/-- A graph of components with its possibilities, the oldest ones first. -/
structure Graph where
  components : List Component := []
  patternPossibilities : List PatternPossibility := []
  rulePossibilities : List RulePossibility := []
  /-- How many possibilities have been numbered. -/
  issued : Nat := 0
  /-- The children of each component, and of none, that has some. -/
  childTable : Table (Option ComponentId) (List ComponentId) := .empty
  /-- The component that is found by a key. -/
  keyTable : Table Key ComponentId := .empty
  journal? : Option Journal := none
  deriving DecidableEq

namespace Graph

/-! ## Looking up -/

/-- How many components there are. -/
def size (g : Graph) : Nat := g.components.length

/-- The component with the given number. -/
def get? (g : Graph) : ComponentId → Option Component
  | 0 => none
  | n + 1 => g.components[n]?

/-- The numbers of the components with the given parent, the oldest first. -/
def childIds (g : Graph) (parent : Option ComponentId) : List ComponentId :=
  (g.childTable.find? parent).getD []

/-- The components with the given parent, the oldest first. -/
def childrenOf (g : Graph) (parent : Option ComponentId) : List Component :=
  (g.childIds parent).filterMap g.get?

/-- The children of a component. -/
def children (g : Graph) (id : ComponentId) : List Component := g.childrenOf (some id)

/-- The components without a parent. -/
def roots (g : Graph) : List Component := g.childrenOf none

/-- The components of one kind with what they hold. -/
def ofKind {α : Type} (g : Graph) (project? : Kind → Option α) : List (ComponentId × α) :=
  g.components.filterMap fun c => (project? c.kind).map (c.id, ·)

/-- What the component with the given number holds if it is of one kind. -/
def ofKind? {α : Type} (g : Graph) (project? : Kind → Option α) (id : ComponentId) : Option α :=
  (g.get? id).bind (project? ·.kind)

/-- The package with the given name. -/
def findPackage? (g : Graph) (name : String) : Option ComponentId :=
  g.keyTable.find? (.package name)

/-- The class with the given name. -/
def findClass? (g : Graph) (name : String) : Option ComponentId :=
  g.keyTable.find? (.factClass name)

/-- The field of a class with the given name. -/
def findField? (g : Graph) (factClass : ComponentId) (name : String) : Option ComponentId :=
  g.keyTable.find? (.field factClass name)

/-- The field with the given name of the class with the given name. -/
def findFieldByNames? (g : Graph) (className name : String) : Option ComponentId :=
  (g.findClass? className).bind (g.findField? · name)

/-- The latest variable of a rule with the given name. -/
def findVar? (g : Graph) (rule : ComponentId) (name : String) : Option ComponentId :=
  g.keyTable.find? (.var rule name)

/-- The rules with the given name. -/
def findRules (g : Graph) (name : String) : List ComponentId :=
  ((g.ofKind Kind.rule?).filter (·.2.name == name)).map (·.1)

/-- The patterns of a rule, those inside sources too. -/
def patternsOfRule (g : Graph) (rule : ComponentId) : List ComponentId :=
  ((g.ofKind Kind.pattern?).filter (·.2.rule == rule)).map (·.1)

/-- The pattern possibility with the given number. -/
def patternPossibility? (g : Graph) (id : PossibilityId) : Option PatternPossibility :=
  g.patternPossibilities.find? (·.id == id)

/-- The possibilities of a pattern. -/
def patternPossibilitiesOf (g : Graph) (pattern : ComponentId) : List PatternPossibility :=
  g.patternPossibilities.filter (·.pattern == pattern)

/-- The possibilities of a rule. -/
def rulePossibilitiesOf (g : Graph) (rule : ComponentId) : List RulePossibility :=
  g.rulePossibilities.filter (·.rule == rule)

/-! ## Extending -/

/-- The number that the next component gets. -/
def nextId (g : Graph) : ComponentId := g.components.length + 1

/-- The component that comes about next, under the given parent. -/
def newComponent (g : Graph) (parent : Option ComponentId) (kind : Kind) : Component :=
  ⟨g.nextId, parent, (g.childIds parent).length, kind⟩

/-- The children of a component with one more child. -/
def withChild (id : ComponentId) (ids : Option (List ComponentId)) : Option (List ComponentId) :=
  some (ids.getD [] ++ [id])

/-- The component that is found by a key once there is one more component with that key. -/
def foundWith (key : Key) (id : ComponentId) (found : Option ComponentId) : Option ComponentId :=
  if key.isShadowing then some id else found.or (some id)

/-- The graph with one more component, whose number is `g.nextId`. -/
def add (g : Graph) (parent : Option ComponentId) (kind : Kind) : Graph :=
  { g with
    components := g.components ++ [g.newComponent parent kind]
    childTable := g.childTable.alter parent (withChild g.nextId)
    keyTable :=
      match kind.key? with
      | some key => g.keyTable.alter key (foundWith key g.nextId)
      | none => g.keyTable }

/-- Components with the kind of one of them changed. -/
def changeKind (id : ComponentId) (change : Kind → Kind) (components : List Component) :
    List Component :=
  match id with
  | 0 => components
  | n + 1 => components.modify n fun c => { c with kind := change c.kind }

/-- The graph with the kind of one component changed. -/
def modify (g : Graph) (id : ComponentId) (change : Kind → Kind) : Graph :=
  match g.get? id with
  | none => g
  | some c =>
    { g with
      components := changeKind id change g.components
      journal? := g.journal?.map (·.record id c.kind) }

/-- Consecutive numbers for the items of a list. -/
def number {α : Type} (start : Nat) (items : List α) : List (PossibilityId × α) :=
  (List.range' (start + 1) items.length).zip items

/-- The graph with further possibilities of a pattern. -/
def addPatternPossibilities (g : Graph) (rule pattern : ComponentId)
    (possibilities : List (List ComponentId)) : Graph :=
  { g with
    patternPossibilities := g.patternPossibilities ++
      (number g.issued possibilities).map fun (id, restrictions) =>
        ⟨id, rule, pattern, restrictions⟩
    issued := g.issued + possibilities.length }

/-- The graph with further possibilities of a rule. -/
def addRulePossibilities (g : Graph) (rule : ComponentId)
    (possibilities : List (List PossibilityId)) : Graph :=
  { g with
    rulePossibilities := g.rulePossibilities ++
      (number g.issued possibilities).map fun (id, patterns) => ⟨id, rule, patterns⟩
    issued := g.issued + possibilities.length }

/-- The numbers of the possibilities that a graph will get next. -/
def nextPossibilities (g : Graph) (count : Nat) : List PossibilityId :=
  List.range' (g.issued + 1) count

/-! ## Going back -/

/-- The graph with a journal of what it is now. -/
def checkpoint (g : Graph) : Graph :=
  { g with
    journal? := some
      { components := g.components.length
        patternPossibilities := g.patternPossibilities.length
        rulePossibilities := g.rulePossibilities.length
        issued := g.issued } }

/-- The graph that stays as it is. -/
def commit (g : Graph) : Graph := { g with journal? := none }

/-- Components with their kinds put back, the one that was overwritten last first. -/
def restore (overwritten : List (ComponentId × Kind)) (components : List Component) :
    List Component :=
  overwritten.foldr (fun (id, kind) => changeKind id fun _ => kind) components

/-- The children of a component without the youngest one. -/
def withoutChild (ids : Option (List ComponentId)) : Option (List ComponentId) :=
  (ids.map List.dropLast).filter (!·.isEmpty)

/-- The component that is found by a key once a component with that key is gone. Nothing takes the
place of a component that was found. -/
def foundWithout (id : ComponentId) (found : Option ComponentId) : Option ComponentId :=
  found.filter (· != id)

/-- The graph without its youngest component. -/
def dropYoungest (g : Graph) : Graph :=
  match g.components.getLast? with
  | none => g
  | some c =>
    { g with
      components := g.components.dropLast
      childTable := g.childTable.alter c.parent withoutChild
      keyTable :=
        match c.kind.key? with
        | some key => g.keyTable.alter key (foundWithout c.id)
        | none => g.keyTable }

/-- The graph without its youngest components. -/
def dropManyYoungest : Nat → Graph → Graph
  | 0, g => g
  | n + 1, g => dropManyYoungest n g.dropYoungest

/-- The graph as it was at its checkpoint. -/
def rollback (g : Graph) : Graph :=
  match g.journal? with
  | none => g
  | some j =>
    let restored :=
      { g with components := restore j.overwritten.entries g.components, journal? := none }
    { dropManyYoungest (g.components.length - j.components) restored with
      patternPossibilities := g.patternPossibilities.take j.patternPossibilities
      rulePossibilities := g.rulePossibilities.take j.rulePossibilities
      issued := j.issued }

/-! ## The `i`-th component has the number `i` -/

theorem map_snd_number {α : Type} (start : Nat) (items : List α) :
    (number start items).map (·.2) = items := List.map_snd_zip (by simp)

/-- Items that become possibilities get the numbers that come next. -/
theorem map_fst_number {α : Type} (g : Graph) (items : List α) :
    (number g.issued items).map (·.1) = g.nextPossibilities items.length :=
  List.map_fst_zip (by simp)

@[simp]
theorem size_add (g : Graph) (parent : Option ComponentId) (kind : Kind) :
    (g.add parent kind).size = g.size + 1 := by
  simp [size, add]

/-- A new component is found under its number. -/
theorem get?_add_nextId (g : Graph) (parent : Option ComponentId) (kind : Kind) :
    (g.add parent kind).get? g.nextId = some (g.newComponent parent kind) := by
  simp [get?, add, nextId]

/-- Older components are found as before. -/
theorem get?_add_of_le (g : Graph) (parent : Option ComponentId) (kind : Kind) {id : ComponentId}
    (h : id ≤ g.size) : (g.add parent kind).get? id = g.get? id := by
  cases id with
  | zero => rfl
  | succ n => exact List.getElem?_append_left h

theorem getElem?_changeKind (id : ComponentId) (i : Nat) (change : Kind → Kind)
    (components : List Component) :
    (changeKind id change components)[i]? =
      components[i]?.map fun c => if id = i + 1 then { c with kind := change c.kind } else c := by
  cases id with
  | zero => simp [changeKind]
  | succ n => simp [changeKind, List.getElem?_modify]

@[simp]
theorem length_changeKind (id : ComponentId) (change : Kind → Kind) (components : List Component) :
    (changeKind id change components).length = components.length := by
  cases id <;> simp [changeKind]

/-- A change of a component that is not there is none. -/
theorem modify_of_get?_eq_none {g : Graph} {id : ComponentId} (h : g.get? id = none)
    (change : Kind → Kind) : g.modify id change = g := by
  simp [modify, h]

theorem components_modify (g : Graph) (id : ComponentId) (change : Kind → Kind) :
    (g.modify id change).components = changeKind id change g.components := by
  cases hc : g.get? id with
  | some c => simp [modify, hc]
  | none =>
    rw [modify_of_get?_eq_none hc]
    cases id with
    | zero => rfl
    | succ n =>
      apply List.ext_getElem?
      intro i
      rw [getElem?_changeKind]
      by_cases hi : n = i
      · subst hi; rw [show g.components[n]? = none from hc]; rfl
      · simp [hi]

@[simp]
theorem size_modify (g : Graph) (id : ComponentId) (change : Kind → Kind) :
    (g.modify id change).size = g.size := by
  rw [size, components_modify, length_changeKind, size]

/-- A change reaches one component only. -/
theorem get?_modify (g : Graph) (id other : ComponentId) (change : Kind → Kind) :
    (g.modify id change).get? other =
      (g.get? other).map fun c => if id = other then { c with kind := change c.kind } else c := by
  cases other with
  | zero => rfl
  | succ m => simp only [get?, components_modify, getElem?_changeKind]

end Graph

end RuleBase

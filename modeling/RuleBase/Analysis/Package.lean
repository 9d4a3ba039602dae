import RuleBase.Analysis.Element
import RuleBase.Consequence

/-!
# Lowering packages

A rule becomes a component below its package, and the last of its own children is its consequence.
A package whose name is known already is extended.

* `lowerBody`, `lowerRule`, `lowerPackage`;
* `Loading`, `load`, `loadAll`: one package, and several, loaded into a graph.
-/

namespace RuleBase.Analysis

open RuleBase.Graph Condition

/-- Keeps the possibilities that the scope of a rule came to. -/
def keepPossibilities : Closed → Walk Unit
  | .rule id possibilities => keepRulePossibilities id possibilities
  | _ => return ()

/-- A rule with its consequence. -/
def withConsequence (id : ComponentId) : Kind → Kind
  | .rule r => .rule { r with consequence := some id }
  | other => other

/-- Lowers the condition and the consequence of a rule. -/
def lowerBody (limits : Limits) (rule : RuleSite) (r : Ast.Rule) : Walk Unit := do
  keepPossibilities
    (← within limits rule (.rule rule.id) (lowerElements limits { rule } rule.id r.lhs))
  let consequence ← add (some rule.id) (.consequence
    { rule := rule.id, ruleName := r.name, text := Consequence.normalize r.consequence })
  modify rule.id (withConsequence consequence)

/-- Lowers a rule. -/
def lowerRule (limits : Limits) (package : ComponentId) (r : Ast.Rule) : Walk Unit := do
  let id ← add (some package) (.rule
    { name := r.name, salience := r.salience, line := r.line, package, consequence := none })
  lowerBody limits ⟨id, r.name, r.line⟩ r

/-- Lowers rules one after another. -/
def lowerRules (limits : Limits) (package : ComponentId) : List Ast.Rule → Walk Unit
  | [] => return ()
  | r :: rest => do
    lowerRule limits package r
    lowerRules limits package rest

/-- Lowers a package and gives its component. -/
def lowerPackage (limits : Limits) (p : Ast.Package) : Walk ComponentId := do
  let id ← packageFor p.name
  lowerRules limits id p.rules
  return id

/-- A step that loads something into a graph, also when it fails. -/
abbrev Loading (α : Type) : Type := EStateM Error Graph α

/-- Loads a package on a walk of its own and gives its component. -/
def load (limits : Limits) (p : Ast.Package) : Loading ComponentId := fun g =>
  match lowerPackage limits p ⟨g, []⟩ with
  | .ok id s => .ok id s.graph
  | .error e s => .error e s.graph

/-- Loads packages one after another and gives their components. -/
def loadAll (limits : Limits) : List Ast.Package → Loading (List ComponentId)
  | [] => return []
  | p :: rest => do
    let id ← load limits p
    let ids ← loadAll limits rest
    return id :: ids

end RuleBase.Analysis

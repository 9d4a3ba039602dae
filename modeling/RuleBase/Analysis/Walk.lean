import RuleBase.Analysis.Error
import RuleBase.Graph.Basic

/-!
# Walking a rule

A rule is lowered to components on one walk through its condition. The walk extends a graph and
keeps the scopes of the condition; at every node it knows the rule, the pattern and the constraint
that the node belongs to, and how deep it is nested.

* `Site`: where the walk is; `Site.pattern`, `Site.constraint`: what a node needs around it;
* `State`, `Walk`: what the walk changes, also when it fails;
* `add`, `modify`, `classFor`, `fieldFor`: steps on the graph;
* `inScopes`, `within`: steps on the scopes;
* `descend`: one level deeper.
-/

namespace RuleBase.Analysis

open RuleBase.Graph Condition

/-! ## Places -/

/-- The rule that a walk is in. -/
structure RuleSite where
  id : ComponentId
  name : String
  line : Nat

/-- The pattern that a walk is in. -/
structure PatternSite where
  id : ComponentId
  factClass : ComponentId
  className : String
  isNot : Bool

/-- The constraint that a walk is in. -/
structure ConstraintSite where
  id : ComponentId
  field : ComponentId

/-- Where a walk is. -/
structure Site where
  rule : RuleSite
  pattern? : Option PatternSite := none
  constraint? : Option ConstraintSite := none
  depth : Nat := 0

/-- A fault of the rule that a walk is in. -/
def RuleSite.error (rule : RuleSite) (fault : Fault) : Error := ⟨rule.name, rule.line, fault⟩

/-- An error of the scopes as a fault: too many possibilities exceed a limit of the analysis. -/
def faultOfScopes : ScopeError → Fault
  | .possibilityLimit .rule cap actual => .limitExceeded .rulePossibilities cap actual
  | .possibilityLimit .pattern cap actual => .limitExceeded .patternPossibilities cap actual
  | error => .scope error

/-! ## The walk -/

/-- What a walk changes. -/
structure State where
  graph : Graph
  scopes : Scopes

/-- A walk, which may fail on the way. -/
abbrev Walk (α : Type) : Type := EStateM Error State α

/-- Fails with a fault of the rule. -/
def fail {α : Type} (rule : RuleSite) (fault : Fault) : Walk α := throw (rule.error fault)

/-- The value of an option, the absence of which is a fault of the rule. -/
def orFail {α : Type} (rule : RuleSite) (fault : Fault) : Option α → Walk α
  | some a => return a
  | none => fail rule fault

/-- The pattern that a node belongs to. -/
def Site.pattern (site : Site) (node : Inner) : Walk PatternSite :=
  orFail site.rule (.missingContext node .pattern) site.pattern?

/-- The pattern and the constraint that a node belongs to. -/
def Site.constraint (site : Site) (node : Inner) : Walk (PatternSite × ConstraintSite) := do
  let pattern ← site.pattern node
  let constraint ← orFail site.rule (.missingContext node .constraint) site.constraint?
  return (pattern, constraint)

/-- The place one level deeper, unless that is too deep. -/
def descend (limits : Limits) (site : Site) : Walk Site :=
  let depth := site.depth + 1
  if limits.maxNestingDepth < depth then
    fail site.rule (.limitExceeded .nestingDepth limits.maxNestingDepth depth)
  else return { site with depth }

/-! ## Steps on the graph -/

/-- Something that the graph tells. -/
def look {α : Type} (f : Graph → α) : Walk α := return f (← get).graph

/-- A step that extends the graph, and what it tells about the graph before. -/
def extend {α : Type} (f : Graph → α × Graph) : Walk α := fun s =>
  let (a, graph) := f s.graph
  .ok a { s with graph }

/-- Adds a component and gives its number. -/
def add (parent : Option ComponentId) (kind : Kind) : Walk ComponentId :=
  extend fun g => (g.nextId, g.add parent kind)

/-- Changes the kind of a component. -/
def modify (id : ComponentId) (change : Kind → Kind) : Walk Unit :=
  extend fun g => ((), g.modify id change)

/-- Keeps the possibilities of a pattern and gives their numbers. -/
def keepPatternPossibilities (rule pattern : ComponentId)
    (possibilities : List (List ComponentId)) : Walk (List PossibilityId) :=
  extend fun g =>
    (g.nextPossibilities possibilities.length, g.addPatternPossibilities rule pattern possibilities)

/-- Keeps the possibilities of a rule. -/
def keepRulePossibilities (rule : ComponentId) (possibilities : List (List PossibilityId)) :
    Walk Unit :=
  extend fun g => ((), g.addRulePossibilities rule possibilities)

/-- The component that a search finds, or a new one. -/
def findOrAdd (find? : Graph → Option ComponentId) (parent : Option ComponentId) (kind : Kind) :
    Walk ComponentId := do
  match ← look find? with
  | some id => return id
  | none => add parent kind

/-- The package with the given name. -/
def packageFor (name : String) : Walk ComponentId :=
  findOrAdd (·.findPackage? name) none (.package ⟨name⟩)

/-- The class with the given name. -/
def classFor (name : String) : Walk ComponentId :=
  findOrAdd (·.findClass? name) none (.factClass name)

/-- A change of fields, as a change of components. -/
def onField (change : Field → Field) : Kind → Kind
  | .field f => .field (change f)
  | other => other

/-- The field of the class of a pattern with the given name, mentioned on the given line. Fields
belong to their class and are shared by all rules. -/
def fieldFor (pattern : PatternSite) (name : String) (line : Nat) : Walk ComponentId := do
  match ← look (·.findField? pattern.factClass name) with
  | some id =>
    if line ≠ 0 then modify id (onField (Field.mention line))
    return id
  | none =>
    add (some pattern.factClass)
      (.field ⟨pattern.factClass, pattern.className, name, line, .unknown⟩)

/-! ## Steps on the scopes -/

/-- A step on the scopes, whose errors are faults of the rule. -/
def inScopes {α : Type} (rule : RuleSite) (step : Scoping α) : Walk α := fun s =>
  match step s.scopes with
  | .ok a scopes => .ok a { s with scopes }
  | .error e scopes => .error (rule.error (faultOfScopes e)) { s with scopes }

/-- Whether a quantifier is open around the walk. -/
def underQuantifier (q : Quantifier) : Walk Bool := return quantifiedBy q (← get).scopes

/-- Walks on inside a scope. If the walk fails inside, the scope is dropped, so that no scope
outlives an error. -/
def within (limits : Limits) (rule : RuleSite) (scope : Scope) (body : Walk Unit) :
    Walk Closed := do
  let token ← inScopes rule (enter scope)
  fun s =>
    match body s with
    | .ok _ s => inScopes rule (leave limits token) s
    | .error e s => .error e { s with scopes := abandon token s.scopes }

end RuleBase.Analysis

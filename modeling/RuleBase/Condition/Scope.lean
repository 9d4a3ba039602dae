import RuleBase.Condition.Group
import RuleBase.Identity
import RuleBase.Limits

/-!
# Scopes of a condition

While a condition is walked, a scope is open for each rule, pattern, connective and quantifier
that the walk is inside of. Rules, patterns and connectives collect alternatives: restrictions go
to the innermost group of the open pattern, patterns with their possibilities to the innermost
group of the rule. A scope that is left combines what it collected, and one that is abandoned is
dropped together with all scopes inside it. Whoever enters a scope gets a token for leaving it.

* `Scope`, `Token`, `Frame`, `Scopes`: what can be entered, and what is open;
* `enter`, `leave`, `abandon`, `addRestriction`, `addPatternPossibilities`;
* `quantifiedBy`: whether a quantifier is open in the rule;
* `ScopeError`, `ScopeError.message`.
-/

namespace RuleBase.Condition

/-- Restrictions combine inside patterns, and patterns inside rules. -/
inductive Level where
  | rule
  | pattern
  deriving DecidableEq

/-- A level as it is shown. -/
def Level.name : Level → String
  | .rule => "rule"
  | .pattern => "pattern"

/-- How many possibilities may come about at a level. -/
def Level.limit (limits : Limits) : Level → Nat
  | .rule => limits.maxRulePossibilities
  | .pattern => limits.maxPatternPossibilities

/-- A part of a condition that can be entered. -/
inductive Scope where
  | rule (id : ComponentId)
  | pattern (id : ComponentId)
  | operator (connective : Connective)
  | quantifier (q : Quantifier)
  deriving DecidableEq

/-- A scope as it is shown. -/
def Scope.display : Scope → String
  | .rule id => "rule " ++ showComponentId id
  | .pattern id => "pattern " ++ showComponentId id
  | .operator connective => connective.display
  | .quantifier q => q.display

/-- What needs an open scope around it. -/
inductive Part where
  | pattern
  | operator
  | quantifier (q : Quantifier)
  | restriction
  | patternPossibility
  deriving DecidableEq

/-- A part as it is shown. -/
def Part.name : Part → String
  | .pattern => "pattern"
  | .operator => "operator"
  | .quantifier q => q.display
  | .restriction => "restriction"
  | .patternPossibility => "pattern possibility"

/-- Why scopes do not allow a step. -/
inductive ScopeError where
  /-- A scope is left while it is not the innermost one. -/
  | unbalanced (scope : Scope) (expected actual : Nat)
  /-- A part stands outside of what it belongs into. -/
  | noEnclosing (part : Part) (expected : Level)
  /-- A rule or a pattern is entered inside another one. -/
  | nested (level : Level)
  /-- There are too many possibilities. -/
  | possibilityLimit (level : Level) (limit actual : Nat)
  deriving DecidableEq

/-- The text of an error. -/
def ScopeError.message : ScopeError → String
  | .unbalanced scope expected actual =>
    scope.display ++ " closed out of order: opened at depth " ++ toString expected ++
      ", stack depth is " ++ toString actual
  | .noEnclosing part expected =>
    part.name ++ " has no enclosing " ++ expected.name ++ " scope"
  | .nested level =>
    level.name ++ " cannot be opened inside another " ++ level.name ++ " scope"
  | .possibilityLimit level limit actual =>
    level.name ++ " possibilities would number " ++ toString actual ++ ", above the limit of " ++
      toString limit

/-- The right to leave a scope: the scope, and how many scopes are around it. -/
structure Token where
  depth : Nat
  scope : Scope
  deriving DecidableEq

/-- An open scope and what it has collected. -/
inductive Frame where
  | rule (id : ComponentId) (group : Group PossibilityId)
  | pattern (id : ComponentId) (group : Group ComponentId)
  | ruleOperator (group : Group PossibilityId)
  | patternOperator (group : Group ComponentId)
  | quantifier (q : Quantifier)

/-- Whether a frame is that of a rule. -/
def Frame.isRule : Frame → Bool
  | .rule .. => true
  | _ => false

/-- Whether a frame collects restrictions. -/
def Frame.isPatternLevel : Frame → Bool
  | .pattern .. | .patternOperator _ => true
  | _ => false

/-- Whether a frame is that of the given quantifier. -/
def Frame.isQuantifier (q : Quantifier) : Frame → Bool
  | .quantifier q' => q' == q
  | _ => false

/-- The open scopes, the innermost first. -/
abbrev Scopes : Type := List Frame

/-- A step that changes the open scopes, also when it fails. -/
abbrev Scoping (α : Type) : Type := EStateM ScopeError Scopes α

/-! ## What is open -/

/-- Whether a rule is open. -/
def ruleIsOpen (scopes : Scopes) : Bool := scopes.any Frame.isRule

/-- Whether a pattern is open. -/
def patternIsOpen (scopes : Scopes) : Bool := scopes.any Frame.isPatternLevel

/-- Whether a quantifier is open inside the innermost rule. -/
def quantifiedBy (q : Quantifier) (scopes : Scopes) : Bool :=
  (scopes.takeWhile fun f => !f.isRule).any (Frame.isQuantifier q)

/-! ## Entering -/

/-- The frame that a scope is opened with. -/
def newFrame (scope : Scope) (scopes : Scopes) : Except ScopeError Frame :=
  match scope with
  | .rule id => if ruleIsOpen scopes then .error (.nested .rule) else .ok (.rule id ⟨.and, []⟩)
  | .pattern id =>
    if !ruleIsOpen scopes then .error (.noEnclosing .pattern .rule)
    else if patternIsOpen scopes then .error (.nested .pattern)
    else .ok (.pattern id ⟨.and, []⟩)
  | .operator connective =>
    if !ruleIsOpen scopes then .error (.noEnclosing .operator .rule)
    else if patternIsOpen scopes then .ok (.patternOperator ⟨connective, []⟩)
    else .ok (.ruleOperator ⟨connective, []⟩)
  | .quantifier q =>
    if !ruleIsOpen scopes then .error (.noEnclosing (.quantifier q) .rule)
    else .ok (.quantifier q)

/-- Opens a scope. -/
def enter (scope : Scope) : Scoping Token := fun scopes =>
  match newFrame scope scopes with
  | .error e => .error e scopes
  | .ok frame => .ok ⟨scopes.length, scope⟩ (frame :: scopes)

/-! ## Collecting -/

/-- The scopes with one more child in the innermost group of the rule, unless a pattern is in
between. -/
def pushToRule? (child : Alternatives PossibilityId) : Scopes → Option Scopes
  | .rule id group :: rest => some (.rule id (group.push child) :: rest)
  | .ruleOperator group :: rest => some (.ruleOperator (group.push child) :: rest)
  | .quantifier q :: rest => (pushToRule? child rest).map (.quantifier q :: ·)
  | _ => none

/-- The scopes with one more child in the innermost group of the pattern. -/
def pushToPattern? (child : Alternatives ComponentId) : Scopes → Option Scopes
  | .pattern id group :: rest => some (.pattern id (group.push child) :: rest)
  | .patternOperator group :: rest => some (.patternOperator (group.push child) :: rest)
  | .quantifier q :: rest => (pushToPattern? child rest).map (.quantifier q :: ·)
  | _ => none

/-- Adds a part to what the rule has collected. -/
def addToRule (part : Part) (child : Alternatives PossibilityId) : Scoping Unit := fun scopes =>
  match pushToRule? child scopes with
  | none => .error (.noEnclosing part .rule) scopes
  | some scopes => .ok () scopes

/-- Adds a part to what the pattern has collected. -/
def addToPattern (part : Part) (child : Alternatives ComponentId) : Scoping Unit := fun scopes =>
  match pushToPattern? child scopes with
  | none => .error (.noEnclosing part .pattern) scopes
  | some scopes => .ok () scopes

/-- Adds a restriction, which has to hold. -/
def addRestriction (id : ComponentId) : Scoping Unit := addToPattern .restriction [[id]]

/-- Adds a pattern, one of whose possibilities has to hold. -/
def addPatternPossibilities (ids : List PossibilityId) : Scoping Unit :=
  addToRule .patternPossibility (ids.map ([·]))

/-! ## Leaving -/

/-- What a scope came to. -/
inductive Closed where
  | quantifier
  | operator
  | pattern (id : ComponentId) (possibilities : Alternatives ComponentId)
  | rule (id : ComponentId) (possibilities : Alternatives PossibilityId)
  deriving DecidableEq

/-- The alternatives of a group, if there are not too many of them. The group is counted before
any of them is made. -/
def combineWithin {α : Type} (limits : Limits) (level : Level) (group : Group α) :
    Scoping (Alternatives α) :=
  if level.limit limits < group.count then
    throw (.possibilityLimit level (level.limit limits) group.count)
  else return group.combined

/-- Closes a frame that has been taken off the others. -/
def close (limits : Limits) : Frame → Scoping Closed
  | .rule id group => do return .rule id (← combineWithin limits .rule group)
  | .pattern id group => do return .pattern id (← combineWithin limits .pattern group)
  | .ruleOperator group => do
    addToRule .operator (← combineWithin limits .rule group)
    return .operator
  | .patternOperator group => do
    addToPattern .operator (← combineWithin limits .pattern group)
    return .operator
  | .quantifier _ => return .quantifier

/-- Leaves the scope of a token, which has to be the innermost one. -/
def leave (limits : Limits) (token : Token) : Scoping Closed := fun scopes =>
  match scopes with
  | frame :: rest =>
    if token.depth = rest.length then close limits frame rest
    else .error (.unbalanced token.scope token.depth scopes.length) scopes
  | [] => .error (.unbalanced token.scope token.depth 0) []

/-- Drops the scope of a token and all scopes inside it. -/
def abandon (token : Token) (scopes : Scopes) : Scopes := scopes.drop (scopes.length - token.depth)

end RuleBase.Condition

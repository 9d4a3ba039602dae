import RuleBase.Analysis.Invoker
import RuleBase.Analysis.Restriction

/-!
# Lowering elements

The elements of a condition become components below the element, or the rule, that they stand in.
Groups and patterns are scopes around their parts. Quantifiers are scopes too, but have no
component: what is below them belongs to the component around them. A pattern keeps the quantifiers
that are open when it is reached. Its source comes before its own scope, so that a pattern inside
the source contributes to the rule on its own.

* `lowerConstraint`, `lowerBinding`, `bindPattern`: the parts of a pattern;
* `lowerElement`, `lowerPattern`, `lowerSource`.
-/

namespace RuleBase.Analysis

open RuleBase.Graph Condition

/-- Adds a variable of the rule. -/
def addVar (rule : RuleSite) (parent : ComponentId) (name : String) (objectType : ComponentType)
    (object : ComponentId) (objectName : String) : Walk Unit := do
  let _ ← add (some parent) (.var
    { rule := rule.id, ruleName := rule.name, name, objectType, objectId := some object
      objectName })

/-- Lowers the restrictions of one field. -/
def lowerConstraint (limits : Limits) (site : Site) (parent : ComponentId) (fieldName : String)
    (restrictions : List Ast.Restriction) (line : Nat) : Walk Unit := do
  let pattern ← site.pattern .constraint
  let field ← fieldFor pattern fieldName line
  let id ← add (some parent) (.constraint
    { rule := site.rule.id, pattern := pattern.id, patternIsNot := pattern.isNot, field
      fieldName })
  lowerRestrictions limits { site with constraint? := some ⟨id, field⟩ } id restrictions

/-- Lowers a variable for the value of a field. -/
def lowerBinding (site : Site) (parent : ComponentId) (identifier fieldName : String)
    (line : Nat) : Walk Unit := do
  let pattern ← site.pattern .binding
  let field ← fieldFor pattern fieldName line
  addVar site.rule parent identifier .field field fieldName

/-- A condition in code, as a component holds it. -/
def expression (rule : RuleSite) (content : String) (method : Option String) : Expression :=
  { rule := rule.id, ruleName := rule.name, content, classMethodName := method }

/-- A pattern with its source. -/
def withSource (source : Option Reference) : Kind → Kind
  | .pattern p => .pattern { p with source }
  | other => other

/-- A source with the pattern whose facts it takes. -/
def withInput (input : ComponentId) : Kind → Kind
  | .accumulate _ code => .accumulate (some input) code
  | .collect _ method => .collect (some input) method
  | other => other

/-- A source with the expression that supplies it. -/
def withDataSource (dataSource : Option Reference) : Kind → Kind
  | .supply _ => .supply dataSource
  | other => other

/-- Adds the variable that a pattern is bound to, if there is one. -/
def bindPattern (rule : RuleSite) (id factClass : ComponentId) (objectType : String) :
    Option String → Walk Unit
  | some name => addVar rule id name .factClass factClass objectType
  | none => return ()

/-- Puts a reference into a component, if there is one. -/
def attach (id : ComponentId) (change : Option Reference → Kind → Kind) :
    Option Reference → Walk Unit
  | some reference => modify id (change (some reference))
  | none => return ()

/-- Keeps the possibilities that the scope of a pattern came to, and hands them to the rule. -/
def handOver (rule : RuleSite) : Closed → Walk Unit
  | .pattern id possibilities => do
    let ids ← keepPatternPossibilities rule.id id possibilities
    inScopes rule (addPatternPossibilities ids)
  | _ => return ()

mutual
/-- Lowers an element. -/
def lowerElement (limits : Limits) (site : Site) (parent : ComponentId) : Ast.Element → Walk Unit
  | .pattern p => do
    let _ ← lowerPattern limits site parent p
  | .group connective elements => do
    let site ← descend limits site
    let id ← add (some parent) (.operator connective)
    let _ ← within limits site.rule (.operator connective) (lowerElements limits site id elements)
  | .quantified q elements => do
    let site ← descend limits site
    let _ ← within limits site.rule (.quantifier q) (lowerElements limits site parent elements)
  | .eval content method => do
    let _ ← add (some parent) (.eval (expression site.rule content method))
  | .predicate content method => do
    let _ ← site.pattern .predicate
    let _ ← add (some parent) (.predicate (expression site.rule content method))
  | .constraint fieldName restrictions line =>
    lowerConstraint limits site parent fieldName restrictions line
  | .binding identifier fieldName line => lowerBinding site parent identifier fieldName line
  | .unknown => return ()

/-- Lowers elements one after another. -/
def lowerElements (limits : Limits) (site : Site) (parent : ComponentId) :
    List Ast.Element → Walk Unit
  | [] => return ()
  | e :: rest => do
    lowerElement limits site parent e
    lowerElements limits site parent rest

/-- Lowers a pattern and gives its component. -/
def lowerPattern (limits : Limits) (site : Site) (parent : ComponentId) :
    Ast.Pattern → Walk ComponentId
  | .mk objectType identifier source constraints _ => do
    let site ← descend limits site
    let rule := site.rule
    let factClass ← classFor objectType
    let isNot ← underQuantifier .negated
    let isExists ← underQuantifier .existential
    let isForall ← underQuantifier .universal
    let id ← add (some parent) (.pattern
      { rule := rule.id, ruleName := rule.name, factClass, name := objectType, identifier, isNot
        isExists, isForall, source := none })
    bindPattern rule id factClass objectType identifier
    attach id withSource (← lowerSource? limits site id source)
    let inner : Site :=
      { site with pattern? := some ⟨id, factClass, objectType, isNot⟩, constraint? := none }
    handOver rule (← within limits rule (.pattern id) (lowerElements limits inner id constraints))
    return id

/-- Lowers the source of a pattern, if there is one. -/
def lowerSource? (limits : Limits) (site : Site) (parent : ComponentId) :
    Option Ast.Source → Walk (Option Reference)
  | some source => lowerSource limits site parent source
  | none => return none

/-- Lowers a source and gives its component, none if its kind is not known. -/
def lowerSource (limits : Limits) (site : Site) (parent : ComponentId) :
    Ast.Source → Walk (Option Reference)
  | .accumulate input code => do
    let site ← descend limits site
    let id ← add (some parent) (.accumulate none code)
    modify id (withInput (← lowerPattern limits site id input))
    return some ⟨id, .accumulate⟩
  | .collect input method => do
    let site ← descend limits site
    let id ← add (some parent) (.collect none method)
    modify id (withInput (← lowerPattern limits site id input))
    return some ⟨id, .collect⟩
  | .supplied dataSource => do
    let site ← descend limits site
    let id ← add (some parent) (.supply none)
    attach id withDataSource (← lowerInvoker limits site id dataSource)
    return some ⟨id, .supply⟩
  | .unknown => do
    let _ ← descend limits site
    return none
end

end RuleBase.Analysis

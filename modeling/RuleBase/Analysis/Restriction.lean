import RuleBase.Analysis.Walk

/-!
# Lowering restrictions

A comparison becomes a component below the constraint of its field, settles the type of the field
as far as it tells one, and goes to the possibilities of the pattern. A group of restrictions has
no component; it is a scope around its members.

* `splitPath?`: the variable and the path of a qualified identifier;
* `lowerOperand`, `settleType`, `lowerComparison`, `lowerRestriction`.
-/

namespace RuleBase.Analysis

open RuleBase.Graph Condition

/-- A path from a variable, split at its first dot. -/
def splitPath? (text : String) : Option (String × String) :=
  let name := text.toList.takeWhile (· != '.')
  let path := text.toList.dropWhile (· != '.')
  if path.isEmpty then none else some (String.ofList name, String.ofList path)

/-- The operator that a symbol denotes. -/
def operatorFor (rule : RuleSite) (symbol : String) (negated : Bool) : Walk Operator :=
  orFail rule (.unknownOperator symbol) (Operator.determine? symbol negated)

/-- The variable of the rule with the given name, declared so far. -/
def varFor (rule : RuleSite) (name : String) : Walk ComponentId := do
  orFail rule (.unresolvedVariable name) (← look (·.findVar? rule.id name))

/-- A change of variables, as a change of components. -/
def onVar (change : Variable → Variable) : Kind → Kind
  | .var v => .var (change v)
  | other => other

/-- A variable that a path starts from. -/
def asField (v : Variable) : Variable := { v with objectType := .field }

/-- The operand of a comparison, with its variable looked up. -/
def lowerOperand (rule : RuleSite) : Ast.Operand → Walk Operand
  | .literal text => return .literal text (Literal.infer text)
  | .var identifier => return .var (← varFor rule identifier) identifier
  | .returnValue content declarations method => return .returnValue content declarations method
  | .qualified text => do
    let (name, path) ← orFail rule (.malformedIdentifier text) (splitPath? text)
    let id ← varFor rule name
    modify id (onVar asField)
    return .qualified id name path

/-- Settles the type of a field as far as a comparison tells one. -/
def settleType (field : ComponentId) : Option FieldType → Walk Unit
  | some t => modify field (onField (Field.refine t))
  | none => return ()

/-- Lowers a comparison of a field. -/
def lowerComparison (rule : RuleSite) (pattern : PatternSite) (constraint : ConstraintSite)
    (parent : ComponentId) (symbol : String) (negated : Bool) (operand : Ast.Operand) :
    Walk Unit := do
  let operator ← operatorFor rule symbol negated
  let operand ← lowerOperand rule operand
  let id ← add (some parent) (.restriction
    { rule := rule.id, ruleName := rule.name, pattern := pattern.id
      patternIsNot := pattern.isNot, constraint := constraint.id, field := constraint.field
      operator, operand })
  settleType constraint.field operand.comparedType?
  inScopes rule (addRestriction id)

mutual
/-- Lowers a restriction. -/
def lowerRestriction (limits : Limits) (site : Site) (parent : ComponentId) :
    Ast.Restriction → Walk Unit
  | .comparison symbol negated operand => do
    let (pattern, constraint) ← site.constraint .restriction
    lowerComparison site.rule pattern constraint parent symbol negated operand
  | .group connective restrictions => do
    let _ ← site.constraint .restriction
    let site ← descend limits site
    let _ ← within limits site.rule (.operator connective)
      (lowerRestrictions limits site parent restrictions)
  | .unknown => do
    let _ ← site.constraint .restriction

/-- Lowers restrictions one after another. -/
def lowerRestrictions (limits : Limits) (site : Site) (parent : ComponentId) :
    List Ast.Restriction → Walk Unit
  | [] => return ()
  | r :: rest => do
    lowerRestriction limits site parent r
    lowerRestrictions limits site parent rest
end

end RuleBase.Analysis

import RuleBase.Analysis.Walk
import RuleBase.Proofs.Ast.Extent
import RuleBase.Proofs.Ast.WellFormed

/-!
# Verdicts on rules

Whether an analysis accepts a rule, and if not, what is wrong with it first, can be told from the
rule and the limits alone. A rule is judged on one way through its condition that makes neither
components nor possibilities: it remembers the variables that are declared, and counts alternatives
instead of making them.

* **`judgeRule`**, `verdict?`: the way through a rule, and the error that it comes to.
-/

namespace RuleBase.Analysis

open Condition

/-! ## Steps -/

/-- What is known on the way through a condition. -/
structure Findings where
  /-- The variables that the rule has declared so far. -/
  declared : List String := []
  /-- How many alternatives the children of the innermost group have so far. -/
  sizes : List Nat := []

/-- A part of the way through a condition, which ends where something is wrong. -/
abbrev Judging : Type := Findings → Except Fault Findings

/-- Asks for a condition. -/
def demand (p : Prop) [Decidable p] (fault : Fault) : Judging := fun f =>
  if p then .ok f else .error fault

/-- Declares a variable. -/
def declaring (name : String) : Judging := fun f => .ok { f with declared := f.declared ++ [name] }

/-- Asks for a variable that is declared. -/
def resolving (name : String) : Judging := fun f =>
  demand (name ∈ f.declared) (.unresolvedVariable name) f

/-- Hands the innermost group a child with some alternatives. -/
def contributing (size : Nat) : Judging := fun f => .ok { f with sizes := f.sizes ++ [size] }

/-- Goes one level deeper, unless that is too deep. -/
def descending (limits : Limits) (depth : Nat) : Judging :=
  demand (depth + 1 ≤ limits.maxNestingDepth)
    (.limitExceeded .nestingDepth limits.maxNestingDepth (depth + 1))

/-- The fault of a group with too many alternatives. -/
def overLimit (limits : Limits) (level : Level) (count : Nat) : Fault :=
  faultOfScopes (.possibilityLimit level (level.limit limits) count)

/-- Makes a group of what is inside, which is one child of the group around it. -/
def grouping (limits : Limits) (level : Level) (connective : Connective) (inside : Judging) :
    Judging := fun f => do
  let inner ← inside { f with sizes := [] }
  let size := ways connective inner.sizes
  demand (min size countCeiling ≤ level.limit limits)
    (overLimit limits level (min size countCeiling)) { inner with sizes := f.sizes ++ [size] }

/-! What steps come to. -/

section Steps

variable {limits : Limits} {level : Level} {f f' f'' : Findings} {fault fault' : Fault}
  {judge judge' : Judging}

@[simp]
theorem andThen_pure (judge : Judging) : (judge >=> pure) = judge :=
  funext fun f => bind_pure (judge f)

theorem andThen_eq_ok :
    (judge >=> judge') f = .ok f'' ↔ ∃ f', judge f = .ok f' ∧ judge' f' = .ok f'' := by
  change Except.bind (judge f) judge' = .ok f'' ↔ _
  cases judge f <;> simp [Except.bind]

theorem andThen_eq_error :
    (judge >=> judge') f = .error fault ↔
      judge f = .error fault ∨ ∃ f', judge f = .ok f' ∧ judge' f' = .error fault := by
  change Except.bind (judge f) judge' = .error fault ↔ _
  cases judge f <;> simp [Except.bind]

theorem demand_eq_ok {p : Prop} [Decidable p] : demand p fault f = .ok f' ↔ p ∧ f' = f := by
  by_cases h : p <;> simp [demand, h, eq_comm]

theorem demand_eq_error {p : Prop} [Decidable p] :
    demand p fault f = .error fault' ↔ ¬p ∧ fault' = fault := by
  by_cases h : p <;> simp [demand, h, eq_comm]

theorem grouping_eq_ok {connective : Connective} :
    grouping limits level connective judge f = .ok f' ↔
      ∃ inner, judge { f with sizes := [] } = .ok inner ∧
        min (ways connective inner.sizes) countCeiling ≤ level.limit limits ∧
        f' = { inner with sizes := f.sizes ++ [ways connective inner.sizes] } := by
  change Except.bind _ _ = .ok f' ↔ _
  cases judge { f with sizes := [] } with
  | ok inner => simp [Except.bind, demand_eq_ok]
  | error fault => simp [Except.bind]

theorem grouping_eq_error {connective : Connective} :
    grouping limits level connective judge f = .error fault ↔
      judge { f with sizes := [] } = .error fault ∨
        ∃ inner, judge { f with sizes := [] } = .ok inner ∧
          level.limit limits < min (ways connective inner.sizes) countCeiling ∧
          fault = overLimit limits level (min (ways connective inner.sizes) countCeiling) := by
  change Except.bind _ _ = .error fault ↔ _
  cases judge { f with sizes := [] } with
  | ok inner => simp [Except.bind, demand_eq_error]
  | error fault => simp [Except.bind]

end Steps

/-! ## Parts of a pattern -/

/-- Judges the operand of a comparison. -/
def judgeOperand : Ast.Operand → Judging
  | .literal _ => pure
  | .var identifier => resolving identifier
  | .returnValue .. => pure
  | .qualified text =>
    demand ('.' ∈ text.toList) (.malformedIdentifier text) >=>
      resolving (String.ofList (text.toList.takeWhile (· != '.')))

/-- Judges a comparison. -/
def judgeComparison (symbol : String) (negated : Bool) (operand : Ast.Operand) : Judging :=
  demand (Operator.determine? symbol negated).isSome (.unknownOperator symbol) >=>
    judgeOperand operand >=> contributing 1

mutual
/-- Judges a restriction. -/
def judgeRestriction (limits : Limits) (depth : Nat) : Ast.Restriction → Judging
  | .comparison symbol negated operand => judgeComparison symbol negated operand
  | .group connective restrictions =>
    descending limits depth >=>
      grouping limits .pattern connective (judgeRestrictions limits (depth + 1) restrictions)
  | .unknown => pure

/-- Judges restrictions one after another. -/
def judgeRestrictions (limits : Limits) (depth : Nat) : List Ast.Restriction → Judging
  | [] => pure
  | r :: rest => judgeRestriction limits depth r >=> judgeRestrictions limits depth rest
end

mutual
/-- Judges an invoker. -/
def judgeInvoker (limits : Limits) (depth : Nat) : Ast.Invoker → Judging
  | .accessor _ invokers => descending limits depth >=> judgeInvokers limits (depth + 1) invokers
  | .fieldAccess .. => pure
  | .methodAccess .. => pure
  | .functionCall .. => pure
  | .unknown => pure

/-- Judges invokers one after another. -/
def judgeInvokers (limits : Limits) (depth : Nat) : List Ast.Invoker → Judging
  | [] => pure
  | i :: rest => judgeInvoker limits depth i >=> judgeInvokers limits depth rest
end

/-! ## Elements -/

/-- Asks for a pattern around a node. -/
def insidePattern (level : Level) (node : Inner) : Judging :=
  demand (level = .pattern) (.missingContext node .pattern)

/-- Declares the variable that a pattern is bound to, if there is one. -/
def judgeIdentifier : Option String → Judging
  | some name => declaring name
  | none => pure

mutual
/-- Judges an element that stands at a level. -/
def judgeElement (limits : Limits) (level : Level) (depth : Nat) : Ast.Element → Judging
  | .pattern p => judgePattern limits level depth p
  | .group connective elements =>
    descending limits depth >=>
      grouping limits level connective (judgeElements limits level (depth + 1) elements)
  | .quantified _ elements =>
    descending limits depth >=> judgeElements limits level (depth + 1) elements
  | .eval .. => pure
  | .predicate .. => insidePattern level .predicate
  | .constraint _ restrictions _ =>
    insidePattern level .constraint >=> judgeRestrictions limits depth restrictions
  | .binding identifier _ _ => insidePattern level .binding >=> declaring identifier
  | .unknown => pure

/-- Judges elements one after another. -/
def judgeElements (limits : Limits) (level : Level) (depth : Nat) : List Ast.Element → Judging
  | [] => pure
  | e :: rest => judgeElement limits level depth e >=> judgeElements limits level depth rest

/-- Judges a pattern. Only after its source it turns out whether it may stand where it does. -/
def judgePattern (limits : Limits) (level : Level) (depth : Nat) : Ast.Pattern → Judging
  | .mk _ identifier source constraints _ =>
    descending limits depth >=> judgeIdentifier identifier >=>
      judgeSource? limits level (depth + 1) source >=>
      demand (level = .rule) (.scope (.nested .pattern)) >=>
      grouping limits .pattern .and (judgeElements limits .pattern (depth + 1) constraints)

/-- Judges the source of a pattern, if there is one. -/
def judgeSource? (limits : Limits) (level : Level) (depth : Nat) : Option Ast.Source → Judging
  | some source => judgeSource limits level depth source
  | none => pure

/-- Judges a source. -/
def judgeSource (limits : Limits) (level : Level) (depth : Nat) : Ast.Source → Judging
  | .accumulate input _ => descending limits depth >=> judgePattern limits level (depth + 1) input
  | .collect input _ => descending limits depth >=> judgePattern limits level (depth + 1) input
  | .supplied dataSource => descending limits depth >=> judgeInvoker limits (depth + 1) dataSource
  | .unknown => descending limits depth
end

/-! ## Rules -/

/-- **Judges a rule.** -/
def judgeRule (limits : Limits) (r : Ast.Rule) : Except Fault Findings :=
  grouping limits .rule .and (judgeElements limits .rule 0 r.lhs) {}

/-- Judges a rule that is taken to have declared some variables before. -/
def judgeRuleAfter (limits : Limits) (declared : List String) (r : Ast.Rule) :
    Except Fault Findings :=
  grouping limits .rule .and (judgeElements limits .rule 0 r.lhs) { declared }

/-- The error of a rule, if there is something wrong with it. -/
def verdict? (limits : Limits) (r : Ast.Rule) : Option Error :=
  match judgeRule limits r with
  | .ok _ => none
  | .error fault => some ⟨r.name, r.line, fault⟩

end RuleBase.Analysis

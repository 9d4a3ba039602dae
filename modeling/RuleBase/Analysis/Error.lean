import RuleBase.Condition.Scope

/-!
# Errors of an analysis

An analysis fails inside a rule, and an error names the rule and the line on which it stands.

* `Fault`, `Error`;
* `Error.message`: the error in one line; `Error.report`: the error as it is shown to users.
-/

namespace RuleBase.Analysis

/-- Nodes that have a meaning only inside others. -/
inductive Inner where
  | constraint
  | binding
  | predicate
  | restriction
  deriving DecidableEq

/-- An inner node as it is shown. -/
def Inner.name : Inner → String
  | .constraint => "field constraint"
  | .binding => "field binding"
  | .predicate => "predicate"
  | .restriction => "restriction"

/-- Nodes that inner nodes need around them. -/
inductive Outer where
  | pattern
  | constraint
  deriving DecidableEq

/-- An outer node as it is shown. -/
def Outer.name : Outer → String
  | .pattern => "pattern"
  | .constraint => "field constraint"

/-- What is wrong with a rule. -/
inductive Fault where
  /-- A variable is used that the rule has not declared so far. -/
  | unresolvedVariable (name : String)
  /-- A node stands outside of what gives it a meaning. -/
  | missingContext (node : Inner) (expected : Outer)
  /-- A symbol is no comparison. -/
  | unknownOperator (symbol : String)
  /-- A path from a variable has no dot. -/
  | malformedIdentifier (text : String)
  /-- The rule goes beyond a limit. -/
  | limitExceeded (limit : Limit) (cap actual : Nat)
  /-- The scopes of the condition do not fit together. -/
  | scope (error : Condition.ScopeError)
  deriving DecidableEq

/-- A fault of a rule. -/
structure Error where
  rule : String
  line : Nat
  fault : Fault
  deriving DecidableEq

/-- Where an error stands. -/
def Error.place (e : Error) : String := "in rule '" ++ e.rule ++ "' at line " ++ toString e.line

/-- The text of an error. -/
def Error.message (e : Error) : String :=
  match e.fault with
  | .unresolvedVariable name => "unresolved variable '" ++ name ++ "' " ++ e.place
  | .missingContext node expected =>
    node.name ++ " outside of a " ++ expected.name ++ " " ++ e.place
  | .unknownOperator symbol => "unknown operator '" ++ symbol ++ "' " ++ e.place
  | .malformedIdentifier text => "malformed qualified identifier '" ++ text ++ "' " ++ e.place
  | .limitExceeded limit cap actual =>
    "limit '" ++ limit.name ++ "' exceeded " ++ e.place ++ ": " ++ toString actual ++ " > " ++
      toString cap
  | .scope error => "solver failure " ++ e.place ++ ": " ++ error.message

/-- What helps against a limit that is exceeded. -/
def suggestion : Limit → String
  | .rulePossibilities =>
    "Raise it with --max-rule-possibilities or split the rule into smaller rules."
  | .nestingDepth => "Flatten deeply nested and/or/not groups in the rule."
  | .patternPossibilities => "Reduce the number of alternatives inside a single pattern."

/-- The text of an error for users. -/
def Error.report (e : Error) : String :=
  match e.fault with
  | .limitExceeded limit cap actual =>
    "Analysis limit exceeded: " ++ limit.name ++
      "\n  Rule: " ++ e.rule ++ " (line " ++ toString e.line ++ ")" ++
      "\n  Limit: " ++ toString cap ++
      "\n  Actual: " ++ toString actual ++
      "\n  " ++ suggestion limit
  | _ =>
    "Error: " ++ e.message ++ "\n  --> rule '" ++ e.rule ++ "', line " ++ toString e.line

end RuleBase.Analysis

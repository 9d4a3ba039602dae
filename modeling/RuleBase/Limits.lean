/-!
# Limits of an analysis

Possibilities multiply with the alternatives and the patterns of a rule, and elements nest without
bound, so an analysis runs under three limits.
-/

namespace RuleBase

/-- The limits of an analysis. -/
structure Limits where
  /-- How many possibilities one pattern may have. -/
  maxPatternPossibilities : Nat := 1024
  /-- How many possibilities one rule may have. -/
  maxRulePossibilities : Nat := 65536
  /-- How deep elements, sources, restriction groups and accessors may nest. -/
  maxNestingDepth : Nat := 100
  deriving DecidableEq

/-- The name of one of the limits. -/
inductive Limit where
  | patternPossibilities
  | rulePossibilities
  | nestingDepth
  deriving DecidableEq

/-- The name of a limit as reports give it. -/
def Limit.name : Limit → String
  | .patternPossibilities => "max_pattern_possibilities"
  | .rulePossibilities => "max_rule_possibilities"
  | .nestingDepth => "max_nesting_depth"

end RuleBase

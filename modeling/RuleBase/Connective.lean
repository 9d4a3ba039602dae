/-!
# Connectives and quantifiers

The words that join and bind the conditions of a rule. A connective joins conditional elements,
or the restrictions of one field; a quantifier says how often the facts below it occur.
-/

namespace RuleBase

/-- A connective joins alternatives or conjuncts. -/
inductive Connective where
  | and
  | or
  deriving DecidableEq

/-- A connective as it is shown. -/
def Connective.display : Connective → String
  | .and => "AND"
  | .or => "OR"

/-- A connective as documents spell it. -/
def Connective.keyword : Connective → String
  | .and => "and"
  | .or => "or"

/-- The connective with the given spelling. -/
def Connective.ofKeyword? (word : String) : Option Connective :=
  if word = "and" then some .and else if word = "or" then some .or else none

/-- A quantifier of the facts below it: there is none, there is one, or all are meant. -/
inductive Quantifier where
  | negated
  | existential
  | universal
  deriving DecidableEq

/-- A quantifier as it is shown. -/
def Quantifier.display : Quantifier → String
  | .negated => "NOT"
  | .existential => "EXISTS"
  | .universal => "FORALL"

end RuleBase

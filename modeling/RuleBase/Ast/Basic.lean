import RuleBase.Connective

/-!
# Rule bases as they are declared

A package holds rules; a rule has a condition, which is a list of conditional elements that have
to hold together, and a consequence. Elements ask for facts by patterns, join and quantify one
another, and inside a pattern constrain the fields of a fact. Nodes of a kind that is not known
are kept as such.

* `Restriction`, `Invoker`, `Element`, `Pattern`, `Source`, `Rule`, `Package`;
* `Restriction.negate`: a comparison with its negation flag turned round.
-/

namespace RuleBase.Ast

/-- What a field is compared with. -/
inductive Operand where
  /-- A literal, or null if there is no text. -/
  | literal (text : Option String)
  /-- A variable of the rule. -/
  | var (identifier : String)
  /-- The value of an expression over some variables. -/
  | returnValue (content : String) (declarations : List String) (classMethodName : Option String)
  /-- A path from a variable, such as `$p.address.city`. -/
  | qualified (text : String)
  deriving DecidableEq

/-- A restriction of the values of a field. -/
inductive Restriction where
  | comparison (evaluator : String) (negated : Bool) (operand : Operand)
  | group (connective : Connective) (restrictions : List Restriction)
  | unknown

/-- A comparison with its negation flag turned round; other restrictions as they are. -/
def Restriction.negate : Restriction → Restriction
  | .comparison evaluator negated operand => .comparison evaluator (!negated) operand
  | other => other

/-- An expression that facts are drawn from. -/
inductive Invoker where
  | fieldAccess (fieldName : String) (argument : Option String)
  | methodAccess (methodName arguments : String)
  | functionCall (name arguments : String)
  | accessor (variableName : String) (invokers : List Invoker)
  | unknown

/-- The code of an accumulation. -/
structure Accumulation where
  initCode : Option String := none
  actionCode : Option String := none
  reverseCode : Option String := none
  resultCode : Option String := none
  className : Option String := none
  externalFunction : Bool := false
  functionIdentifier : Option String := none
  expression : Option String := none
  deriving DecidableEq

mutual
/-- A conditional element, or a part of a pattern. -/
inductive Element where
  | pattern (p : Pattern)
  | group (connective : Connective) (elements : List Element)
  | quantified (quantifier : Quantifier) (elements : List Element)
  | eval (content : String) (classMethodName : Option String)
  /-- Restrictions of one field, all of which have to hold. -/
  | constraint (fieldName : String) (restrictions : List Restriction) (line : Nat)
  /-- A variable for the value of a field. -/
  | binding (identifier fieldName : String) (line : Nat)
  | predicate (content : String) (classMethodName : Option String)
  | unknown

/-- Facts of a class, perhaps bound to a variable, perhaps drawn from a source. -/
inductive Pattern where
  | mk (objectType : String) (identifier : Option String) (source : Option Source)
    (constraints : List Element) (line : Nat)

/-- Where the facts of a pattern come from. -/
inductive Source where
  | accumulate (input : Pattern) (code : Accumulation)
  | collect (input : Pattern) (classMethodName : Option String)
  /-- The facts that an expression supplies. -/
  | supplied (dataSource : Invoker)
  | unknown
end

/-- A rule. -/
structure Rule where
  name : String
  salience : Int := 0
  line : Nat := 0
  lhs : List Element := []
  consequence : String := ""

/-- A package of rules. -/
structure Package where
  name : String
  rules : List Rule := []

end RuleBase.Ast

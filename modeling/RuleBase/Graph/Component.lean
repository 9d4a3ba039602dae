import RuleBase.Ast.Basic
import RuleBase.Identity
import RuleBase.Literal
import RuleBase.Operator

/-!
# Components

The nodes of the graph that rule bases are lowered to. A component has a number, a place among the
children of its parent, and a kind. Components refer to one another by their numbers only.

* `Package`, `Rule`, `Pattern`, `Constraint`, `Restriction`, `Variable`, `Field`, …: what the
  kinds of components hold;
* `Kind`, `Kind.type`, `Kind.key?`, `Component`;
* `Restriction.display`, `Field.refine`, `Field.mention`.
-/

namespace RuleBase.Graph

/-- The types of components. -/
inductive ComponentType where
  | package
  | rule
  | pattern
  | constraint
  | restriction
  | var
  | factClass
  | field
  | consequence
  | operator
  | eval
  | predicate
  | accumulate
  | collect
  | supply
  | fieldAccess
  | methodAccess
  | functionCall
  | accessor
  deriving DecidableEq

/-- The name of a type of components in documents. -/
def ComponentType.name : ComponentType → String
  | .package => "rule_package"
  | .rule => "rule"
  | .pattern => "pattern"
  | .constraint => "constraint"
  | .restriction => "restriction"
  | .var => "variable"
  | .factClass => "class"
  | .field => "field"
  | .consequence => "consequence"
  | .operator => "operator"
  | .eval => "eval"
  | .predicate => "predicate"
  | .accumulate => "accumulate"
  | .collect => "collect"
  | .supply => "from"
  | .fieldAccess => "field_access"
  | .methodAccess => "method_access"
  | .functionCall => "function_call"
  | .accessor => "accessor"

/-- A component together with its type. -/
structure Reference where
  id : ComponentId
  type : ComponentType
  deriving DecidableEq

/-- A package of rules. -/
structure Package where
  name : String
  deriving DecidableEq

/-- A rule. Its consequence comes last. -/
structure Rule where
  name : String
  salience : Int
  line : Nat
  package : ComponentId
  consequence : Option ComponentId
  deriving DecidableEq

/-- A pattern, with the quantifiers that are open around it. -/
structure Pattern where
  rule : ComponentId
  ruleName : String
  factClass : ComponentId
  name : String
  identifier : Option String
  isNot : Bool
  isExists : Bool
  isForall : Bool
  source : Option Reference
  deriving DecidableEq

/-- The restrictions of one field inside a pattern. -/
structure Constraint where
  rule : ComponentId
  pattern : ComponentId
  patternIsNot : Bool
  field : ComponentId
  fieldName : String
  deriving DecidableEq

/-- What a field is compared with. -/
inductive Operand where
  /-- A literal, as it is written and what that denotes. -/
  | literal (text : Option String) (value : Literal)
  | var (id : ComponentId) (name : String)
  | returnValue (content : String) (declarations : List String) (classMethodName : Option String)
  /-- A path from a variable; it starts with a dot. -/
  | qualified (id : ComponentId) (name path : String)
  deriving DecidableEq

/-- A comparison of a field. -/
structure Restriction where
  rule : ComponentId
  ruleName : String
  pattern : ComponentId
  patternIsNot : Bool
  constraint : ComponentId
  field : ComponentId
  operator : Operator
  operand : Operand
  deriving DecidableEq

/-- An operand as it is shown. -/
def Operand.display : Operand → String
  | .literal _ value => value.display
  | .var _ name => name
  | .returnValue content .. => "( " ++ content ++ " )"
  | .qualified _ name path => name ++ path

/-- The type of the values that an operand compares a field with, if that is known. -/
def Operand.comparedType? : Operand → Option FieldType
  | .literal _ value => some value.fieldType
  | .var .. => some .var
  | .returnValue .. => none
  | .qualified .. => some .var

/-- A restriction as it is shown, without its field. -/
def Restriction.display (r : Restriction) : String :=
  r.operator.display ++ " " ++ r.operand.display

/-- A variable of a rule. It stands for a fact of a class or for the value of a field; one that a
path starts from counts as the latter. -/
structure Variable where
  rule : ComponentId
  ruleName : String
  name : String
  objectType : ComponentType
  objectId : Option ComponentId
  objectName : String
  deriving DecidableEq

/-- A field of a class. -/
structure Field where
  factClass : ComponentId
  className : String
  name : String
  line : Nat
  fieldType : FieldType
  deriving DecidableEq

/-- A field after a comparison with a value of the given type. -/
def Field.refine (t : FieldType) (f : Field) : Field := { f with fieldType := f.fieldType.refine t }

/-- A field after it has been mentioned on the given line; the first line that is known counts. -/
def Field.mention (line : Nat) (f : Field) : Field :=
  { f with line := if f.line = 0 then line else f.line }

/-- The reduced text of a consequence. -/
structure Consequence where
  rule : ComponentId
  ruleName : String
  text : String
  deriving DecidableEq

/-- A condition in code. -/
structure Expression where
  rule : ComponentId
  ruleName : String
  content : String
  classMethodName : Option String
  deriving DecidableEq

/-- What a component is. -/
inductive Kind where
  | package (p : Package)
  | rule (r : Rule)
  | pattern (p : Pattern)
  | constraint (c : Constraint)
  | restriction (r : Restriction)
  | var (v : Variable)
  | factClass (name : String)
  | field (f : Field)
  | consequence (c : Consequence)
  | operator (connective : Connective)
  | eval (e : Expression)
  | predicate (e : Expression)
  /-- A source that accumulates the facts of a pattern. -/
  | accumulate (input : Option ComponentId) (code : Ast.Accumulation)
  /-- A source that collects the facts of a pattern. -/
  | collect (input : Option ComponentId) (classMethodName : Option String)
  /-- A source that an expression supplies. -/
  | supply (dataSource : Option Reference)
  | fieldAccess (fieldName : String) (argument : Option String)
  | methodAccess (methodName arguments : String)
  | functionCall (name arguments : String)
  | accessor (variableName : String)
  deriving DecidableEq

/-- The type of a component. -/
def Kind.type : Kind → ComponentType
  | .package _ => .package
  | .rule _ => .rule
  | .pattern _ => .pattern
  | .constraint _ => .constraint
  | .restriction _ => .restriction
  | .var _ => .var
  | .factClass _ => .factClass
  | .field _ => .field
  | .consequence _ => .consequence
  | .operator _ => .operator
  | .eval _ => .eval
  | .predicate _ => .predicate
  | .accumulate .. => .accumulate
  | .collect .. => .collect
  | .supply _ => .supply
  | .fieldAccess .. => .fieldAccess
  | .methodAccess .. => .methodAccess
  | .functionCall .. => .functionCall
  | .accessor _ => .accessor

/-! ## Kinds one at a time -/

namespace Kind

/-- The package that a component is. -/
def package? : Kind → Option Package
  | .package p => some p
  | _ => none

/-- The rule that a component is. -/
def rule? : Kind → Option Rule
  | .rule r => some r
  | _ => none

/-- The pattern that a component is. -/
def pattern? : Kind → Option Pattern
  | .pattern p => some p
  | _ => none

/-- The constraint that a component is. -/
def constraint? : Kind → Option Constraint
  | .constraint c => some c
  | _ => none

/-- The restriction that a component is. -/
def restriction? : Kind → Option Restriction
  | .restriction r => some r
  | _ => none

/-- The variable that a component is. -/
def var? : Kind → Option Variable
  | .var v => some v
  | _ => none

/-- The name of the class that a component is. -/
def className? : Kind → Option String
  | .factClass name => some name
  | _ => none

/-- The field that a component is. -/
def field? : Kind → Option Field
  | .field f => some f
  | _ => none

/-- The consequence that a component is. -/
def consequence? : Kind → Option Consequence
  | .consequence c => some c
  | _ => none

end Kind

/-- What a component is found by: packages and classes by their names, fields and variables by the
class and the rule they belong to as well. -/
inductive Key where
  | package (name : String)
  | factClass (name : String)
  | field (factClass : ComponentId) (name : String)
  | var (rule : ComponentId) (name : String)
  deriving DecidableEq

/-- Whether the youngest component with a key is the one that is found. -/
def Key.isShadowing : Key → Bool
  | .var .. => true
  | _ => false

/-- What a component is found by, if it is found by more than its number. -/
def Kind.key? : Kind → Option Key
  | .package p => some (.package p.name)
  | .factClass name => some (.factClass name)
  | .field f => some (.field f.factClass f.name)
  | .var v => some (.var v.rule v.name)
  | _ => none

/-- A node of the graph. -/
structure Component where
  id : ComponentId
  parent : Option ComponentId
  /-- How many of its parent's children are older. -/
  orderNumber : Nat
  kind : Kind
  deriving DecidableEq

end RuleBase.Graph

import RuleBase.Ast.Basic
import RuleBase.Json.Basic

/-!
# Rule bases as documents

Declarations as JSON values with every member written out: a node starts with its `kind`, absent
options are null.

* `Restriction.toJson`, `Invoker.toJson`, `Element.toJson`, `Pattern.toJson`, `Source.toJson`;
* `Rule.toJson`, `Package.toJson`.
-/

namespace RuleBase.Ast

/-- A node of some kind with its members. -/
def node (kind : String) (members : List (String × Json)) : Json :=
  .object (("kind", .string kind) :: members)

/-- A node of a kind that is not known. -/
def unknownNode : Json := node "unknown" []

/-- A comparison as a node. -/
def comparisonToJson (evaluator : String) (negated : Bool) (operand : Operand) : Json :=
  let kind := match operand with
    | .literal _ => "literal"
    | .var _ => "variable"
    | .returnValue .. => "return_value"
    | .qualified _ => "qualified_identifier"
  let members := match operand with
    | .literal text => [("text", .optionalString text)]
    | .var identifier => [("identifier", .string identifier)]
    | .returnValue content declarations method =>
      [("content", .string content), ("declarations", Json.list .string declarations),
        ("class_method_name", .optionalString method)]
    | .qualified text => [("text", .string text)]
  node kind (("evaluator", .string evaluator) :: ("negated", .bool negated) :: members)

mutual
/-- A restriction as a node. -/
def Restriction.toJson : Restriction → Json
  | .comparison evaluator negated operand => comparisonToJson evaluator negated operand
  | .group connective restrictions =>
    node "connective" [("connective", .string connective.keyword),
      ("restrictions", .array (restrictionsToJson restrictions))]
  | .unknown => unknownNode

/-- Restrictions as nodes. -/
def restrictionsToJson : List Restriction → List Json
  | [] => []
  | r :: rest => r.toJson :: restrictionsToJson rest
end

mutual
/-- An invoker as a node. -/
def Invoker.toJson : Invoker → Json
  | .fieldAccess name argument =>
    node "field_access" [("field_name", .string name), ("argument", .optionalString argument)]
  | .methodAccess name arguments =>
    node "method_access" [("method_name", .string name), ("arguments", .string arguments)]
  | .functionCall name arguments =>
    node "function_call" [("name", .string name), ("arguments", .string arguments)]
  | .accessor name invokers =>
    node "accessor" [("variable_name", .string name),
      ("invokers", .array (invokersToJson invokers))]
  | .unknown => unknownNode

/-- Invokers as nodes. -/
def invokersToJson : List Invoker → List Json
  | [] => []
  | i :: rest => i.toJson :: invokersToJson rest
end

/-- The code of an accumulation as members of a node. -/
def Accumulation.members (a : Accumulation) : List (String × Json) :=
  [("init_code", .optionalString a.initCode), ("action_code", .optionalString a.actionCode),
    ("reverse_code", .optionalString a.reverseCode),
    ("result_code", .optionalString a.resultCode), ("class_name", .optionalString a.className),
    ("external_function", .bool a.externalFunction),
    ("function_identifier", .optionalString a.functionIdentifier),
    ("expression", .optionalString a.expression)]

/-- The kind of a group of elements. -/
def quantifierKind : Quantifier → String
  | .negated => "not"
  | .existential => "exists"
  | .universal => "forall"

mutual
/-- An element as a node. -/
def Element.toJson : Element → Json
  | .pattern p => node "pattern" p.members
  | .group connective elements =>
    node connective.keyword [("descrs", .array (elementsToJson elements))]
  | .quantified quantifier elements =>
    node (quantifierKind quantifier) [("descrs", .array (elementsToJson elements))]
  | .eval content method =>
    node "eval" [("content", .string content), ("class_method_name", .optionalString method)]
  | .constraint fieldName restrictions line =>
    node "field_constraint" [("field_name", .string fieldName),
      ("restrictions", .array (restrictionsToJson restrictions)), ("line", .nat line)]
  | .binding identifier fieldName line =>
    node "field_binding" [("identifier", .string identifier), ("field_name", .string fieldName),
      ("line", .nat line)]
  | .predicate content method =>
    node "predicate" [("content", .string content), ("class_method_name", .optionalString method)]
  | .unknown => unknownNode

/-- Elements as nodes. -/
def elementsToJson : List Element → List Json
  | [] => []
  | e :: rest => e.toJson :: elementsToJson rest

/-- The members of a pattern. -/
def Pattern.members : Pattern → List (String × Json)
  | .mk objectType identifier source constraints line =>
    [("object_type", .string objectType), ("identifier", .optionalString identifier),
      ("source", match source with | none => .null | some s => s.toJson),
      ("constraints", .array (elementsToJson constraints)), ("line", .nat line)]

/-- A source as a node. -/
def Source.toJson : Source → Json
  | .accumulate input code => node "accumulate" (("input", .object input.members) :: code.members)
  | .collect input method =>
    node "collect" [("input", .object input.members), ("class_method_name", .optionalString method)]
  | .supplied dataSource => node "from" [("data_source", dataSource.toJson)]
  | .unknown => unknownNode
end

/-- A rule as an object. -/
def Rule.toJson (r : Rule) : Json :=
  .object [("name", .string r.name), ("salience", .int r.salience), ("line", .nat r.line),
    ("lhs", .array (elementsToJson r.lhs)), ("consequence", .string r.consequence)]

/-- A package as an object. -/
def Package.toJson (p : Package) : Json :=
  .object [("name", .string p.name), ("rules", Json.list Rule.toJson p.rules)]

end RuleBase.Ast

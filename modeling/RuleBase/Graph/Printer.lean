import RuleBase.Ast.Printer
import RuleBase.Graph.Basic

/-!
# Graphs as documents

Graphs as JSON values: all components, and the possibilities of patterns and rules. The members of
a component start with its number, its parent, its place and its type; then comes what its kind
holds.

* `Literal.toJson`, `Operator.toJson`;
* `Graph.Kind.members`, `Graph.Component.toJson`;
* `Graph.toJson`.
-/

namespace RuleBase

/-- A literal with its type; null has no value. -/
def Literal.toJson : Literal → Json
  | .null => .object [("type", .string "null")]
  | .int n => .object [("type", .string "int"), ("value", .int n)]
  | .decimal d => .object [("type", .string "decimal"), ("value", .string d.display)]
  | .date d => .object [("type", .string "date"), ("value", .string d.iso)]
  | .bool b => .object [("type", .string "boolean"), ("value", .bool b)]
  | .text s => .object [("type", .string "text"), ("value", .string s)]

/-- An operator with its parts. -/
def Operator.toJson (o : Operator) : Json :=
  .object [("evaluator", .string o.evaluator.name), ("negated", .bool o.negated)]

namespace Graph

/-- The number of a component that may be absent. -/
def optionalId : Option ComponentId → Json := Json.ofOption Json.nat

/-- A type of components that may be absent. -/
def optionalType : Option ComponentType → Json := Json.ofOption fun t => .string t.name

/-- The members of an operand. -/
def Operand.members : Operand → List (String × Json)
  | .literal text value =>
    [("restriction", .string "literal"), ("text", .optionalString text), ("value", value.toJson)]
  | .var id name =>
    [("restriction", .string "variable"), ("variable", .nat id),
      ("variable_name", .string name)]
  | .returnValue content declarations method =>
    [("restriction", .string "return_value"), ("content", .string content),
      ("declarations", .list .string declarations),
      ("class_method_name", .optionalString method)]
  | .qualified id name path =>
    [("restriction", .string "qualified_identifier"), ("variable", .nat id),
      ("variable_name", .string name), ("variable_path", .string path)]

/-- The members of a pattern. -/
def Pattern.members (p : Pattern) : List (String × Json) :=
  [("rule", .nat p.rule), ("rule_name", .string p.ruleName), ("class", .nat p.factClass),
    ("name", .string p.name), ("identifier", .optionalString p.identifier),
    ("is_not", .bool p.isNot), ("is_exists", .bool p.isExists), ("is_forall", .bool p.isForall),
    ("source", optionalId (p.source.map (·.id))),
    ("source_type", optionalType (p.source.map (·.type)))]

/-- The members of a restriction. -/
def Restriction.members (r : Restriction) : List (String × Json) :=
  [("rule", .nat r.rule), ("rule_name", .string r.ruleName), ("pattern", .nat r.pattern),
    ("pattern_is_not", .bool r.patternIsNot), ("constraint", .nat r.constraint),
    ("field", .nat r.field), ("operator", r.operator.toJson)] ++ r.operand.members

/-- The members of a condition in code. -/
def Expression.members (e : Expression) : List (String × Json) :=
  [("rule", .nat e.rule), ("rule_name", .string e.ruleName), ("content", .string e.content),
    ("class_method_name", .optionalString e.classMethodName)]

/-- What a kind of component holds. -/
def Kind.members : Kind → List (String × Json)
  | .package p => [("name", .string p.name)]
  | .rule r =>
    [("name", .string r.name), ("salience", .int r.salience), ("line", .nat r.line),
      ("package", .nat r.package), ("consequence", optionalId r.consequence)]
  | .pattern p => p.members
  | .constraint c =>
    [("rule", .nat c.rule), ("pattern", .nat c.pattern),
      ("pattern_is_not", .bool c.patternIsNot), ("field", .nat c.field),
      ("field_name", .string c.fieldName)]
  | .restriction r => r.members
  | .var v =>
    [("rule", .nat v.rule), ("rule_name", .string v.ruleName), ("name", .string v.name),
      ("object_type", .string v.objectType.name), ("object_id", optionalId v.objectId),
      ("object_name", .string v.objectName)]
  | .factClass name => [("name", .string name)]
  | .field f =>
    [("class", .nat f.factClass), ("class_name", .string f.className),
      ("name", .string f.name), ("line", .nat f.line),
      ("field_type", .string f.fieldType.name)]
  | .consequence c =>
    [("rule", .nat c.rule), ("rule_name", .string c.ruleName), ("text", .string c.text)]
  | .operator connective => [("connective", .string connective.keyword)]
  | .eval e => e.members
  | .predicate e => e.members
  | .accumulate input code => ("input_pattern", optionalId input) :: code.members
  | .collect input method =>
    [("input_pattern", optionalId input), ("class_method_name", .optionalString method)]
  | .supply dataSource =>
    [("data_source", optionalId (dataSource.map (·.id))),
      ("data_source_type", optionalType (dataSource.map (·.type)))]
  | .fieldAccess name argument =>
    [("field_name", .string name), ("argument", .optionalString argument)]
  | .methodAccess name arguments =>
    [("method_name", .string name), ("arguments", .string arguments)]
  | .functionCall name arguments => [("name", .string name), ("arguments", .string arguments)]
  | .accessor name => [("variable_name", .string name)]

/-- A component as an object. -/
def Component.toJson (c : Component) : Json :=
  .object ([("id", .nat c.id), ("parent", optionalId c.parent),
    ("order_number", .nat c.orderNumber), ("type", .string c.kind.type.name)] ++
    c.kind.members)

/-- A possibility of a pattern as an object. -/
def PatternPossibility.toJson (p : PatternPossibility) : Json :=
  .object [("id", .nat p.id), ("rule", .nat p.rule), ("pattern", .nat p.pattern),
    ("restrictions", .nats p.restrictions)]

/-- A possibility of a rule as an object. -/
def RulePossibility.toJson (p : RulePossibility) : Json :=
  .object [("id", .nat p.id), ("rule", .nat p.rule), ("patterns", .nats p.patterns)]

/-- A graph as an object. -/
def toJson (g : Graph) : Json :=
  .object [("components", .list Component.toJson g.components),
    ("pattern_possibilities", .list PatternPossibility.toJson g.patternPossibilities),
    ("rule_possibilities", .list RulePossibility.toJson g.rulePossibilities)]

end Graph

end RuleBase

import RuleBase.Ast.Basic
import RuleBase.Json.Reader

/-!
# Reading rule bases

A document holds one package or a list of them. Objects may hold further members, which are
passed over; a member that is known must not be given twice. An object may also be written as the
array of its members' values in their order, and the kind of a node by its number. Nodes of
another kind are read as unknown ones.

* `Fields`, `Fields.ofJson?`, `Fields.ofNode?`: the members that a value or a node gives;
* `Restriction.ofJson?`, `Invoker.ofJson?`, `Element.ofJson?`, `Pattern.ofJson?`, `Source.ofJson?`,
  `Rule.ofJson?`, `Package.ofJson?`: declarations, with a bound on their nesting;
* `DocumentError`, `readDocument`.
-/

namespace RuleBase.Ast

/-! ## Members -/

/-- The known members that a value gives. -/
abbrev Fields : Type := List (String × Json)

namespace Fields

/-- The members of an object, of which no known one may be given twice, or the values of an array
in the order of the names. -/
def ofJson? (names : List String) : Json → Option Fields
  | .object members =>
    let known := members.filter fun m => names.contains m.1
    if (known.map Prod.fst).Nodup then some known else none
  | .array items => if items.length ≤ names.length then some (names.zip items) else none
  | _ => none

/-- A member that has to be there. -/
def required {α : Type} (fs : Fields) (name : String) (read : Json → Option α) : Option α :=
  (fs.lookup name).bind read

/-- A member that has a default. -/
def withDefault {α : Type} (fs : Fields) (name : String) (default : α) (read : Json → Option α) :
    Option α :=
  match fs.lookup name with
  | none => some default
  | some j => read j

/-- A member that may be absent or null. -/
def nullable {α : Type} (fs : Fields) (name : String) (read : Json → Option α) :
    Option (Option α) :=
  match fs.lookup name with
  | none | some .null => some none
  | some j => (read j).map some

end Fields

/-- The kinds of a node and the members of each, in order. -/
abbrev Shapes : Type := List (String × List String)

/-- The kind that a tag names or numbers: none if it is not known, and a failure if the value
cannot be a tag. -/
def kindOf? (shapes : Shapes) : Json → Option (Option (String × List String))
  | .string name => some (shapes.find? (·.1 == name))
  | .int n => if 0 ≤ n ∧ n < 18446744073709551616 then some shapes[n.toNat]? else none
  | _ => none

/-- The kind of a node and its members; the kind is empty if it is not known. -/
def Fields.ofNode? (shapes : Shapes) : Json → Option (String × Fields)
  | .object members => do
    match members.filter (·.1 == "kind") with
    | [(_, tag)] =>
      match ← kindOf? shapes tag with
      | none => return ("", [])
      | some (kind, names) => return (kind, ← Fields.ofJson? names (.object members))
    | _ => none
  | .array (tag :: items) => do
    match ← kindOf? shapes tag with
    | none => if items.isEmpty then return ("", []) else none
    | some (kind, names) => return (kind, ← Fields.ofJson? names (.array items))
  | _ => none

/-! ## Simple values -/

/-- A string. -/
def string? : Json → Option String
  | .string s => some s
  | _ => none

/-- A truth value. -/
def bool? : Json → Option Bool
  | .bool b => some b
  | _ => none

/-- A line number, of 64 bits. -/
def line? : Json → Option Nat
  | .int n => if 0 ≤ n ∧ n < 18446744073709551616 then some n.toNat else none
  | _ => none

/-- A salience, of 32 bits. -/
def salience? : Json → Option Int
  | .int n => if -2147483648 ≤ n ∧ n ≤ 2147483647 then some n else none
  | _ => none

/-- A list of values of one kind. -/
def list? {α : Type} (read : Json → Option α) : Json → Option (List α)
  | .array items => items.mapM read
  | _ => none

/-- A connective: its word, or an object with that word as the one name and nothing below. -/
def connective? : Json → Option Connective
  | .string word => Connective.ofKeyword? word
  | .object [(word, .null)] | .object [(word, .object [])] => Connective.ofKeyword? word
  | _ => none

/-! ## Restrictions and invokers -/

/-- The kinds of restrictions. -/
def Restriction.shapes : Shapes :=
  [("literal", ["evaluator", "negated", "text"]),
    ("variable", ["evaluator", "negated", "identifier"]),
    ("return_value", ["evaluator", "negated", "content", "declarations", "class_method_name"]),
    ("qualified_identifier", ["evaluator", "negated", "text"]),
    ("connective", ["connective", "restrictions"])]

/-- A comparison with an operand. -/
def comparison? (fs : Fields) (operand : Operand) : Option Restriction := do
  return .comparison (← fs.required "evaluator" string?) (← fs.withDefault "negated" false bool?)
    operand

/-- A restriction, nested at most so deep. -/
def Restriction.ofJson? : Nat → Json → Option Restriction
  | 0, _ => none
  | bound + 1, j => do
    let (kind, fs) ← Fields.ofNode? shapes j
    match kind with
    | "literal" => comparison? fs (.literal (← fs.nullable "text" string?))
    | "variable" => comparison? fs (.var (← fs.required "identifier" string?))
    | "return_value" =>
      comparison? fs (.returnValue (← fs.required "content" string?)
        (← fs.withDefault "declarations" [] (list? string?))
        (← fs.nullable "class_method_name" string?))
    | "qualified_identifier" => comparison? fs (.qualified (← fs.required "text" string?))
    | "connective" =>
      return .group (← fs.required "connective" connective?)
        (← fs.withDefault "restrictions" [] (list? (ofJson? bound)))
    | _ => return .unknown

/-- The kinds of invokers. -/
def Invoker.shapes : Shapes :=
  [("field_access", ["field_name", "argument"]),
    ("method_access", ["method_name", "arguments"]),
    ("function_call", ["name", "arguments"]),
    ("accessor", ["variable_name", "invokers"])]

/-- An invoker, nested at most so deep. -/
def Invoker.ofJson? : Nat → Json → Option Invoker
  | 0, _ => none
  | bound + 1, j => do
    let (kind, fs) ← Fields.ofNode? shapes j
    match kind with
    | "field_access" =>
      return .fieldAccess (← fs.required "field_name" string?) (← fs.nullable "argument" string?)
    | "method_access" =>
      return .methodAccess (← fs.required "method_name" string?)
        (← fs.withDefault "arguments" "" string?)
    | "function_call" =>
      return .functionCall (← fs.required "name" string?) (← fs.withDefault "arguments" "" string?)
    | "accessor" =>
      return .accessor (← fs.required "variable_name" string?)
        (← fs.withDefault "invokers" [] (list? (ofJson? bound)))
    | _ => return .unknown

/-! ## Elements -/

/-- The members of patterns. -/
def Pattern.names : List String := ["object_type", "identifier", "source", "constraints", "line"]

/-- The kinds of elements. -/
def Element.shapes : Shapes :=
  [("pattern", Pattern.names), ("and", ["descrs"]), ("or", ["descrs"]), ("not", ["descrs"]),
    ("exists", ["descrs"]), ("forall", ["descrs"]), ("eval", ["content", "class_method_name"]),
    ("field_constraint", ["field_name", "restrictions", "line"]),
    ("field_binding", ["identifier", "field_name", "line"]),
    ("predicate", ["content", "class_method_name"])]

/-- The members of the code of an accumulation. -/
def Accumulation.names : List String :=
  ["init_code", "action_code", "reverse_code", "result_code", "class_name", "external_function",
    "function_identifier", "expression"]

/-- The kinds of sources. -/
def Source.shapes : Shapes :=
  [("accumulate", "input" :: Accumulation.names), ("collect", ["input", "class_method_name"]),
    ("from", ["data_source"])]

/-- The code of an accumulation. -/
def Accumulation.ofFields? (fs : Fields) : Option Accumulation := do
  return {
    initCode := ← fs.nullable "init_code" string?
    actionCode := ← fs.nullable "action_code" string?
    reverseCode := ← fs.nullable "reverse_code" string?
    resultCode := ← fs.nullable "result_code" string?
    className := ← fs.nullable "class_name" string?
    externalFunction := ← fs.withDefault "external_function" false bool?
    functionIdentifier := ← fs.nullable "function_identifier" string?
    expression := ← fs.nullable "expression" string? }

/-- A pattern, given how its parts are read. -/
def Pattern.ofFields? (element? : Json → Option Element) (source? : Json → Option Source)
    (fs : Fields) : Option Pattern := do
  return .mk (← fs.required "object_type" string?) (← fs.nullable "identifier" string?)
    (← fs.nullable "source" source?) (← fs.withDefault "constraints" [] (list? element?))
    (← fs.withDefault "line" 0 line?)

mutual
/-- An element, nested at most so deep. -/
def Element.ofJson? : Nat → Json → Option Element
  | 0, _ => none
  | bound + 1, j => do
    let (kind, fs) ← Fields.ofNode? Element.shapes j
    let elements := fs.withDefault "descrs" [] (list? (Element.ofJson? bound))
    match kind with
    | "pattern" =>
      return .pattern (← Pattern.ofFields? (Element.ofJson? bound) (Source.ofJson? bound) fs)
    | "and" => return .group .and (← elements)
    | "or" => return .group .or (← elements)
    | "not" => return .quantified .negated (← elements)
    | "exists" => return .quantified .existential (← elements)
    | "forall" => return .quantified .universal (← elements)
    | "eval" =>
      return .eval (← fs.required "content" string?) (← fs.nullable "class_method_name" string?)
    | "field_constraint" =>
      return .constraint (← fs.required "field_name" string?)
        (← fs.withDefault "restrictions" [] (list? (Restriction.ofJson? bound)))
        (← fs.withDefault "line" 0 line?)
    | "field_binding" =>
      return .binding (← fs.required "identifier" string?) (← fs.required "field_name" string?)
        (← fs.withDefault "line" 0 line?)
    | "predicate" =>
      return .predicate (← fs.required "content" string?)
        (← fs.nullable "class_method_name" string?)
    | _ => return .unknown

/-- A source, nested at most so deep. -/
def Source.ofJson? : Nat → Json → Option Source
  | 0, _ => none
  | bound + 1, j => do
    let (kind, fs) ← Fields.ofNode? Source.shapes j
    let pattern? := fun input => do
      Pattern.ofFields? (Element.ofJson? bound) (Source.ofJson? bound)
        (← Fields.ofJson? Pattern.names input)
    match kind with
    | "accumulate" =>
      return .accumulate (← fs.required "input" pattern?) (← Accumulation.ofFields? fs)
    | "collect" =>
      return .collect (← fs.required "input" pattern?) (← fs.nullable "class_method_name" string?)
    | "from" => return .supplied (← fs.required "data_source" (Invoker.ofJson? bound))
    | _ => return .unknown
end

/-! ## Documents -/

/-- A rule, nested at most so deep. -/
def Rule.ofJson? (bound : Nat) (j : Json) : Option Rule := do
  let fs ← Fields.ofJson? ["name", "salience", "line", "lhs", "consequence"] j
  return {
    name := ← fs.required "name" string?
    salience := ← fs.withDefault "salience" 0 salience?
    line := ← fs.withDefault "line" 0 line?
    lhs := ← fs.withDefault "lhs" [] (list? (Element.ofJson? bound))
    consequence := ← fs.withDefault "consequence" "" string? }

/-- A package, nested at most so deep. -/
def Package.ofJson? (bound : Nat) (j : Json) : Option Package := do
  let fs ← Fields.ofJson? ["name", "rules"] j
  return {
    name := ← fs.required "name" string?
    rules := ← fs.withDefault "rules" [] (list? (Rule.ofJson? bound)) }

/-- No document nests arrays and objects deeper. -/
def maxDocumentDepth : Nat := 127

/-- The packages of a document: a list of packages if the value can be read as one, and one
package otherwise. -/
def packagesOfJson? (j : Json) : Option (List Package) :=
  (list? (Package.ofJson? maxDocumentDepth) j).or
    ((Package.ofJson? maxDocumentDepth j).map ([·]))

/-- Why a text is no document. -/
inductive DocumentError where
  /-- The text ends too early. -/
  | truncated
  /-- The text is no JSON. -/
  | malformed
  /-- The value is neither a package nor a list of packages. -/
  | shape
  deriving DecidableEq

/-- The packages of the document that a text holds. The value is judged before anything that
follows it. -/
def readDocument (text : String) : Except DocumentError (List Package) :=
  match Json.value maxDocumentDepth text.toList with
  | .error .truncated => .error .truncated
  | .error .malformed => .error .malformed
  | .ok (j, rest) =>
    match packagesOfJson? j with
    | none => .error .shape
    | some packages => if Json.skipSpace rest = [] then .ok packages else .error .malformed

end RuleBase.Ast

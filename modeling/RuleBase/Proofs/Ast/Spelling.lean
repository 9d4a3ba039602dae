import Mathlib.Data.List.Basic
import RuleBase.Ast.Document
import RuleBase.Ast.Printer

/-!
# Spellings

A rule base has a full rendering, which writes out every member of every node. Other documents spell
the same rule base: members may come in any order, those that hold their default may be left out,
members that a node does not know may be added, a node of an unknown kind may have any kind that is
not known, and a single package may stand without a list.

* `Given`, `Written`: the members that an object has, all of them or in another order, with some
  left out or added; `IsObject`, `IsNode`, `IsUnknown`;
* **`Spelling`**: the spellings of a list of packages; **`spelling_list`**: the full rendering is
  one.
-/

namespace RuleBase.Ast

/-! ## Members -/

/-- A member that a node knows. -/
structure Slot where
  name : String
  /-- The values that tell its content. -/
  Tells : Json → Prop
  /-- It has a default and holds it. -/
  Omissible : Prop

namespace Slot

/-- A member without a default. -/
def required (name : String) (j : Json) : Slot := ⟨name, (· = j), False⟩

/-- A member with a default. -/
def withDefault (name : String) (default j : Json) : Slot := ⟨name, (· = j), j = default⟩

/-- A text that may be absent. -/
def optional (name : String) (text : Option String) : Slot :=
  withDefault name .null (.optionalString text)

/-- The line of a declaration. -/
def line (n : Nat) : Slot := withDefault "line" (.nat 0) (.nat n)

/-- Nodes in an array, which is empty by default. -/
def nodes {α : Type} (name : String) (as : List α) (Tells : List Json → Prop) : Slot :=
  ⟨name, fun j => ∃ items, j = .array items ∧ Tells items, as = []⟩

end Slot

/-- Members in the order of their slots, without some that hold their default. -/
inductive Given : List Slot → List (String × Json) → Prop
  | nil : Given [] []
  | tell {slot : Slot} {slots : List Slot} {j : Json} {members : List (String × Json)}
      (h : slot.Tells j) (rest : Given slots members) :
      Given (slot :: slots) ((slot.name, j) :: members)
  | skip {slot : Slot} {slots : List Slot} {members : List (String × Json)}
      (h : slot.Omissible) (rest : Given slots members) : Given (slot :: slots) members

/-- Members in any order, some of which may be unknown. -/
def Written (slots : List Slot) (members : List (String × Json)) : Prop :=
  ∃ given extra, members.Perm (given ++ extra) ∧ Given slots given ∧
    ∀ m ∈ extra, m.1 ∉ slots.map Slot.name

/-- An object with the members of some slots. -/
def IsObject (slots : List Slot) (j : Json) : Prop :=
  ∃ members, j = .object members ∧ Written slots members

/-- A node of a kind, with the members of some slots. -/
def IsNode (kind : String) (slots : List Slot) (j : Json) : Prop :=
  IsObject (.required "kind" (.string kind) :: slots) j

/-- A node of a kind that is not among the known ones. -/
def IsUnknown (shapes : Shapes) (j : Json) : Prop :=
  ∃ kind, kind ∉ shapes.map Prod.fst ∧ IsNode kind [] j

theorem Given.nodes {α : Type} {name : String} {as : List α} {Tells : List Json → Prop}
    {items : List Json} {slots : List Slot} {members : List (String × Json)} (h : Tells items)
    (rest : Given slots members) :
    Given (.nodes name as Tells :: slots) ((name, .array items) :: members) :=
  .tell ⟨items, rfl, h⟩ rest

theorem Given.isObject {slots : List Slot} {members : List (String × Json)}
    (h : Given slots members) : IsObject slots (.object members) :=
  ⟨members, rfl, members, [], by rw [List.append_nil], h, by simp⟩

theorem Given.isNode {kind : String} {slots : List Slot} {members : List (String × Json)}
    (h : Given slots members) : IsNode kind slots (node kind members) :=
  (Given.tell rfl h).isObject

theorem isUnknown_unknownNode {shapes : Shapes} (h : "unknown" ∉ shapes.map Prod.fst) :
    IsUnknown shapes unknownNode :=
  ⟨"unknown", h, Given.nil.isNode⟩

/-! ## Restrictions and invokers -/

/-- The kind of a comparison with an operand. -/
def Operand.kind : Operand → String
  | .literal _ => "literal"
  | .var _ => "variable"
  | .returnValue .. => "return_value"
  | .qualified _ => "qualified_identifier"

/-- The members that tell an operand. -/
def Operand.slots : Operand → List Slot
  | .literal text => [.optional "text" text]
  | .var identifier => [.required "identifier" (.string identifier)]
  | .returnValue content declarations method =>
    [.required "content" (.string content),
      .withDefault "declarations" (.array []) (Json.list .string declarations),
      .optional "class_method_name" method]
  | .qualified text => [.required "text" (.string text)]

mutual
/-- The spellings of a restriction. -/
def Restriction.Spelled : Restriction → Json → Prop
  | .comparison evaluator negated operand =>
    IsNode operand.kind (.required "evaluator" (.string evaluator) ::
      .withDefault "negated" (.bool false) (.bool negated) :: operand.slots)
  | .group connective restrictions =>
    IsNode "connective" [.required "connective" (.string connective.keyword),
      .nodes "restrictions" restrictions (restrictionsSpelled restrictions)]
  | .unknown => IsUnknown Restriction.shapes

/-- The spellings of restrictions, one by one. -/
def restrictionsSpelled : List Restriction → List Json → Prop
  | [], items => items = []
  | r :: rest, items =>
    ∃ j others, items = j :: others ∧ r.Spelled j ∧ restrictionsSpelled rest others
end

mutual
/-- The spellings of an invoker. -/
def Invoker.Spelled : Invoker → Json → Prop
  | .fieldAccess name argument =>
    IsNode "field_access" [.required "field_name" (.string name), .optional "argument" argument]
  | .methodAccess name arguments =>
    IsNode "method_access" [.required "method_name" (.string name),
      .withDefault "arguments" (.string "") (.string arguments)]
  | .functionCall name arguments =>
    IsNode "function_call" [.required "name" (.string name),
      .withDefault "arguments" (.string "") (.string arguments)]
  | .accessor name invokers =>
    IsNode "accessor" [.required "variable_name" (.string name),
      .nodes "invokers" invokers (invokersSpelled invokers)]
  | .unknown => IsUnknown Invoker.shapes

/-- The spellings of invokers, one by one. -/
def invokersSpelled : List Invoker → List Json → Prop
  | [], items => items = []
  | i :: rest, items => ∃ j others, items = j :: others ∧ i.Spelled j ∧ invokersSpelled rest others
end

/-! ## Elements -/

/-- The members that tell the code of an accumulation. -/
def Accumulation.slots (a : Accumulation) : List Slot :=
  [.optional "init_code" a.initCode, .optional "action_code" a.actionCode,
    .optional "reverse_code" a.reverseCode, .optional "result_code" a.resultCode,
    .optional "class_name" a.className,
    .withDefault "external_function" (.bool false) (.bool a.externalFunction),
    .optional "function_identifier" a.functionIdentifier, .optional "expression" a.expression]

mutual
/-- The spellings of an element. -/
def Element.Spelled : Element → Json → Prop
  | .pattern p => IsNode "pattern" p.slots
  | .group connective elements =>
    IsNode connective.keyword [.nodes "descrs" elements (elementsSpelled elements)]
  | .quantified quantifier elements =>
    IsNode (quantifierKind quantifier) [.nodes "descrs" elements (elementsSpelled elements)]
  | .eval content method =>
    IsNode "eval" [.required "content" (.string content), .optional "class_method_name" method]
  | .constraint fieldName restrictions line =>
    IsNode "field_constraint" [.required "field_name" (.string fieldName),
      .nodes "restrictions" restrictions (restrictionsSpelled restrictions), .line line]
  | .binding identifier fieldName line =>
    IsNode "field_binding" [.required "identifier" (.string identifier),
      .required "field_name" (.string fieldName), .line line]
  | .predicate content method =>
    IsNode "predicate" [.required "content" (.string content),
      .optional "class_method_name" method]
  | .unknown => IsUnknown Element.shapes

/-- The spellings of elements, one by one. -/
def elementsSpelled : List Element → List Json → Prop
  | [], items => items = []
  | e :: rest, items => ∃ j others, items = j :: others ∧ e.Spelled j ∧ elementsSpelled rest others

/-- The members that tell a pattern. -/
def Pattern.slots : Pattern → List Slot
  | .mk objectType identifier source constraints line =>
    [.required "object_type" (.string objectType), .optional "identifier" identifier,
      ⟨"source", match source with | none => (· = .null) | some s => s.Spelled, source = none⟩,
      .nodes "constraints" constraints (elementsSpelled constraints), .line line]

/-- The spellings of a source. -/
def Source.Spelled : Source → Json → Prop
  | .accumulate input code =>
    IsNode "accumulate" (⟨"input", IsObject input.slots, False⟩ :: code.slots)
  | .collect input method =>
    IsNode "collect" [⟨"input", IsObject input.slots, False⟩, .optional "class_method_name" method]
  | .supplied dataSource => IsNode "from" [⟨"data_source", dataSource.Spelled, False⟩]
  | .unknown => IsUnknown Source.shapes
end

/-! ## Packages -/

/-- The spellings of a rule. -/
def Rule.Spelled (r : Rule) : Json → Prop :=
  IsObject [.required "name" (.string r.name), .withDefault "salience" (.int 0) (.int r.salience),
    .line r.line, .nodes "lhs" r.lhs (elementsSpelled r.lhs),
    .withDefault "consequence" (.string "") (.string r.consequence)]

/-- The spellings of a package. -/
def Package.Spelled (p : Package) : Json → Prop :=
  IsObject [.required "name" (.string p.name),
    .nodes "rules" p.rules (List.Forall₂ Rule.Spelled p.rules)]

/-- **The spellings of a list of packages.** -/
def Spelling (packages : List Package) (j : Json) : Prop :=
  (∃ items, j = .array items ∧ List.Forall₂ Package.Spelled packages items) ∨
    ∃ p, packages = [p] ∧ p.Spelled j

/-! ## Ranges -/

/-- Lines stay below this bound. -/
def lineBound : Nat := 18446744073709551616

mutual
/-- The lines of an element are within their range. -/
def Element.InRange : Element → Prop
  | .pattern p => p.InRange
  | .group _ elements => ∀ e ∈ elements, e.InRange
  | .quantified _ elements => ∀ e ∈ elements, e.InRange
  | .constraint _ _ line => line < lineBound
  | .binding _ _ line => line < lineBound
  | .eval .. => True
  | .predicate .. => True
  | .unknown => True

@[inherit_doc Element.InRange]
def Pattern.InRange : Pattern → Prop
  | .mk _ _ source constraints line =>
    (match source with
      | none => True
      | some source => source.InRange) ∧
    (∀ e ∈ constraints, e.InRange) ∧ line < lineBound

@[inherit_doc Element.InRange]
def Source.InRange : Source → Prop
  | .accumulate input _ => input.InRange
  | .collect input _ => input.InRange
  | .supplied _ => True
  | .unknown => True
end

/-- The numbers of a rule are within their ranges. -/
structure Rule.InRange (r : Rule) : Prop where
  salience : -2147483648 ≤ r.salience ∧ r.salience ≤ 2147483647
  line : r.line < lineBound
  lhs : ∀ e ∈ r.lhs, e.InRange

/-- The numbers of a package are within their ranges. -/
def Package.InRange (p : Package) : Prop := ∀ r ∈ p.rules, r.InRange

/-! ## Full renderings -/

theorem Operand.given_members (evaluator : String) (negated : Bool) (operand : Operand) :
    IsNode operand.kind (.required "evaluator" (.string evaluator) ::
      .withDefault "negated" (.bool false) (.bool negated) :: operand.slots)
      (comparisonToJson evaluator negated operand) := by
  cases operand with
  | literal text => exact (Given.tell rfl (.tell rfl (.tell rfl .nil))).isNode
  | var identifier => exact (Given.tell rfl (.tell rfl (.tell rfl .nil))).isNode
  | returnValue content declarations method =>
    exact (Given.tell rfl (.tell rfl (.tell rfl (.tell rfl (.tell rfl .nil))))).isNode
  | qualified text => exact (Given.tell rfl (.tell rfl (.tell rfl .nil))).isNode

mutual
theorem Restriction.spelled_toJson (r : Restriction) : r.Spelled r.toJson := by
  cases r with
  | comparison evaluator negated operand =>
    exact Operand.given_members evaluator negated operand
  | group connective restrictions =>
    exact (Given.tell rfl
      (.nodes (restrictionsSpelled_toJson restrictions) .nil)).isNode
  | unknown => exact isUnknown_unknownNode (by decide)

theorem restrictionsSpelled_toJson (rs : List Restriction) :
    restrictionsSpelled rs (restrictionsToJson rs) := by
  cases rs with
  | nil => rfl
  | cons r rest => exact ⟨_, _, rfl, r.spelled_toJson, restrictionsSpelled_toJson rest⟩
end

mutual
theorem Invoker.spelled_toJson (i : Invoker) : i.Spelled i.toJson := by
  cases i with
  | fieldAccess name argument => exact (Given.tell rfl (.tell rfl .nil)).isNode
  | methodAccess name arguments => exact (Given.tell rfl (.tell rfl .nil)).isNode
  | functionCall name arguments => exact (Given.tell rfl (.tell rfl .nil)).isNode
  | accessor name invokers =>
    exact (Given.tell rfl (.nodes (invokersSpelled_toJson invokers) .nil)).isNode
  | unknown => exact isUnknown_unknownNode (by decide)

theorem invokersSpelled_toJson (is : List Invoker) : invokersSpelled is (invokersToJson is) := by
  cases is with
  | nil => rfl
  | cons i rest => exact ⟨_, _, rfl, i.spelled_toJson, invokersSpelled_toJson rest⟩
end

theorem Accumulation.given_members (a : Accumulation) : Given a.slots a.members :=
  .tell rfl (.tell rfl (.tell rfl (.tell rfl (.tell rfl (.tell rfl (.tell rfl (.tell rfl .nil)))))))

mutual
theorem Element.spelled_toJson (e : Element) : e.Spelled e.toJson := by
  match e with
  | .pattern p => exact p.given_members.isNode
  | .group connective elements =>
    exact (Given.nodes (elementsSpelled_toJson elements) .nil).isNode
  | .quantified quantifier elements =>
    exact (Given.nodes (elementsSpelled_toJson elements) .nil).isNode
  | .eval content method => exact (Given.tell rfl (.tell rfl .nil)).isNode
  | .constraint fieldName restrictions line =>
    exact (Given.tell rfl (.nodes (restrictionsSpelled_toJson restrictions)
      (.tell rfl .nil))).isNode
  | .binding identifier fieldName line =>
    exact (Given.tell rfl (.tell rfl (.tell rfl .nil))).isNode
  | .predicate content method => exact (Given.tell rfl (.tell rfl .nil)).isNode
  | .unknown => exact isUnknown_unknownNode (by decide)

theorem elementsSpelled_toJson (es : List Element) : elementsSpelled es (elementsToJson es) := by
  match es with
  | [] => rfl
  | e :: rest => exact ⟨_, _, rfl, e.spelled_toJson, elementsSpelled_toJson rest⟩

theorem Pattern.given_members (p : Pattern) : Given p.slots p.members := by
  match p with
  | .mk objectType identifier none constraints line =>
    exact .tell rfl (.tell rfl (.tell rfl (.nodes (elementsSpelled_toJson constraints)
      (.tell rfl .nil))))
  | .mk objectType identifier (some source) constraints line =>
    exact .tell rfl (.tell rfl (.tell source.spelled_toJson
      (.nodes (elementsSpelled_toJson constraints) (.tell rfl .nil))))

theorem Source.spelled_toJson (s : Source) : s.Spelled s.toJson := by
  match s with
  | .accumulate input code =>
    exact (Given.tell input.given_members.isObject code.given_members).isNode
  | .collect input method =>
    exact (Given.tell input.given_members.isObject (.tell rfl .nil)).isNode
  | .supplied dataSource => exact (Given.tell dataSource.spelled_toJson .nil).isNode
  | .unknown => exact isUnknown_unknownNode (by decide)
end

theorem Rule.spelled_toJson (r : Rule) : r.Spelled r.toJson :=
  (Given.tell rfl (.tell rfl (.tell rfl (.nodes (elementsSpelled_toJson r.lhs)
    (.tell rfl .nil))))).isObject

theorem forall₂_map {α : Type} {Tells : α → Json → Prop} {toJson : α → Json}
    (h : ∀ a, Tells a (toJson a)) (as : List α) : List.Forall₂ Tells as (as.map toJson) := by
  induction as with
  | nil => exact .nil
  | cons a as ih => exact .cons (h a) ih

theorem Package.spelled_toJson (p : Package) : p.Spelled p.toJson :=
  (Given.tell rfl (.nodes (forall₂_map Rule.spelled_toJson p.rules) .nil)).isObject

/-- **The full rendering is a spelling.** -/
theorem spelling_list (packages : List Package) :
    Spelling packages (Json.list Package.toJson packages) :=
  .inl ⟨_, rfl, forall₂_map Package.spelled_toJson packages⟩

end RuleBase.Ast

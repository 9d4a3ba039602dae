/-!
# JSON values

The values of JSON documents. Members of an object keep their order and may repeat a name;
integers are exact, and any other numeral is kept as it was written.

* `Json`, `Json.ofOption`, `Json.optionalString`;
* `Json.depth`: how many arrays and objects are nested in a value.
-/

namespace RuleBase

/-- A JSON value. -/
inductive Json where
  | null
  | bool (b : Bool)
  | int (n : Int)
  /-- A numeral with a fraction or an exponent, or a negative zero. -/
  | real (numeral : String)
  | string (s : String)
  | array (items : List Json)
  | object (members : List (String × Json))

namespace Json

/-- A value that may be absent; `null` stands for one that is. -/
def ofOption {α : Type} (f : α → Json) : Option α → Json
  | none => .null
  | some a => f a

/-- A string that may be absent. -/
def optionalString : Option String → Json := ofOption .string

/-- A natural number. -/
def nat (n : Nat) : Json := .int n

/-- A list of natural numbers. -/
def nats (ns : List Nat) : Json := .array (ns.map nat)

/-- A list of values written by one function. -/
def list {α : Type} (f : α → Json) (items : List α) : Json := .array (items.map f)

mutual
/-- How many arrays and objects are nested in a value. -/
def depth : Json → Nat
  | .array items => depthOfItems items + 1
  | .object members => depthOfMembers members + 1
  | _ => 0

@[inherit_doc depth]
def depthOfItems : List Json → Nat
  | [] => 0
  | item :: rest => max item.depth (depthOfItems rest)

@[inherit_doc depth]
def depthOfMembers : List (String × Json) → Nat
  | [] => 0
  | (_, value) :: rest => max value.depth (depthOfMembers rest)
end

end Json

end RuleBase

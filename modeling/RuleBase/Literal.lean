import RuleBase.Date
import RuleBase.Decimal

/-!
# Literals and field types

The literal that a field is compared with is typed by its text: an integer of 64 bits, a decimal,
a date, a truth value, and a text if it is none of these. The types of the literals and variables
that a field is compared with settle the type of the field.

* `FieldType`, `FieldType.refine`: a field's type after one more comparison;
* `Literal`, `Literal.infer`, `Literal.fieldType`.
-/

namespace RuleBase

/-- The type of the values that a field holds. -/
inductive FieldType where
  | unknown
  | null
  | bool
  | string
  | int
  | decimal
  | date
  | var
  deriving DecidableEq

namespace FieldType

/-- The name of a field type. -/
def name : FieldType → String
  | .unknown => "unknown"
  | .null => "null"
  | .bool => "boolean"
  | .string => "string"
  | .int => "int"
  | .decimal => "decimal"
  | .date => "date"
  | .var => "variable"

/-- All field types. -/
def all : List FieldType := [.unknown, .null, .bool, .string, .int, .decimal, .date, .var]

/-- The field type with the given name. -/
def ofName? (name : String) : Option FieldType := all.find? (·.name == name)

/-- Whether a further comparison may still settle the type. -/
def isRefinable (t : FieldType) : Bool := t == .unknown || t == .null

/-- The type of a field after a comparison with a value of type `t`. -/
def refine (current t : FieldType) : FieldType := if current.isRefinable then t else current

theorem refine_of_isRefinable {current : FieldType} (t : FieldType) (h : current.isRefinable) :
    current.refine t = t := by
  simp [refine, h]

theorem refine_of_not_isRefinable {current : FieldType} (t : FieldType)
    (h : current.isRefinable = false) : current.refine t = current := by
  simp [refine, h]

end FieldType

/-- A value that a field is compared with. -/
inductive Literal where
  | null
  | int (n : Int)
  | decimal (d : Decimal)
  | date (d : Date)
  | bool (b : Bool)
  | text (s : String)
  deriving DecidableEq

namespace Literal

/-- The integers of 64 bits. -/
def int64? (digits : List Char) : Option Int :=
  (Text.integer? digits).filter fun n => -9223372036854775808 ≤ n ∧ n ≤ 9223372036854775807

/-- The literal that a text denotes. -/
def ofText (written : String) : Literal :=
  match int64? written.toList with
  | some n => .int n
  | none =>
    match Decimal.read? written.toList with
    | some d => .decimal d
    | none =>
      match Date.read? written.toList with
      | some d => .date d
      | none =>
        if written = "true" then .bool true
        else if written = "false" then .bool false
        else .text written

/-- The literal that a text denotes if there is one; without a text it is null. -/
def infer : Option String → Literal
  | none => .null
  | some written => ofText written

/-- The type of a literal. -/
def fieldType : Literal → FieldType
  | .null => .null
  | .int _ => .int
  | .decimal _ => .decimal
  | .date _ => .date
  | .bool _ => .bool
  | .text _ => .string

/-- A literal as it is shown; texts stand in quotes as they are. -/
def display : Literal → String
  | .null => "null"
  | .int n => toString n
  | .decimal d => d.display
  | .date d => d.display
  | .bool b => if b then "true" else "false"
  | .text s => "\"" ++ s ++ "\""

end Literal

end RuleBase

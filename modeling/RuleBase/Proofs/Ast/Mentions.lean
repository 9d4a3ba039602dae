import RuleBase.Ast.Basic

/-!
# Mentions of fields

Constraints and bindings mention fields of the class of the pattern that they stand in, perhaps on a
line that is known. The mentions of a pattern come in reading order: what its source takes its facts
from comes before its own constraints.

* `Mention`, `Element.mentions`, `Pattern.mentions`, `Source.mentions`, `Rule.mentions`;
* `firstLine`: the first line that mentions of a field tell; `firstLine_append`.
-/

namespace RuleBase.Ast

/-- A field of a class is mentioned on a line, which is zero if it is not known. -/
structure Mention where
  className : String
  fieldName : String
  line : Nat
  deriving DecidableEq

/-! ## Reading order -/

mutual
/-- The mentions in an element that stands in a pattern of the given class. Outside of patterns no
field is mentioned. -/
def Element.mentions (className? : Option String) : Element → List Mention
  | .pattern p => p.mentions
  | .group _ elements => (elements.map fun e => e.mentions className?).flatten
  | .quantified _ elements => (elements.map fun e => e.mentions className?).flatten
  | .constraint fieldName _ line => className?.toList.map (⟨·, fieldName, line⟩)
  | .binding _ fieldName line => className?.toList.map (⟨·, fieldName, line⟩)
  | .eval .. | .predicate .. | .unknown => []

/-- The mentions in a pattern, those in its source first. -/
def Pattern.mentions : Pattern → List Mention
  | .mk objectType _ source constraints _ =>
    (match source with
      | none => []
      | some source => source.mentions) ++
    (constraints.map fun e => e.mentions (some objectType)).flatten

/-- The mentions in a source. -/
def Source.mentions : Source → List Mention
  | .accumulate input _ => input.mentions
  | .collect input _ => input.mentions
  | .supplied _ | .unknown => []
end

/-- The mentions in the condition of a rule. -/
def Rule.mentions (r : Rule) : List Mention := (r.lhs.map (Element.mentions none)).flatten

/-! ## Lines -/

/-- A mention is one of the field with the given name of the class with the given name. -/
def Mention.IsOf (m : Mention) (className fieldName : String) : Prop :=
  m.className = className ∧ m.fieldName = fieldName

instance (m : Mention) (className fieldName : String) : Decidable (m.IsOf className fieldName) :=
  inferInstanceAs (Decidable (_ ∧ _))

/-- The first line that is known from the mentions of a field, or zero. -/
def firstLine (className fieldName : String) (mentions : List Mention) : Nat :=
  (((mentions.filter (·.IsOf className fieldName)).map (·.line)).find? (· ≠ 0)).getD 0

variable {className fieldName : String} {ms ms' : List Mention}

theorem firstLine_append : firstLine className fieldName (ms ++ ms') =
    if firstLine className fieldName ms = 0 then firstLine className fieldName ms'
    else firstLine className fieldName ms := by
  have hor : ∀ o o' : Option Nat, (∀ line, o = some line → line ≠ 0) →
      (o.or o').getD 0 = if o.getD 0 = 0 then o'.getD 0 else o.getD 0 := by
    rintro (_ | line) o' h
    · rfl
    · simp [h line rfl]
  simp only [firstLine, List.filter_append, List.map_append, List.find?_append]
  exact hor _ _ fun line hline => by simpa using List.find?_some hline

theorem firstLine_singleton (m : Mention) : firstLine className fieldName [m] =
    if m.IsOf className fieldName then m.line else 0 := by
  by_cases hof : m.IsOf className fieldName
  · by_cases hline : m.line = 0 <;> simp [firstLine, hof, hline]
  · simp [firstLine, hof]

theorem firstLine_of_forall_not (h : ∀ m ∈ ms, ¬ m.IsOf className fieldName) :
    firstLine className fieldName ms = 0 := by
  rw [firstLine, List.filter_eq_nil_iff.mpr (by simpa using h)]
  rfl

end RuleBase.Ast

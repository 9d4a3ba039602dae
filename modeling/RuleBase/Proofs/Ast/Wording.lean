import RuleBase.Proofs.Ast.Formula
import RuleBase.Proofs.Ast.Outline
import RuleBase.Report.Possibilities

/-!
# The wording of rules

The table of possibilities that a rule should have, as it can be read off the rule. A comparison is
shown with the field that it stands under, and a pattern with one of the quantifiers around it,
those around the pattern that draws from it included.

* `Restriction.wording`, `Element.wording`: formulas over the texts of comparisons;
* `Occurrence`, `Element.occurrences`, `Pattern.occurrences`: formulas over patterns with the
  quantifiers around them;
* `Occurrence.texts`, `Rule.rows`: the possibilities of a pattern and of a rule as they are shown;
* **`Rule.possibilityTable`**: the table of a rule.
-/

namespace RuleBase

namespace Graph

/-- What an operand tells, as it is shown. -/
def Term.display : Term → String
  | .literal _ value => value.display
  | .var name => name
  | .returnValue content .. => "( " ++ content ++ " )"
  | .qualified name path => name ++ path

theorem Operand.display_term (o : Operand) : o.term.display = o.display := by cases o <;> rfl

end Graph

namespace Ast

open Condition

/-! ## Comparisons -/

/-- The operator of a comparison as it is shown; every comparison that is accepted has one. -/
def operatorText (symbol : String) (negated : Bool) : String :=
  ((Operator.determine? symbol negated).map Operator.display).getD symbol

/-- The formula of a restriction of the given field over the texts of its comparisons. -/
def Restriction.wording (field : String) : Restriction → Formula String
  | .comparison symbol negated operand =>
    .item (field ++ " " ++ (operatorText symbol negated ++ " " ++ operand.term.display))
  | .group connective restrictions => .group connective (restrictions.map (wording field))
  | .unknown => .list []

/-- The formula of an element over the texts of the comparisons of the pattern that it stands
in. -/
def Element.wording : Element → Formula String
  | .constraint field restrictions _ => .list (restrictions.map (Restriction.wording field))
  | .group connective elements => .group connective (elements.map wording)
  | .quantified _ elements => .list (elements.map wording)
  | .pattern _ => .list []
  | .eval .. => .list []
  | .binding .. => .list []
  | .predicate .. => .list []
  | .unknown => .list []

theorem map_wording_restriction (field : String) (r : Restriction) :
    (r.wording field).map (fun _ => ()) = r.formula := by
  match r with
  | .comparison .. => simp [Restriction.wording, Restriction.formula, Formula.map]
  | .group connective restrictions =>
    simp only [Restriction.wording, Restriction.formula, Formula.map, List.map_map]
    exact congrArg _ (List.map_congr_left fun r _ => map_wording_restriction field r)
  | .unknown => simp [Restriction.wording, Restriction.formula, Formula.map]

theorem map_wording (e : Element) : e.wording.map (fun _ => ()) = e.inPattern := by
  match e with
  | .constraint field restrictions _ =>
    simp only [Element.wording, Element.inPattern, Formula.map, List.map_map]
    exact congrArg _ (List.map_congr_left fun r _ => map_wording_restriction field r)
  | .group connective elements =>
    simp only [Element.wording, Element.inPattern, Formula.map, List.map_map]
    exact congrArg _ (List.map_congr_left fun e _ => map_wording e)
  | .quantified quantifier elements =>
    simp only [Element.wording, Element.inPattern, Formula.map, List.map_map]
    exact congrArg _ (List.map_congr_left fun e _ => map_wording e)
  | .pattern _ => simp [Element.wording, Element.inPattern, Formula.map]
  | .eval .. => simp [Element.wording, Element.inPattern, Formula.map]
  | .binding .. => simp [Element.wording, Element.inPattern, Formula.map]
  | .predicate .. => simp [Element.wording, Element.inPattern, Formula.map]
  | .unknown => simp [Element.wording, Element.inPattern, Formula.map]

/-! ## Patterns -/

/-- The class of the facts of a pattern. -/
def Pattern.objectType : Pattern → String
  | .mk objectType _ _ _ _ => objectType

/-- A pattern in a condition, with the quantifiers around it. -/
structure Occurrence where
  pattern : Pattern
  around : List Quantifier

/-- Whether a quantifier stands around a pattern. -/
def Occurrence.isUnder (o : Occurrence) (q : Quantifier) : Bool := decide (q ∈ o.around)

mutual
/-- The formula of an element over the patterns of the rule, under some quantifiers. -/
def Element.occurrences (around : List Quantifier) : Element → Formula Occurrence
  | .pattern p => p.occurrences around
  | .group connective elements =>
    .group connective (elements.map fun e => e.occurrences around)
  | .quantified q elements => .list (elements.map fun e => e.occurrences (q :: around))
  | .eval .. => .list []
  | .constraint .. => .list []
  | .binding .. => .list []
  | .predicate .. => .list []
  | .unknown => .list []

/-- The formula of a pattern, which is under the same quantifiers as what it is drawn from. -/
def Pattern.occurrences (around : List Quantifier) : Pattern → Formula Occurrence
  | .mk objectType identifier source constraints line =>
    .drawnFrom ⟨.mk objectType identifier source constraints line, around⟩ <|
      match source with
      | none => none
      | some source => source.occurrences? around

/-- The formula of the pattern that a source takes its facts from, if there is one. -/
def Source.occurrences? (around : List Quantifier) : Source → Option (Formula Occurrence)
  | .accumulate input _ => some (input.occurrences around)
  | .collect input _ => some (input.occurrences around)
  | .supplied _ => none
  | .unknown => none
end

theorem occurrences_mk (around : List Quantifier) (objectType : String)
    (identifier : Option String) (source : Option Source) (constraints : List Element)
    (line : Nat) :
    (Pattern.mk objectType identifier source constraints line).occurrences around =
      .drawnFrom ⟨.mk objectType identifier source constraints line, around⟩
        (source.bind (·.occurrences? around)) := by
  cases source <;> rw [Pattern.occurrences] <;> rfl

mutual
theorem map_occurrences (around : List Quantifier) (e : Element) :
    (e.occurrences around).map (·.pattern) = e.inRule := by
  match e with
  | .pattern p =>
    rw [Element.occurrences, Element.inRule]
    exact map_occurrences_pattern around p
  | .group connective elements =>
    simp only [Element.occurrences, Element.inRule, Formula.map, List.map_map]
    exact congrArg _ (List.map_congr_left fun e _ => map_occurrences around e)
  | .quantified q elements =>
    simp only [Element.occurrences, Element.inRule, Formula.map, List.map_map]
    exact congrArg _ (List.map_congr_left fun e _ => map_occurrences (q :: around) e)
  | .eval .. => simp [Element.occurrences, Element.inRule, Formula.map]
  | .constraint .. => simp [Element.occurrences, Element.inRule, Formula.map]
  | .binding .. => simp [Element.occurrences, Element.inRule, Formula.map]
  | .predicate .. => simp [Element.occurrences, Element.inRule, Formula.map]
  | .unknown => simp [Element.occurrences, Element.inRule, Formula.map]

theorem map_occurrences_pattern (around : List Quantifier) (p : Pattern) :
    (p.occurrences around).map (·.pattern) = p.inRule := by
  match p with
  | .mk objectType identifier none constraints line =>
    rw [occurrences_mk, Pattern.inRule, Formula.map_drawnFrom]
    rfl
  | .mk objectType identifier (some source) constraints line =>
    rw [occurrences_mk, Pattern.inRule, Formula.map_drawnFrom]
    exact congrArg _ (map_occurrences_source around source)

theorem map_occurrences_source (around : List Quantifier) (s : Source) :
    (s.occurrences? around).map (Formula.map (·.pattern)) = s.inRule? := by
  match s with
  | .accumulate input _ =>
    simp only [Source.occurrences?, Source.inRule?, Option.map_some]
    exact congrArg _ (map_occurrences_pattern around input)
  | .collect input _ =>
    simp only [Source.occurrences?, Source.inRule?, Option.map_some]
    exact congrArg _ (map_occurrences_pattern around input)
  | .supplied _ => simp [Source.occurrences?, Source.inRule?]
  | .unknown => simp [Source.occurrences?, Source.inRule?]
end

/-! ## Possibilities -/

/-- The quantifier that is shown with a pattern. -/
def quantifierText (isUnder : Quantifier → Bool) : String :=
  if isUnder .negated then "not " else if isUnder .existential then "exists "
  else if isUnder .universal then "forall " else ""

/-- A possibility of a pattern as it is shown, if the given comparisons hold. -/
def patternText (isUnder : Quantifier → Bool) (name : String) (words : List String) : String :=
  quantifierText isUnder ++ name ++ "(" ++ ", ".intercalate words ++ ")"

/-- The possibilities of a pattern as they are shown. -/
def Occurrence.texts (o : Occurrence) : List String :=
  (resolve .and (o.pattern.constraints.flatMap fun e => e.wording.children fun w => [[w]])).map
    (patternText o.isUnder o.pattern.objectType)

/-- A possibility of a rule as it is shown, one pattern a line. -/
def possibilityText : List String → String
  | [] => "(no patterns)"
  | patterns => "\n& ".intercalate patterns

/-- The possibilities of a rule as they are shown. -/
def Rule.rows (r : Rule) : List String :=
  (resolve .and (r.lhs.flatMap fun e =>
    (e.occurrences []).children fun o => o.texts.map ([·]))).map possibilityText

/-- The table of the possibilities of a rule. -/
def Rule.possibilityTable (r : Rule) : Report.Table where
  header := [⟨r.name ++ " (line " ++ toString r.line ++ ", " ++ toString r.rows.length ++
    " possibilities)", .left⟩]
  rows := r.rows.map fun row => [⟨row, .left⟩]

end Ast

end RuleBase

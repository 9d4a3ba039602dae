import RuleBase.Ast.Basic
import RuleBase.Proofs.Condition.Truth

/-!
# Conditions as formulas

The formula of a condition as it is declared. Inside a pattern the items are its comparisons, inside
a rule its patterns. The restrictions of a field and what is quantified stand side by side with
whatever is around them; elements of other kinds contribute nothing.

* `Restriction.formula`, `Element.inPattern`: formulas over comparisons;
* `Element.inRule`, `Pattern.inRule`, `Source.inRule?`: formulas over patterns;
* `Element.isOfConstraints`, `Element.isOfPatterns`: elements that are made of these only, with no
  empty list in them; `isFull_inPattern`, `isFull_inRule`: so no list of their formulas is empty.
-/

namespace RuleBase.Ast

open Condition

/-- The formula of a restriction. -/
def Restriction.formula : Restriction → Formula Unit
  | .comparison .. => .item ()
  | .group connective restrictions => .group connective (restrictions.map formula)
  | .unknown => .list []

/-- The formula of an element over the comparisons of the pattern that it stands in. -/
def Element.inPattern : Element → Formula Unit
  | .constraint _ restrictions _ => .list (restrictions.map Restriction.formula)
  | .group connective elements => .group connective (elements.map inPattern)
  | .quantified _ elements => .list (elements.map inPattern)
  | .pattern _ => .list []
  | .eval .. => .list []
  | .binding .. => .list []
  | .predicate .. => .list []
  | .unknown => .list []

/-- The constraints of a pattern. -/
def Pattern.constraints : Pattern → List Element
  | .mk _ _ _ constraints _ => constraints

mutual
/-- The formula of an element over the patterns of the rule. -/
def Element.inRule : Element → Formula Pattern
  | .pattern p => p.inRule
  | .group connective elements => .group connective (elements.map fun e => e.inRule)
  | .quantified _ elements => .list (elements.map fun e => e.inRule)
  | .eval .. => .list []
  | .constraint .. => .list []
  | .binding .. => .list []
  | .predicate .. => .list []
  | .unknown => .list []

/-- The formula of a pattern: the pattern itself, drawn from its input if it has one. -/
def Pattern.inRule : Pattern → Formula Pattern
  | .mk objectType identifier source constraints line =>
    .drawnFrom (.mk objectType identifier source constraints line) <|
      match source with
      | none => none
      | some source => source.inRule?

/-- The formula of the pattern that a source takes its facts from, if there is one. -/
def Source.inRule? : Source → Option (Formula Pattern)
  | .accumulate input _ => some input.inRule
  | .collect input _ => some input.inRule
  | .supplied _ => none
  | .unknown => none
end

/-! ## Elements of one kind -/

/-- Whether a restriction consists of comparisons, without an empty list. -/
def Restriction.isOfComparisons : Restriction → Bool
  | .comparison .. => true
  | .group _ restrictions => !restrictions.isEmpty && (restrictions.map isOfComparisons).all id
  | .unknown => false

/-- Whether an element consists of constraints of fields, without an empty list. -/
def Element.isOfConstraints : Element → Bool
  | .constraint _ restrictions _ =>
    !restrictions.isEmpty && (restrictions.map Restriction.isOfComparisons).all id
  | .group _ elements => !elements.isEmpty && (elements.map isOfConstraints).all id
  | .quantified .. => false
  | .pattern _ => false
  | .eval .. => false
  | .binding .. => false
  | .predicate .. => false
  | .unknown => false

/-- Whether an element consists of patterns, without an empty list. What the patterns ask for does
not count. -/
def Element.isOfPatterns : Element → Bool
  | .pattern _ => true
  | .group _ elements => !elements.isEmpty && (elements.map isOfPatterns).all id
  | .quantified _ elements => !elements.isEmpty && (elements.map isOfPatterns).all id
  | .constraint .. => false
  | .eval .. => false
  | .binding .. => false
  | .predicate .. => false
  | .unknown => false

/-- A list of parts is without empty lists if it is not empty itself and all parts are. -/
theorem isFull_parts {α ι : Type} {formula : α → Formula ι} {check : α → Bool} {l : List α}
    (hl : (!l.isEmpty && (l.map check).all id) = true)
    (hformula : ∀ a ∈ l, check a = true → (formula a).isFull = true) :
    (!(l.map formula).isEmpty && ((l.map formula).map Formula.isFull).all id) = true := by
  simp only [Bool.and_eq_true, List.all_eq_true, List.forall_mem_map, id_eq] at hl
  simp only [List.isEmpty_map, Bool.and_eq_true, List.all_eq_true, List.forall_mem_map, id_eq]
  exact ⟨hl.1, fun a ha => hformula a ha (hl.2 a ha)⟩

theorem isFull_formula {r : Restriction} (h : r.isOfComparisons = true) :
    r.formula.isFull = true := by
  match r with
  | .comparison .. => simp [Restriction.formula, Formula.isFull]
  | .group connective restrictions =>
    rw [Restriction.isOfComparisons] at h
    rw [Restriction.formula, Formula.isFull]
    exact isFull_parts h fun r hr hr' => isFull_formula hr'
  | .unknown => simp [Restriction.isOfComparisons] at h

theorem isFull_inPattern {e : Element} (h : e.isOfConstraints = true) :
    e.inPattern.isFull = true := by
  match e with
  | .constraint _ restrictions _ =>
    rw [Element.isOfConstraints] at h
    rw [Element.inPattern, Formula.isFull]
    exact isFull_parts h fun r hr hr' => isFull_formula hr'
  | .group connective elements =>
    rw [Element.isOfConstraints] at h
    rw [Element.inPattern, Formula.isFull]
    exact isFull_parts h fun e he he' => isFull_inPattern he'
  | .quantified .. => simp [Element.isOfConstraints] at h
  | .pattern _ => simp [Element.isOfConstraints] at h
  | .eval .. => simp [Element.isOfConstraints] at h
  | .binding .. => simp [Element.isOfConstraints] at h
  | .predicate .. => simp [Element.isOfConstraints] at h
  | .unknown => simp [Element.isOfConstraints] at h

theorem isFull_inRule_pattern (p : Pattern) : p.inRule.isFull = true := by
  match p with
  | .mk objectType identifier source constraints line =>
    match source with
    | none => simp [Pattern.inRule, Formula.drawnFrom, Formula.isFull]
    | some (.accumulate input code) =>
      simpa [Pattern.inRule, Source.inRule?, Formula.drawnFrom, Formula.isFull] using
        isFull_inRule_pattern input
    | some (.collect input method) =>
      simpa [Pattern.inRule, Source.inRule?, Formula.drawnFrom, Formula.isFull] using
        isFull_inRule_pattern input
    | some (.supplied dataSource) =>
      simp [Pattern.inRule, Source.inRule?, Formula.drawnFrom, Formula.isFull]
    | some .unknown => simp [Pattern.inRule, Source.inRule?, Formula.drawnFrom, Formula.isFull]

theorem isFull_inRule {e : Element} (h : e.isOfPatterns = true) : e.inRule.isFull = true := by
  match e with
  | .pattern p =>
    rw [Element.inRule]
    exact isFull_inRule_pattern p
  | .group connective elements =>
    rw [Element.isOfPatterns] at h
    rw [Element.inRule, Formula.isFull]
    exact isFull_parts h fun e he he' => isFull_inRule he'
  | .quantified quantifier elements =>
    rw [Element.isOfPatterns] at h
    rw [Element.inRule, Formula.isFull]
    exact isFull_parts h fun e he he' => isFull_inRule he'
  | .constraint .. => simp [Element.isOfPatterns] at h
  | .eval .. => simp [Element.isOfPatterns] at h
  | .binding .. => simp [Element.isOfPatterns] at h
  | .predicate .. => simp [Element.isOfPatterns] at h
  | .unknown => simp [Element.isOfPatterns] at h

end RuleBase.Ast

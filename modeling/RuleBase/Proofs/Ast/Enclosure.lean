import RuleBase.Proofs.Ast.WellFormed
import RuleBase.Proofs.Ast.Wording

/-!
# Quantifiers around patterns

All patterns that are written anywhere in a condition, each with the quantifiers around it. The way
down leads through groups, quantifiers, sources and constraints; it is only quantifiers that count.
A condition that makes sense has no patterns among constraints, so the patterns that are written are
those that its formula has as items.

* `Flags`, `Occurrence.flags`, **`Rule.flags`**: the quantifiers around the patterns of a rule;
* `written_of_wellPlaced`, **`items_occurrences`**: the patterns that count.
-/

namespace RuleBase.Ast

open Condition

mutual
/-- The patterns that are written in an element, which itself has some quantifiers around it. -/
def Element.written (around : List Quantifier) : Element → List Occurrence
  | .pattern p => p.written around
  | .group _ elements => elements.flatMap fun e => e.written around
  | .quantified q elements => elements.flatMap fun e => e.written (q :: around)
  | .eval .. => []
  | .constraint .. => []
  | .binding .. => []
  | .predicate .. => []
  | .unknown => []

/-- The patterns that are written in a pattern: itself, then those in its source, then those among
its constraints. -/
def Pattern.written (around : List Quantifier) : Pattern → List Occurrence
  | .mk objectType identifier source constraints line =>
    ⟨.mk objectType identifier source constraints line, around⟩ ::
      (match source with
      | none => []
      | some source => source.written around) ++
      constraints.flatMap fun e => e.written around

/-- The patterns that are written in a source. -/
def Source.written (around : List Quantifier) : Source → List Occurrence
  | .accumulate input _ => input.written around
  | .collect input _ => input.written around
  | .supplied _ => []
  | .unknown => []
end

/-- The name of a pattern, and whether there are quantifiers of each kind around it. -/
structure Flags where
  name : String
  isNot : Bool
  isExists : Bool
  isForall : Bool
  deriving DecidableEq

/-- The flags that a pattern should have: those of the quantifiers around it. -/
def Occurrence.flags (o : Occurrence) : Flags where
  name := o.pattern.objectType
  isNot := decide (.negated ∈ o.around)
  isExists := decide (.existential ∈ o.around)
  isForall := decide (.universal ∈ o.around)

/-- The flags of all patterns that are written in a rule. -/
def Rule.flags (r : Rule) : List Flags :=
  (r.lhs.flatMap (Element.written [])).map Occurrence.flags

/-- No pattern stands among constraints. -/
theorem written_of_wellPlaced {e : Element} (h : e.WellPlaced .pattern) (around : List Quantifier) :
    e.written around = [] := by
  match e with
  | .group _ elements =>
    rw [Element.WellPlaced] at h
    rw [Element.written, List.flatMap_eq_nil_iff]
    exact fun e he => written_of_wellPlaced (h e he) around
  | .quantified q elements =>
    rw [Element.WellPlaced] at h
    rw [Element.written, List.flatMap_eq_nil_iff]
    exact fun e he => written_of_wellPlaced (h e he) (q :: around)
  | .pattern p =>
    rw [Element.WellPlaced] at h
    cases h.1
  | .eval .. => rw [Element.written]
  | .constraint .. => rw [Element.written]
  | .binding .. => rw [Element.written]
  | .predicate .. => rw [Element.written]
  | .unknown => rw [Element.written]

theorem flatMap_written {constraints : List Element} (h : ∀ e ∈ constraints, e.WellPlaced .pattern)
    (around : List Quantifier) : (constraints.flatMap fun e => e.written around) = [] :=
  List.flatMap_eq_nil_iff.mpr fun e he => written_of_wellPlaced (h e he) around

mutual
/-- **The patterns of a condition are all that are written in it**, with the same quantifiers
around them. -/
theorem items_occurrences {e : Element} (h : e.WellPlaced .rule) (around : List Quantifier) :
    (e.occurrences around).items = e.written around := by
  match e with
  | .pattern p =>
    rw [Element.WellPlaced] at h
    rw [Element.occurrences, Element.written]
    exact items_occurrences_pattern h.2 around
  | .group connective elements =>
    rw [Element.WellPlaced] at h
    rw [Element.occurrences, Formula.items, Element.written, List.flatMap_map]
    exact List.flatMap_congr fun e he => items_occurrences (h e he) around
  | .quantified q elements =>
    rw [Element.WellPlaced] at h
    rw [Element.occurrences, Formula.items, Element.written, List.flatMap_map]
    exact List.flatMap_congr fun e he => items_occurrences (h e he) (q :: around)
  | .eval .. => simp [Element.occurrences, Formula.items, Element.written]
  | .constraint .. => simp [Element.occurrences, Formula.items, Element.written]
  | .binding .. => simp [Element.occurrences, Formula.items, Element.written]
  | .predicate .. => simp [Element.occurrences, Formula.items, Element.written]
  | .unknown => simp [Element.occurrences, Formula.items, Element.written]

theorem items_occurrences_pattern {p : Pattern} (h : p.WellPlaced) (around : List Quantifier) :
    (p.occurrences around).items = p.written around := by
  match p with
  | .mk objectType identifier none constraints line =>
    rw [Pattern.WellPlaced] at h
    rw [occurrences_mk, Pattern.written, flatMap_written h.2, Formula.items_drawnFrom]
    rfl
  | .mk objectType identifier (some source) constraints line =>
    rw [Pattern.WellPlaced] at h
    rw [occurrences_mk, Pattern.written, flatMap_written h.2, Formula.items_drawnFrom,
      List.append_nil]
    exact congrArg _ (items_occurrences_source h.1 around)

theorem items_occurrences_source {s : Source} (h : s.WellPlaced) (around : List Quantifier) :
    (s.occurrences? around).toList.flatMap Formula.items = s.written around := by
  match s with
  | .accumulate input _ =>
    rw [Source.WellPlaced] at h
    rw [Source.occurrences?, Option.toList_some, List.flatMap_singleton, Source.written]
    exact items_occurrences_pattern h around
  | .collect input _ =>
    rw [Source.WellPlaced] at h
    rw [Source.occurrences?, Option.toList_some, List.flatMap_singleton, Source.written]
    exact items_occurrences_pattern h around
  | .supplied _ => simp [Source.occurrences?, Source.written]
  | .unknown => simp [Source.occurrences?, Source.written]
end

end RuleBase.Ast

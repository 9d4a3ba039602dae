import RuleBase.Proofs.Analysis.Placement

/-!
# Possibilities of placed patterns and rules

What is correct in a log is complete there: the possibilities of a pattern list its restrictions in
their order, those of a rule list possibilities of its patterns in theirs, and nothing is left out.

* **`PlacedPattern.CorrectIn.sublist_restrictions`**: the possibilities of a pattern;
* **`PlacedRule.CorrectIn.sublist_patterns`**: the possibilities of a rule.
-/

namespace RuleBase

open RuleBase.Graph Condition

namespace Ast

theorem isUndrawn_formula (r : Restriction) : r.formula.isUndrawn = true := by
  match r with
  | .comparison .. => simp [Restriction.formula, Formula.isUndrawn]
  | .group connective restrictions =>
    simp only [Restriction.formula, Formula.isUndrawn, List.all_eq_true, List.forall_mem_map, id_eq]
    exact fun r _ => isUndrawn_formula r
  | .unknown => simp [Restriction.formula, Formula.isUndrawn]

theorem isUndrawn_inPattern (e : Element) : e.inPattern.isUndrawn = true := by
  match e with
  | .constraint _ restrictions _ =>
    simp only [Element.inPattern, Formula.isUndrawn, List.all_eq_true, List.forall_mem_map, id_eq]
    exact fun r _ => isUndrawn_formula r
  | .group connective elements =>
    simp only [Element.inPattern, Formula.isUndrawn, List.all_eq_true, List.forall_mem_map, id_eq]
    exact fun e _ => isUndrawn_inPattern e
  | .quantified quantifier elements =>
    simp only [Element.inPattern, Formula.isUndrawn, List.all_eq_true, List.forall_mem_map, id_eq]
    exact fun e _ => isUndrawn_inPattern e
  | .pattern _ => simp [Element.inPattern, Formula.isUndrawn]
  | .eval .. => simp [Element.inPattern, Formula.isUndrawn]
  | .binding .. => simp [Element.inPattern, Formula.isUndrawn]
  | .predicate .. => simp [Element.inPattern, Formula.isUndrawn]
  | .unknown => simp [Element.inPattern, Formula.isUndrawn]

end Ast

namespace Analysis

variable {log : Log}

namespace PlacedPattern.CorrectIn

variable {q : PlacedPattern}

theorem closing_eq (h : q.CorrectIn log) :
    q.restrictions.flatMap Formula.closing = log.withEntry (.restriction q.id) := by
  rw [h.restrictions_eq]
  refine List.flatMap_congr fun t ht => Formula.closing_eq_items ?_
  have hshape : t.map (fun _ => ()) ∈ q.restrictions.map (·.map fun _ => ()) :=
    List.mem_map_of_mem ht
  rw [h.shape_eq] at hshape
  obtain ⟨e, -, he⟩ := List.mem_map.mp hshape
  rw [← Formula.isUndrawn_map (fun _ => ()) t, ← he]
  exact Ast.isUndrawn_inPattern e

theorem possibilities_ne_nil (h : q.CorrectIn log) : log.possibilitiesOf q.id ≠ [] :=
  Formula.ne_nil_of_map_eq_resolve h.possibilities_eq (by simp [alone])

/-- **A possibility lists restrictions of its pattern in their order.** -/
theorem sublist_restrictions (h : q.CorrectIn log) {p : PatternPossibility}
    (hp : p ∈ log.possibilitiesOf q.id) :
    p.restrictions.Sublist (log.withEntry (.restriction q.id)) := by
  have hmem : p.restrictions ∈ resolve .and (q.restrictions.flatMap (Formula.children alone)) := by
    rw [← h.possibilities_eq]
    exact List.mem_map_of_mem hp
  have hpicks : Picks ([·]) p.restrictions (q.restrictions.flatMap Formula.closing) :=
    Formula.picks_of_mem_resolve hmem
  rw [← h.closing_eq]
  simpa using hpicks.sublist

/-- **No restriction of a pattern is left out.** -/
theorem exists_mem_restrictions (h : q.CorrectIn log) {id : ComponentId}
    (hid : id ∈ log.withEntry (.restriction q.id)) :
    ∃ p ∈ log.possibilitiesOf q.id, id ∈ p.restrictions := by
  rw [h.restrictions_eq] at hid
  have halone : [id] ∈ alone id := List.mem_singleton_self _
  obtain ⟨whole, hwhole, hsubset⟩ := Formula.exists_mem_resolve_and (by simp [alone]) hid halone
  rw [← h.possibilities_eq] at hwhole
  obtain ⟨p, hp, rfl⟩ := List.mem_map.mp hwhole
  exact ⟨p, hp, hsubset (List.mem_singleton_self _)⟩

end PlacedPattern.CorrectIn

namespace PlacedRule.CorrectIn

variable {r : PlacedRule}

theorem alternativesOf_ne_nil (h : r.CorrectIn log) {q : PlacedPattern} (hq : q ∈ r.patterns) :
    alternativesOf log q ≠ [] := by
  rw [alternativesOf, Ne, List.map_eq_nil_iff]
  exact (h.patterns_correct q hq).possibilities_ne_nil

theorem possibilities_ne_nil (h : r.CorrectIn log) : log.rulePossibilitiesOf r.id ≠ [] :=
  Formula.ne_nil_of_map_eq_resolve h.possibilities_eq fun _ hq => h.alternativesOf_ne_nil hq

/-- A possibility takes at most one of the possibilities of each pattern, in the order in which the
patterns come about. -/
theorem picks_patterns (h : r.CorrectIn log) {p : RulePossibility}
    (hp : p ∈ log.rulePossibilitiesOf r.id) :
    Picks (fun q : PlacedPattern => (log.possibilitiesOf q.id).map (·.id)) p.patterns
      (r.condition.flatMap Formula.closing) := by
  have hmem : p.patterns ∈
      resolve .and (r.condition.flatMap (Formula.children (alternativesOf log))) := by
    rw [← h.possibilities_eq]
    exact List.mem_map_of_mem hp
  have halternatives : alternativesOf log =
      fun q => ((log.possibilitiesOf q.id).map (·.id)).map ([·]) := by
    funext q
    rw [alternativesOf, List.map_map]
    rfl
  rw [halternatives] at hmem
  exact Formula.picks_of_mem_resolve hmem

/-- **A possibility lists possibilities of patterns of its rule in the order in which they are
kept.** -/
theorem sublist_patterns (h : r.CorrectIn log) {p : RulePossibility}
    (hp : p ∈ log.rulePossibilitiesOf r.id) :
    p.patterns.Sublist ((r.keptIn log).map (·.id)) := by
  rw [PlacedRule.keptIn, List.map_flatMap]
  exact (h.picks_patterns hp).sublist

/-- **No possibility of a pattern is left out.** -/
theorem exists_mem_patterns (h : r.CorrectIn log) {q : PlacedPattern} (hq : q ∈ r.patterns)
    {p : PatternPossibility} (hp : p ∈ log.possibilitiesOf q.id) :
    ∃ whole ∈ log.rulePossibilitiesOf r.id, p.id ∈ whole.patterns := by
  have hmem : [p.id] ∈ alternativesOf log q := List.mem_map_of_mem hp
  obtain ⟨whole, hwhole, hsubset⟩ :=
    Formula.exists_mem_resolve_and (fun q hq => h.alternativesOf_ne_nil hq) hq hmem
  rw [← h.possibilities_eq] at hwhole
  obtain ⟨whole, hp, rfl⟩ := List.mem_map.mp hwhole
  exact ⟨whole, hp, hsubset (List.mem_singleton_self _)⟩

end PlacedRule.CorrectIn

end Analysis

end RuleBase

import RuleBase.Condition.Scope
import RuleBase.Proofs.Ast.Formula

/-!
# Patterns inside patterns

A pattern asks for facts, and its constraints for values of one fact, so a pattern among the
constraints of another one makes no sense. Whether there is one can be read off a rule: groups and
quantifiers do not count, but a source of a pattern is no constraint of it.

* `Element.Holds`, `Pattern.Crowded`: patterns among the constraints of a pattern;
* `Element.Nests`, `Pattern.Nests`, `Source.Nests`: whether patterns inside patterns are met on the
  way through a part; `Element.Nests.group`, …: what is met in a part is met in the whole.
-/

namespace RuleBase.Ast

open Condition

/-! ## Crowded patterns -/

/-- A pattern stands in an element, with nothing but groups and quantifiers around it. -/
inductive Element.Holds (p : Pattern) : Element → Prop where
  | pattern : Holds p (.pattern p)
  | group (connective : Connective) {e : Element} {elements : List Element}
      (hmem : e ∈ elements) (h : Holds p e) : Holds p (.group connective elements)
  | quantified (q : Quantifier) {e : Element} {elements : List Element}
      (hmem : e ∈ elements) (h : Holds p e) : Holds p (.quantified q elements)

/-- A pattern stands among the constraints of another one. -/
def Pattern.Crowded (p : Pattern) : Prop := ∃ e ∈ p.constraints, ∃ inner, e.Holds inner

/-! ## Ways through a rule -/

/-- On the way through an element at a level, patterns inside patterns are met. -/
def Element.Nests : Level → Element → Prop
  | .rule, e => ∃ p ∈ e.inRule.items, p.Crowded
  | .pattern, e => ∃ p, e.Holds p

/-- The same for the way through a pattern. -/
def Pattern.Nests : Level → Pattern → Prop
  | .rule, p => ∃ q ∈ p.inRule.items, q.Crowded
  | .pattern, _ => True

/-- The same for the way through a source. -/
def Source.Nests : Level → Source → Prop
  | .rule, source => ∃ t, source.inRule? = some t ∧ ∃ q ∈ t.items, q.Crowded
  | .pattern, _ => True

variable {level : Level}

theorem Pattern.Nests.element {p : Pattern} (h : p.Nests level) :
    (Element.pattern p).Nests level := by
  cases level with
  | rule =>
    rw [Element.Nests, Element.inRule]
    exact h
  | pattern => exact ⟨p, .pattern⟩

theorem Element.Nests.of_part {e whole : Element} (h : e.Nests level)
    (hitems : e.inRule.items ⊆ whole.inRule.items)
    (hholds : ∀ {p}, e.Holds p → whole.Holds p) : whole.Nests level := by
  cases level with
  | rule =>
    obtain ⟨p, hp, hcrowded⟩ := h
    exact ⟨p, hitems hp, hcrowded⟩
  | pattern =>
    obtain ⟨p, hp⟩ := h
    exact ⟨p, hholds hp⟩

theorem items_subset_flatMap {e : Element} {elements : List Element} (hmem : e ∈ elements) :
    e.inRule.items ⊆ (elements.map Element.inRule).flatMap Formula.items :=
  fun _ hp => List.mem_flatMap.mpr ⟨_, List.mem_map_of_mem hmem, hp⟩

theorem Element.Nests.group {e : Element} {elements : List Element} (h : e.Nests level)
    (connective : Connective) (hmem : e ∈ elements) :
    (Element.group connective elements).Nests level := by
  refine h.of_part ?_ (.group connective hmem)
  rw [Element.inRule, Formula.items]
  exact items_subset_flatMap hmem

theorem Element.Nests.quantified {e : Element} {elements : List Element} (h : e.Nests level)
    (q : Quantifier) (hmem : e ∈ elements) : (Element.quantified q elements).Nests level := by
  refine h.of_part ?_ (.quantified q hmem)
  rw [Element.inRule, Formula.items]
  exact items_subset_flatMap hmem

section Pattern

variable {objectType : String} {identifier : Option String} {source : Option Source}
  {constraints : List Element} {line : Nat}

theorem items_inRule_mk :
    (Pattern.mk objectType identifier source constraints line).inRule.items =
      .mk objectType identifier source constraints line ::
        (source.bind Source.inRule?).toList.flatMap Formula.items := by
  cases source <;> simp [Pattern.inRule, Formula.items_drawnFrom]

theorem Source.Nests.pattern {source : Source} (h : source.Nests level) :
    (Pattern.mk objectType identifier (some source) constraints line).Nests level := by
  cases level with
  | rule =>
    obtain ⟨t, ht, q, hq, hcrowded⟩ := h
    refine ⟨q, ?_, hcrowded⟩
    rw [items_inRule_mk, Option.bind_some, ht]
    exact List.mem_cons_of_mem _ (by simpa using hq)
  | pattern => trivial

theorem Element.Nests.ofPattern {e : Element} (h : e.Nests .pattern) (hmem : e ∈ constraints) :
    (Pattern.mk objectType identifier source constraints line).Nests level := by
  cases level with
  | rule =>
    refine ⟨.mk objectType identifier source constraints line, ?_, e, hmem, h⟩
    rw [items_inRule_mk]
    exact List.mem_cons_self
  | pattern => trivial

end Pattern

theorem Pattern.Nests.accumulate {input : Pattern} (h : input.Nests level) (code : Accumulation) :
    (Source.accumulate input code).Nests level := by
  cases level with
  | rule => exact ⟨input.inRule, by rw [Source.inRule?], h⟩
  | pattern => trivial

theorem Pattern.Nests.collect {input : Pattern} (h : input.Nests level)
    (method : Option String) : (Source.collect input method).Nests level := by
  cases level with
  | rule => exact ⟨input.inRule, by rw [Source.inRule?], h⟩
  | pattern => trivial

end RuleBase.Ast

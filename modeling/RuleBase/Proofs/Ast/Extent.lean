import RuleBase.Condition.Scope
import RuleBase.Proofs.Ast.Formula
import RuleBase.Proofs.Condition.Count

/-!
# How far rules go

What the limits of an analysis are about, as it can be read off a rule: how deep its parts nest, and
how many possibilities its patterns and the rule itself have.

* `Element.nesting`, `Rule.nesting`: how many parts that count lie on a path;
* `Pattern.width`, `Rule.patterns`, `Rule.width`: possibilities;
* `Element.patterns`, `Element.sizes`: what an element has at a level of possibilities.
-/

namespace RuleBase.Ast

open Condition

/-! ## Nesting -/

/-- The largest of some depths. -/
def deepest (depths : List Nat) : Nat := depths.foldr max 0

theorem le_deepest {n : Nat} {depths : List Nat} (h : n ∈ depths) : n ≤ deepest depths := by
  induction depths with
  | nil => cases h
  | cons first depths ih =>
    cases h with
    | head => exact Nat.le_max_left _ _
    | tail _ h => exact Nat.le_trans (ih h) (Nat.le_max_right _ _)

/-- How many accessors lie on a path through an invoker. -/
def Invoker.nesting : Invoker → Nat
  | .accessor _ invokers => 1 + deepest (invokers.map nesting)
  | .fieldAccess .. => 0
  | .methodAccess .. => 0
  | .functionCall .. => 0
  | .unknown => 0

/-- How many groups lie on a path through a restriction. -/
def Restriction.nesting : Restriction → Nat
  | .comparison .. => 0
  | .group _ restrictions => 1 + deepest (restrictions.map nesting)
  | .unknown => 0

mutual
/-- How many patterns, sources, groups, quantifiers and accessors lie on a path through an element.
-/
def Element.nesting : Element → Nat
  | .pattern p => p.nesting
  | .group _ elements => 1 + deepest (elements.map fun e => e.nesting)
  | .quantified _ elements => 1 + deepest (elements.map fun e => e.nesting)
  | .constraint _ restrictions _ => deepest (restrictions.map Restriction.nesting)
  | .binding .. => 0
  | .eval .. => 0
  | .predicate .. => 0
  | .unknown => 0

/-- The same for a path through a pattern. -/
def Pattern.nesting : Pattern → Nat
  | .mk _ _ source constraints _ =>
    1 + max
      (match source with
      | none => 0
      | some source => source.nesting)
      (deepest (constraints.map fun e => e.nesting))

/-- The same for a path through a source. Sources of an unknown kind count too. -/
def Source.nesting : Source → Nat
  | .accumulate input _ => 1 + input.nesting
  | .collect input _ => 1 + input.nesting
  | .supplied dataSource => 1 + dataSource.nesting
  | .unknown => 1
end

/-- How many parts that count lie on a path through a rule. -/
def Rule.nesting (r : Rule) : Nat := deepest (r.lhs.map Element.nesting)

/-! ## Possibilities -/

/-- How many possibilities a pattern has. -/
def Pattern.width (p : Pattern) : Nat :=
  ways .and (p.constraints.flatMap fun e => e.inPattern.sizes fun _ => 1)

/-- The patterns of a rule, those inside sources too. -/
def Rule.patterns (r : Rule) : List Pattern := r.lhs.flatMap fun e => e.inRule.items

/-- How many possibilities a rule has. -/
def Rule.width (r : Rule) : Nat := ways .and (r.lhs.flatMap fun e => e.inRule.sizes Pattern.width)

/-- A rule goes beyond no limit. Possibilities are counted up to a ceiling. -/
structure Rule.Fits (limits : Limits) (r : Rule) : Prop where
  nesting_le : r.nesting ≤ limits.maxNestingDepth
  patterns_le : ∀ p ∈ r.patterns, min p.width countCeiling ≤ limits.maxPatternPossibilities
  width_le : min r.width countCeiling ≤ limits.maxRulePossibilities

/-- The patterns of an element that stands at a level. -/
def Element.patterns : Level → Element → List Pattern
  | .rule, e => e.inRule.items
  | .pattern, _ => []

/-- The sizes of the children that an element contributes at a level. -/
def Element.sizes : Level → Element → List Nat
  | .rule, e => e.inRule.sizes Pattern.width
  | .pattern, e => e.inPattern.sizes fun _ => 1

/-- The sizes of the children that a restriction contributes. -/
def Restriction.sizes (r : Restriction) : List Nat := r.formula.sizes fun _ => 1

theorem Pattern.width_pos (p : Pattern) : 0 < p.width := by
  refine ways_pos .and fun n hn => ?_
  obtain ⟨e, -, hn⟩ := List.mem_flatMap.mp hn
  exact Formula.sizes_pos (fun _ => Nat.one_pos) _ n hn

theorem Element.sizes_pos (level : Level) (e : Element) : ∀ n ∈ e.sizes level, 0 < n := by
  cases level with
  | rule => exact Formula.sizes_pos Pattern.width_pos _
  | pattern => exact Formula.sizes_pos (fun _ => Nat.one_pos) _

end RuleBase.Ast

import RuleBase.Ast.Basic
import RuleBase.Operator

/-!
# Comparisons under negation

The comparisons in a rule base have an order, the one in which they are read: what the source of a
pattern takes its facts from comes before the pattern's own constraints. So they are told apart by
their numbers in this order, and any choice of them can be negated.

* `Comparison`, `Rule.comparisons`, `Package.comparisons`: the comparisons in reading order;
* `Choice`, `Choice.skip`: a choice of numbers;
* `Restriction.negateAt`, `Element.negateAt`, `Pattern.negateAt`, `Source.negateAt`,
  `Package.negateAt`: the chosen comparisons with their negation flags turned round.
-/

namespace RuleBase.Ast

/-! ## Reading order -/

/-- How a comparison is written, apart from what it compares a field with. -/
structure Comparison where
  symbol : String
  negated : Bool
  deriving DecidableEq

/-- The operator that a comparison denotes. -/
def Comparison.operator? (c : Comparison) : Option Operator :=
  Operator.determine? c.symbol c.negated

mutual
/-- The comparisons in a restriction. -/
def Restriction.comparisons : Restriction → List Comparison
  | .comparison symbol negated _ => [⟨symbol, negated⟩]
  | .group _ restrictions => Restriction.comparisonsIn restrictions
  | .unknown => []

/-- The comparisons in some restrictions. -/
def Restriction.comparisonsIn : List Restriction → List Comparison
  | [] => []
  | r :: rest => r.comparisons ++ Restriction.comparisonsIn rest
end

mutual
/-- The comparisons in an element. -/
def Element.comparisons : Element → List Comparison
  | .pattern p => p.comparisons
  | .group _ elements => Element.comparisonsIn elements
  | .quantified _ elements => Element.comparisonsIn elements
  | .constraint _ restrictions _ => Restriction.comparisonsIn restrictions
  | .eval .. => []
  | .binding .. => []
  | .predicate .. => []
  | .unknown => []

/-- The comparisons in some elements. -/
def Element.comparisonsIn : List Element → List Comparison
  | [] => []
  | e :: rest => e.comparisons ++ Element.comparisonsIn rest

/-- The comparisons in a pattern, those in its source first. -/
def Pattern.comparisons : Pattern → List Comparison
  | .mk _ _ source constraints _ =>
    Source.comparisons? source ++ Element.comparisonsIn constraints

/-- The comparisons in a source, if there is one. -/
def Source.comparisons? : Option Source → List Comparison
  | some source => source.comparisons
  | none => []

/-- The comparisons in a source. -/
def Source.comparisons : Source → List Comparison
  | .accumulate input _ => input.comparisons
  | .collect input _ => input.comparisons
  | .supplied _ => []
  | .unknown => []
end

/-- The comparisons in a rule. -/
def Rule.comparisons (r : Rule) : List Comparison := Element.comparisonsIn r.lhs

/-- The comparisons in a package. -/
def Package.comparisons (p : Package) : List Comparison := p.rules.flatMap Rule.comparisons

/-! ## Chosen comparisons -/

/-- A choice among the comparisons in something, by their numbers from zero on. -/
abbrev Choice : Type := Nat → Bool

/-- A choice among what comes behind some comparisons. -/
def Choice.skip (chosen : Choice) (before : List Comparison) : Choice :=
  fun i => chosen (i + before.length)

mutual
/-- A restriction with the chosen comparisons negated. -/
def Restriction.negateAt (chosen : Choice) : Restriction → Restriction
  | .comparison symbol negated operand =>
    if chosen 0 then (Restriction.comparison symbol negated operand).negate
    else .comparison symbol negated operand
  | .group connective restrictions => .group connective (Restriction.negateIn chosen restrictions)
  | .unknown => .unknown

/-- Restrictions with the chosen comparisons negated. -/
def Restriction.negateIn (chosen : Choice) : List Restriction → List Restriction
  | [] => []
  | r :: rest => r.negateAt chosen :: Restriction.negateIn (chosen.skip r.comparisons) rest
end

mutual
/-- An element with the chosen comparisons negated. -/
def Element.negateAt (chosen : Choice) : Element → Element
  | .pattern p => .pattern (p.negateAt chosen)
  | .group connective elements => .group connective (Element.negateIn chosen elements)
  | .quantified q elements => .quantified q (Element.negateIn chosen elements)
  | .constraint fieldName restrictions line =>
    .constraint fieldName (Restriction.negateIn chosen restrictions) line
  | .eval content method => .eval content method
  | .binding identifier fieldName line => .binding identifier fieldName line
  | .predicate content method => .predicate content method
  | .unknown => .unknown

/-- Elements with the chosen comparisons negated. -/
def Element.negateIn (chosen : Choice) : List Element → List Element
  | [] => []
  | e :: rest => e.negateAt chosen :: Element.negateIn (chosen.skip e.comparisons) rest

/-- A pattern with the chosen comparisons negated. -/
def Pattern.negateAt (chosen : Choice) : Pattern → Pattern
  | .mk objectType identifier source constraints line =>
    .mk objectType identifier (Source.negateAt? chosen source)
      (Element.negateIn (chosen.skip (Source.comparisons? source)) constraints) line

/-- A source with the chosen comparisons negated, if there is one. -/
def Source.negateAt? (chosen : Choice) : Option Source → Option Source
  | some source => some (source.negateAt chosen)
  | none => none

/-- A source with the chosen comparisons negated. -/
def Source.negateAt (chosen : Choice) : Source → Source
  | .accumulate input code => .accumulate (input.negateAt chosen) code
  | .collect input method => .collect (input.negateAt chosen) method
  | .supplied dataSource => .supplied dataSource
  | .unknown => .unknown
end

/-- A rule with the chosen comparisons negated. -/
def Rule.negateAt (chosen : Choice) (r : Rule) : Rule :=
  { r with lhs := Element.negateIn chosen r.lhs }

/-- Rules with the chosen comparisons negated. -/
def Rule.negateIn (chosen : Choice) : List Rule → List Rule
  | [] => []
  | r :: rest => r.negateAt chosen :: Rule.negateIn (chosen.skip r.comparisons) rest

/-- A package with the chosen comparisons negated. -/
def Package.negateAt (chosen : Choice) (p : Package) : Package :=
  { p with rules := Rule.negateIn chosen p.rules }

/-- Packages with the chosen comparisons negated. -/
def Package.negateIn (chosen : Choice) : List Package → List Package
  | [] => []
  | p :: rest => p.negateAt chosen :: Package.negateIn (chosen.skip p.comparisons) rest

end RuleBase.Ast

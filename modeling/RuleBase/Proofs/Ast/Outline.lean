import RuleBase.Ast.Basic
import RuleBase.Consequence
import RuleBase.Proofs.Graph.Outline

/-!
# Outlines of rules

The outline that a rule should have as a tree of components, as it can be read off the rule.
Quantifiers and groups of restrictions have no node of their own: what is in them stands among the
nodes around them. Nodes of an unknown kind leave nothing.

* `Operand.term`, `Restriction.outlines`, `Invoker.outlines`: the parts of patterns and sources;
* `Element.outlines`, `Pattern.outline`, `Source.outlines`: the parts of a condition;
* `Rule.outline`: the condition, and the consequence behind it.
-/

namespace RuleBase.Ast

open RuleBase.Graph (Label Outline Term)

/-- What an operand tells. A path starts at its first dot. -/
def Operand.term : Operand → Term
  | .literal text => .literal text (Literal.infer text)
  | .var identifier => .var identifier
  | .returnValue content declarations method => .returnValue content declarations method
  | .qualified text =>
    .qualified (String.ofList (text.toList.takeWhile (· != '.')))
      (String.ofList (text.toList.dropWhile (· != '.')))

/-- The outlines of a restriction of a rule with the given name: its comparisons side by side. -/
def Restriction.outlines (rule : String) : Restriction → List Outline
  | .comparison symbol negated operand =>
    (Operator.determine? symbol negated).toList.map fun operator =>
      .leaf (.restriction rule operator operand.term)
  | .group _ restrictions => (restrictions.map (outlines rule)).flatten
  | .unknown => []

/-- The outline of an invoker, if its kind is known. -/
def Invoker.outlines : Invoker → List Outline
  | .fieldAccess name argument => [.leaf (.fieldAccess name argument)]
  | .methodAccess name arguments => [.leaf (.methodAccess name arguments)]
  | .functionCall name arguments => [.leaf (.functionCall name arguments)]
  | .accessor name invokers => [.node (.accessor name) (invokers.map outlines).flatten]
  | .unknown => []

mutual
/-- The outlines of an element of a rule with the given name. -/
def Element.outlines (rule : String) : Element → List Outline
  | .pattern p => [p.outline rule]
  | .group connective elements =>
    [.node (.operator connective) (elements.map fun e => e.outlines rule).flatten]
  | .quantified _ elements => (elements.map fun e => e.outlines rule).flatten
  | .eval content method => [.leaf (.eval rule content method)]
  | .constraint fieldName restrictions _ =>
    [.node (.constraint fieldName) (restrictions.map (Restriction.outlines rule)).flatten]
  | .binding identifier fieldName _ => [.leaf (.var rule identifier fieldName)]
  | .predicate content method => [.leaf (.predicate rule content method)]
  | .unknown => []

/-- The outline of a pattern: the variable that it is bound to, its source, its constraints. -/
def Pattern.outline (rule : String) : Pattern → Outline
  | .mk objectType identifier source constraints _ =>
    .node (.pattern rule objectType identifier) <|
      identifier.toList.map (fun name => .leaf (.var rule name objectType)) ++
        ((match source with
          | none => []
          | some source => source.outlines rule) ++
        (constraints.map fun e => e.outlines rule).flatten)

/-- The outline of a source, if its kind is known. -/
def Source.outlines (rule : String) : Source → List Outline
  | .accumulate input code => [.node (.accumulate code) [input.outline rule]]
  | .collect input method => [.node (.collect method) [input.outline rule]]
  | .supplied dataSource => [.node .supply dataSource.outlines]
  | .unknown => []
end

/-- The outline of a rule: its condition, and its consequence behind that. -/
def Rule.outline (r : Rule) : Outline :=
  .node (.rule r.name r.salience r.line) <|
    (r.lhs.map (Element.outlines r.name)).flatten ++
      [.leaf (.consequence r.name (Consequence.normalize r.consequence))]

end RuleBase.Ast

import RuleBase.Ast.Basic

/-!
# Rules without unknown nodes

Nodes whose kind is not known mean nothing, so a rule should mean the same without them. They are
taken out of every list that they stand in, and a pattern whose source is not known becomes one
without a source. The expression that supplies a source stays, as a source has to have one.

* `Restriction.erased`, `Invoker.erased`, `Element.erased`, `Pattern.erased`, `Source.erased?`;
* `Rule.erased`, `Package.erased`;
* `Element.unknownSources`, `Rule.unknownSources`: how deep the patterns stand whose sources are not
  known.
-/

namespace RuleBase.Ast

/-! ## Taking unknown nodes out -/

/-- The kind of a restriction is known. -/
def Restriction.isKnown : Restriction → Bool
  | .unknown => false
  | _ => true

/-- The kind of an invoker is known. -/
def Invoker.isKnown : Invoker → Bool
  | .unknown => false
  | _ => true

/-- The kind of an element is known. -/
def Element.isKnown : Element → Bool
  | .unknown => false
  | _ => true

/-- A restriction without the unknown ones in it. -/
def Restriction.erased : Restriction → Restriction
  | .group connective restrictions =>
    .group connective ((restrictions.map erased).filter (·.isKnown))
  | .comparison symbol negated operand => .comparison symbol negated operand
  | .unknown => .unknown

/-- An invoker without the unknown ones in it. -/
def Invoker.erased : Invoker → Invoker
  | .accessor name invokers => .accessor name ((invokers.map erased).filter (·.isKnown))
  | .fieldAccess name argument => .fieldAccess name argument
  | .methodAccess name arguments => .methodAccess name arguments
  | .functionCall name arguments => .functionCall name arguments
  | .unknown => .unknown

mutual
/-- An element without the unknown nodes in it. -/
def Element.erased : Element → Element
  | .pattern p => .pattern p.erased
  | .group connective elements =>
    .group connective ((elements.map fun e => e.erased).filter (·.isKnown))
  | .quantified q elements =>
    .quantified q ((elements.map fun e => e.erased).filter (·.isKnown))
  | .constraint fieldName restrictions line =>
    .constraint fieldName ((restrictions.map Restriction.erased).filter (·.isKnown)) line
  | .eval content method => .eval content method
  | .binding identifier fieldName line => .binding identifier fieldName line
  | .predicate content method => .predicate content method
  | .unknown => .unknown

/-- A pattern without the unknown nodes in it. -/
def Pattern.erased : Pattern → Pattern
  | .mk objectType identifier source constraints line =>
    .mk objectType identifier
      (match source with
        | none => none
        | some source => source.erased?)
      ((constraints.map fun e => e.erased).filter (·.isKnown)) line

/-- A source without the unknown nodes in it, none if it is one itself. -/
def Source.erased? : Source → Option Source
  | .accumulate input code => some (.accumulate input.erased code)
  | .collect input method => some (.collect input.erased method)
  | .supplied dataSource => some (.supplied dataSource.erased)
  | .unknown => none
end

/-- A rule without the unknown nodes in it. -/
def Rule.erased (r : Rule) : Rule :=
  { r with lhs := (r.lhs.map Element.erased).filter (·.isKnown) }

/-- A package without the unknown nodes in it. -/
def Package.erased (p : Package) : Package := { p with rules := p.rules.map Rule.erased }

/-! Whether a kind is known does not depend on what is inside. -/

@[simp]
theorem Restriction.isKnown_erased (r : Restriction) : r.erased.isKnown = r.isKnown := by
  cases r <;> simp [erased, isKnown]

@[simp]
theorem Invoker.isKnown_erased (i : Invoker) : i.erased.isKnown = i.isKnown := by
  cases i <;> simp [erased, isKnown]

@[simp]
theorem Element.isKnown_erased (e : Element) : e.erased.isKnown = e.isKnown := by
  cases e <;> simp [erased, isKnown]

theorem Restriction.eq_unknown {r : Restriction} (h : r.isKnown = false) : r = .unknown := by
  cases r <;> first | rfl | cases h

theorem Invoker.eq_unknown {i : Invoker} (h : i.isKnown = false) : i = .unknown := by
  cases i <;> first | rfl | cases h

theorem Element.eq_unknown {e : Element} (h : e.isKnown = false) : e = .unknown := by
  cases e <;> first | rfl | cases h

/-! ## Unknown sources -/

mutual
/-- How deep the patterns stand whose sources are not known, inside an element that stands at a
given depth. -/
def Element.unknownSources (depth : Nat) : Element → List Nat
  | .pattern p => p.unknownSources depth
  | .group _ elements => elements.flatMap fun e => e.unknownSources (depth + 1)
  | .quantified _ elements => elements.flatMap fun e => e.unknownSources (depth + 1)
  | .constraint .. => []
  | .binding .. => []
  | .eval .. => []
  | .predicate .. => []
  | .unknown => []

/-- The same for a pattern. -/
def Pattern.unknownSources (depth : Nat) : Pattern → List Nat
  | .mk _ _ source constraints _ =>
    (match source with
      | none => []
      | some source => source.unknownSources (depth + 1)) ++
      constraints.flatMap fun e => e.unknownSources (depth + 1)

/-- The same for a source of a pattern at the given depth. -/
def Source.unknownSources (depth : Nat) : Source → List Nat
  | .accumulate input _ => input.unknownSources (depth + 1)
  | .collect input _ => input.unknownSources (depth + 1)
  | .supplied _ => []
  | .unknown => [depth]
end

/-- How deep the patterns of a rule stand whose sources are not known. -/
def Rule.unknownSources (r : Rule) : List Nat := r.lhs.flatMap (Element.unknownSources 0)

end RuleBase.Ast

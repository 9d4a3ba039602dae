import Mathlib.Logic.Relation
import RuleBase.Proofs.Analysis.Nodewise
import RuleBase.Proofs.Analysis.Plain

/-!
# The steps of a walk

Whatever the condition of a rule is, and wherever its walk ends, the graph has come about in steps
of four kinds: a new component, a change that leaves keys alone, further possibilities of a pattern
and of a rule. New variables are variables of the rule itself.

* **`steps_lowerBody`**: the walk through a rule takes steps only.
-/

namespace RuleBase.Analysis

open RuleBase.Graph Condition

/-- One step on a graph inside a rule. -/
inductive Step (rule : ComponentId) (g : Graph) : Graph → Prop where
  | add (parent : Option ComponentId) (kind : Kind)
      (h : ∀ r name, kind.key? = some (.var r name) → r = rule) : Step rule g (g.add parent kind)
  | modify (id : ComponentId) (change : Kind → Kind) (h : ∀ k, (change k).key? = k.key?) :
      Step rule g (g.modify id change)
  | patternPossibilities (r pattern : ComponentId) (possibilities : List (List ComponentId)) :
      Step rule g (g.addPatternPossibilities r pattern possibilities)
  | rulePossibilities (r : ComponentId) (possibilities : List (List PossibilityId)) :
      Step rule g (g.addRulePossibilities r possibilities)

/-- Several steps on a graph inside a rule. -/
def Steps (rule : ComponentId) : Graph → Graph → Prop := Relation.ReflTransGen (Step rule)

variable {rule : ComponentId}

instance : Std.Refl (Steps rule) := ⟨fun _ => Relation.ReflTransGen.refl⟩

instance : IsTrans Graph (Steps rule) := ⟨fun _ _ _ => Relation.ReflTransGen.trans⟩

/-- Every run leads from graph to graph in steps inside the rule. -/
abbrev Stepwise {α : Type} (rule : ComponentId) (x : Walk α) : Prop :=
  Always (OnGraph (Steps rule)) x

theorem Update.step {g g' : Graph} (h : Update rule g g') : Step rule g g' := by
  cases h with
  | add parent kind hkind => exact .add parent kind hkind
  | fill id change hfill => exact .modify id change hfill.change.key?_eq
  | mention field line => exact .modify field _ (Change.mention line).key?_eq
  | settle field type => exact .modify field _ (Change.refine type).key?_eq
  | startPath id => exact .modify id _ Change.asField.key?_eq
  | patternPossibilities pattern possibilities =>
    exact .patternPossibilities rule pattern possibilities
  | rulePossibilities r possibilities => exact .rulePossibilities r possibilities

/-- **The walk through a rule takes steps inside it only.** -/
theorem steps_lowerBody (limits : Limits) (site : RuleSite) (r : Ast.Rule) :
    Stepwise site.id (lowerBody limits site r) :=
  (compositional_onGraph fun _ _ h => .single h.step).modular.lowerBody limits r

end RuleBase.Analysis

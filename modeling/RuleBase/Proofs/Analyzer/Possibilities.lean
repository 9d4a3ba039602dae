import RuleBase.Proofs.Analysis.Placement
import RuleBase.Proofs.Analyzer.Atomic

/-!
# The possibilities that calls store

After a call that succeeds, the graph holds the rules of the call, and for each of them exactly the
possibilities that its condition admits: for each pattern those of its constraints, for the rule
those of its patterns, in the order of the alternatives and as often as these occur.

* **`Analyzer.Reachable.call_expanded`**: a call that succeeds expands its rules.
-/

namespace RuleBase

open RuleBase.Graph Condition Analysis

/-- The rules that a call declares. -/
def Call.rules : Call → List Ast.Rule
  | .package p => p.rules
  | .packages ps => ps.flatMap (·.rules)
  | .document text =>
    match Ast.readDocument text with
    | .ok ps => ps.flatMap (·.rules)
    | .error _ => []

theorem rules_of_content {c : Call} {ps : List Ast.Package} (h : c.content = .ok ps) :
    c.rules = ps.flatMap (·.rules) := by
  cases c with
  | package p =>
    cases h
    simp [Call.rules]
  | packages ps' =>
    cases h
    rfl
  | document text =>
    rw [Call.content] at h
    rw [Call.rules, h]

namespace Analysis

/-- A graph has the restrictions of a pattern, one for each comparison in reading order, and stores
the possibilities that the formula of its constraints has over them. -/
structure PlacedPattern.ExpandedIn (q : PlacedPattern) (g : Graph) : Prop where
  shape_eq :
    q.restrictions.map (·.map fun _ => ()) = q.ast.constraints.map Ast.Element.inPattern
  restrictions_eq : g.restrictionsOfPattern q.id = q.restrictions.flatMap Formula.items
  possibilities_eq : (g.patternPossibilitiesOf q.id).map (·.restrictions) =
    resolve .and (q.restrictions.flatMap (Formula.children fun id => [[id]]))

/-- A graph has the patterns of a rule, one for each pattern of the condition in reading order, and
stores the possibilities that the formula of the condition has over those of the patterns. -/
structure PlacedRule.ExpandedIn (r : PlacedRule) (g : Graph) : Prop where
  shape_eq : r.condition.map (Formula.map PlacedPattern.ast) = r.ast.lhs.map Ast.Element.inRule
  patterns_eq : g.patternsOfRule r.id = r.patterns.map (·.id)
  patterns_expanded : ∀ q ∈ r.patterns, q.ExpandedIn g
  possibilities_eq : (g.rulePossibilitiesOf r.id).map (·.patterns) =
    resolve .and (r.condition.flatMap
      (Formula.children fun q => (g.patternPossibilitiesOf q.id).map ([·.id])))

theorem PlacedRule.CorrectIn.expandedIn {r : PlacedRule} {g : Graph} (h : r.CorrectIn g.log) :
    r.ExpandedIn g where
  shape_eq := h.shape_eq
  patterns_eq := (patternsOfRule_eq g r.id).trans h.patterns_eq
  patterns_expanded q hq :=
    { shape_eq := (h.patterns_correct q hq).shape_eq
      restrictions_eq :=
        (restrictionsOfPattern_eq g q.id).trans (h.patterns_correct q hq).restrictions_eq
      possibilities_eq := (h.patterns_correct q hq).possibilities_eq }
  possibilities_eq := h.possibilities_eq

end Analysis

namespace Analyzer

variable {limits : Limits} {a : Analyzer} {c : Call} {ids : List ComponentId}

theorem staged_eq_ok {α : Type} {body : Loading α} {result : α}
    (hok : (a.staged body).1 = .ok result) :
    ∃ g, body a.graph.checkpoint = .ok result g ∧ (a.staged body).2.graph = g.commit := by
  cases hrun : body a.graph.checkpoint with
  | ok result' g =>
    simp only [staged, hrun] at hok ⊢
    cases hok
    exact ⟨g, rfl, rfl⟩
  | error e g =>
    simp only [staged, hrun] at hok
    cases hok

theorem loadAll_of_call (hok : (a.call c).1 = .ok ids) :
    ∃ ps g, c.content = .ok ps ∧ loadAll a.limits ps a.graph.checkpoint = .ok ids g ∧
      (a.call c).2.graph = g.commit := by
  rw [call_eq] at hok ⊢
  cases hcontent : c.content with
  | error e => simp [hcontent] at hok
  | ok ps =>
    simp only [hcontent] at hok ⊢
    cases hresult : (a.addPackages ps).1 with
    | error e => simp [hresult, Except.mapError] at hok
    | ok ids' =>
      rw [hresult] at hok
      cases hok
      obtain ⟨g, hrun, hgraph⟩ := staged_eq_ok hresult
      exact ⟨ps, g, rfl, hrun, hgraph⟩

theorem call_eq_ok (hok : (a.call c).1 = .ok ids) :
    ∃ ps g, c.rules = ps.flatMap (·.rules) ∧
      loadAll a.limits ps a.graph.checkpoint = .ok ids g ∧ (a.call c).2.graph = g.commit := by
  obtain ⟨ps, g, hcontent, hrun, hgraph⟩ := loadAll_of_call hok
  exact ⟨ps, g, rules_of_content hcontent, hrun, hgraph⟩

/-- **What loading keeps holds of all analyzers**, unless the journal counts for it. -/
theorem Reachable.of_loadAll {P : Graph → Prop} (h : Reachable limits a) (hnew : P {})
    (hjournal : ∀ g journal?, P g → P { g with journal? })
    (hload : ∀ limits ps g ids g', P g → loadAll limits ps g = .ok ids g' → P g') :
    P a.graph := by
  induction h with
  | new => exact hnew
  | @call a hbefore c ih =>
    cases hresult : (a.call c).1 with
    | error e =>
      rw [(settled_call hbefore.settled c).2 e hresult]
      exact ih
    | ok ids =>
      obtain ⟨ps, g, -, hrun, hgraph⟩ := call_eq_ok hresult
      rw [hgraph]
      exact hjournal g none (hload _ _ _ _ _ (hjournal a.graph _ ih) hrun)

theorem loaded_of_call (hok : (a.call c).1 = .ok ids) :
    ∃ new rules, rules.map PlacedRule.ast = c.rules ∧
      Loaded a.graph (a.call c).2.graph new rules := by
  obtain ⟨ps, g, hrules, hrun, hgraph⟩ := call_eq_ok hok
  obtain ⟨new, rules, hast, hloaded⟩ := loaded_of_loadAll hrun
  refine ⟨new, rules, hast.trans hrules.symm, ?_⟩
  rw [hgraph]
  -- the journal counts for nothing
  have hkept : Kept g g.commit := kept_refl g
  exact { hloaded with shown := fun r hr => (hloaded.shown r hr).keep hkept }

/-- The rules that a call adds: all of its rules, or none if it fails. -/
def added (a : Analyzer) (c : Call) : List Ast.Rule :=
  match (a.call c).1 with
  | .ok _ => c.rules
  | .error _ => []

theorem added_of_ok (hok : (a.call c).1 = .ok ids) : a.added c = c.rules := by rw [added, hok]

/-- Whether a call succeeds or not, it has loaded the rules that it adds. -/
theorem Reachable.loaded_call (h : Reachable limits a) (c : Call) :
    ∃ new rules, rules.map PlacedRule.ast = a.added c ∧
      Loaded a.graph (a.call c).2.graph new rules := by
  cases hresult : (a.call c).1 with
  | error e =>
    rw [(settled_call h.settled c).2 e hresult, added, hresult]
    exact ⟨{}, [], rfl, Loaded.refl _⟩
  | ok ids =>
    rw [added_of_ok hresult]
    exact loaded_of_call hresult

/-- Whatever is in the log has been loaded with rules. -/
theorem Reachable.loaded (h : Reachable limits a) :
    ∃ rules, Loaded {} a.graph a.graph.log rules := by
  induction h with
  | new => exact ⟨[], Loaded.refl {}⟩
  | @call a h c ih =>
    obtain ⟨old, hold⟩ := ih
    obtain ⟨new, rules, -, hloaded⟩ := h.loaded_call c
    rw [hloaded.log_eq]
    exact ⟨old ++ rules, hold.trans hloaded⟩

theorem Reachable.owned_log (h : Reachable limits a) : a.graph.log.Owned 0 a.graph.size := by
  obtain ⟨rules, hloaded⟩ := h.loaded
  exact hloaded.owned

/-- A call that succeeds puts its rules into the log, numbered after the older ones. -/
theorem placed_of_owned (h : a.graph.log.Owned 0 a.graph.size) (hok : (a.call c).1 = .ok ids) :
    ∃ rules : List PlacedRule, rules.map (·.ast) = c.rules ∧
      (a.call c).2.graph.rules = a.graph.rules ++ rules.map (·.id) ∧
      ∀ r ∈ rules, r.CorrectIn (a.call c).2.graph.log := by
  obtain ⟨new, rules, hast, hloaded⟩ := loaded_of_call hok
  refine ⟨rules, hast, ?_, fun r hr => ?_⟩
  · rw [rules_eq, rules_eq, hloaded.log_eq, Log.withEntry_append, hloaded.rules_eq]
  · rw [hloaded.log_eq]
    exact (hloaded.correct r hr).of_same (hloaded.sameIn_right h hr)

theorem Reachable.placed_of_call (h : Reachable limits a) (hok : (a.call c).1 = .ok ids) :
    ∃ rules : List PlacedRule, rules.map (·.ast) = c.rules ∧
      (a.call c).2.graph.rules = a.graph.rules ++ rules.map (·.id) ∧
      ∀ r ∈ rules, r.CorrectIn (a.call c).2.graph.log :=
  placed_of_owned h.owned_log hok

/-- **A call that succeeds stores what the conditions of its rules admit**: the possibilities of
each pattern and of each rule are the alternatives of their formulas, in order. -/
theorem Reachable.call_expanded (h : Reachable limits a) (hok : (a.call c).1 = .ok ids) :
    ∃ rules : List PlacedRule, rules.map (·.ast) = c.rules ∧
      (a.call c).2.graph.rules = a.graph.rules ++ rules.map (·.id) ∧
      ∀ r ∈ rules, r.ExpandedIn (a.call c).2.graph := by
  obtain ⟨rules, hast, hids, hcorrect⟩ := h.placed_of_call hok
  exact ⟨rules, hast, hids, fun r hr => (hcorrect r hr).expandedIn⟩

/-- Alternatives inside alternatives, and a source under a quantifier: the rule about tenants has a
possibility for every choice. -/
theorem call_expanded_tenants :
    (ofAdults.call (.package tenants)).1 = .ok [9] ∧
      (∃ rules : List PlacedRule, rules.map (·.ast) = [tenant] ∧
        ofTenants.graph.rules = ofAdults.graph.rules ++ rules.map (·.id) ∧
        ∀ r ∈ rules, r.ExpandedIn ofTenants.graph) ∧
      ofTenants.graph.rules = [2, 10] ∧
      (ofTenants.graph.patternPossibilitiesOf 11).map (fun p => (p.id, p.restrictions)) =
        [(3, [15, 16]), (4, [19])] ∧
      (ofTenants.graph.rulePossibilitiesOf 10).map (·.patterns) =
        [[3, 5, 6, 7], [3, 5, 6, 8, 9], [4, 5, 6, 7], [4, 5, 6, 8, 9]] := by
  have hok : (ofAdults.call (.package tenants)).1 = .ok [9] := by decide +kernel
  have hreach : Reachable {} ofAdults := Reachable.new.call _
  obtain ⟨rules, hast, hids, hexpanded⟩ := Reachable.call_expanded hreach hok
  rw [← ofTenants] at hids hexpanded
  exact ⟨hok, ⟨rules, hast, hids, hexpanded⟩, by decide +kernel, by decide +kernel,
    by decide +kernel⟩

end Analyzer

end RuleBase

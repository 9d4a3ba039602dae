import RuleBase.Proofs.Analysis.Lift
import RuleBase.Proofs.Analyzer.Acceptance
import RuleBase.Proofs.Analyzer.Truth

/-!
# What limits do

Limits keep out exactly the packages that go beyond them, and leave alone what is stored of the
others. What counts are the possibilities that are stored in the end, although limits are checked on
every group on the way, and how deep the parts of a rule nest.

* **`Analyzer.Reachable.addPackages_under`**: smaller limits accept a part of the packages, and
  store the same.
-/

namespace RuleBase

open RuleBase.Graph Condition Analysis

/-- The rules that a graph has got since it was another one. -/
def Graph.rulesSince (old g : Graph) : List ComponentId := g.rules.drop old.rules.length

namespace Analysis

variable {r : PlacedRule} {q : PlacedPattern} {g : Graph}

/-- As many possibilities of a pattern are stored as its constraints tell. -/
theorem PlacedPattern.ExpandedIn.length_patternPossibilities (h : q.ExpandedIn g) :
    (g.patternPossibilitiesOf q.id).length = q.ast.width := by
  have hsizes := congrArg (List.flatMap (Formula.sizes fun _ => 1)) h.shape_eq
  simp only [List.flatMap_map, Formula.sizes_map] at hsizes
  rw [← List.length_map, h.possibilities_eq, Formula.length_resolve_children]
  exact congrArg (ways .and) hsizes

theorem PlacedRule.ExpandedIn.length_rulePossibilities (h : r.ExpandedIn g) :
    (g.rulePossibilitiesOf r.id).length = r.ast.width := by
  have hsizes := congrArg (List.flatMap (Formula.sizes Ast.Pattern.width)) h.shape_eq
  simp only [List.flatMap_map, Formula.sizes_map] at hsizes
  rw [← List.length_map, h.possibilities_eq, Formula.length_resolve_children]
  refine congrArg (ways .and) (Eq.trans ?_ hsizes)
  refine List.flatMap_congr fun t ht => Formula.sizes_congr fun q hq => ?_
  have hmem : q ∈ r.patterns := List.mem_flatMap.mpr ⟨t, ht, hq⟩
  rw [List.length_map, (h.patterns_expanded q hmem).length_patternPossibilities]

theorem PlacedRule.ExpandedIn.possibilities_le_iff (h : r.ExpandedIn g) {limits : Limits} :
    ((g.rulePossibilitiesOf r.id).length ≤ limits.maxRulePossibilities ∧
      ∀ pattern ∈ g.patternsOfRule r.id,
        (g.patternPossibilitiesOf pattern).length ≤ limits.maxPatternPossibilities) ↔
    r.ast.width ≤ limits.maxRulePossibilities ∧
      ∀ p ∈ r.ast.patterns, p.width ≤ limits.maxPatternPossibilities := by
  have hpatterns : r.ast.patterns = r.patterns.map (·.ast) := h.map_ast.symm
  rw [h.length_rulePossibilities, h.patterns_eq, hpatterns, List.forall_mem_map,
    List.forall_mem_map]
  refine and_congr_right fun _ => forall₂_congr fun q hq => ?_
  rw [(h.patterns_expanded q hq).length_patternPossibilities]

end Analysis

/-- A rule goes beyond no limit that is below the ceiling of counts. -/
theorem Ast.Rule.fits_iff {limits : Limits} {r : Ast.Rule}
    (hpattern : limits.maxPatternPossibilities < countCeiling)
    (hrule : limits.maxRulePossibilities < countCeiling) :
    r.Fits limits ↔ (r.width ≤ limits.maxRulePossibilities ∧
      ∀ p ∈ r.patterns, p.width ≤ limits.maxPatternPossibilities) ∧
      r.nesting ≤ limits.maxNestingDepth := by
  constructor
  · rintro ⟨hnesting, hpatterns, hwidth⟩
    refine ⟨⟨by omega, fun p hp => ?_⟩, hnesting⟩
    have hp := hpatterns p hp
    omega
  · rintro ⟨⟨hwidth, hpatterns⟩, hnesting⟩
    refine ⟨hnesting, fun p hp => ?_, by omega⟩
    have hp := hpatterns p hp
    omega

namespace Analyzer

/-- An analyzer with other limits. -/
def under (a : Analyzer) (limits : Limits) : Analyzer := { a with limits }

theorem staged_of_extends {α : Type} {a : Analyzer} {low : Limits} (high : Limits)
    {body body' : Loading α} (h : Extends body body') {x : α}
    (hok : ((a.under low).staged body).1 = .ok x) :
    ((a.under high).staged body').1 = .ok x ∧
      ((a.under high).staged body').2.graph = ((a.under low).staged body).2.graph := by
  obtain ⟨g, hrun, hgraph⟩ := staged_eq_ok hok
  have hrun' : body' (a.under high).graph.checkpoint = .ok x g := h _ _ _ hrun
  rw [hgraph, staged]
  simp only [hrun']
  exact ⟨trivial, trivial⟩

theorem expanded_of_addPackages {a : Analyzer} (howned : a.graph.log.Owned 0 a.graph.size)
    {ps : List Ast.Package} {ids : List ComponentId} (hok : (a.addPackages ps).1 = .ok ids) :
    ∃ rules : List PlacedRule, rules.map (·.ast) = ps.flatMap (·.rules) ∧
      a.graph.rulesSince (a.addPackages ps).2.graph = rules.map (·.id) ∧
      ∀ r ∈ rules, r.ExpandedIn (a.addPackages ps).2.graph := by
  have hcall : (a.call (.packages ps)).1 = .ok ids := by
    rw [call_eq]
    simp only [Call.content, hok, Except.mapError]
  obtain ⟨rules, hast, hrules, hcorrect⟩ := placed_of_owned howned hcall
  refine ⟨rules, hast, ?_, fun r hr => (hcorrect r hr).expandedIn⟩
  have hrules : (a.addPackages ps).2.graph.rules = a.graph.rules ++ rules.map (·.id) := hrules
  rw [rulesSince, hrules]
  exact List.drop_left

/-- **Smaller limits keep out exactly the packages that go beyond them**, and store the same of the
others. -/
theorem Reachable.addPackages_under {limits low high : Limits} {a : Analyzer}
    (h : Reachable limits a) (hle : low ≤ high)
    (hpattern : low.maxPatternPossibilities < countCeiling)
    (hrule : low.maxRulePossibilities < countCeiling) {ps : List Ast.Package}
    {ids : List ComponentId} {g : Graph}
    (hok : ((a.under high).addPackages ps).1 = .ok ids)
    (hg : ((a.under high).addPackages ps).2.graph = g) :
    ((∃ ids', ((a.under low).addPackages ps).1 = .ok ids') ↔
      (∀ rule ∈ a.graph.rulesSince g,
        (g.rulePossibilitiesOf rule).length ≤ low.maxRulePossibilities ∧
        ∀ pattern ∈ g.patternsOfRule rule,
          (g.patternPossibilitiesOf pattern).length ≤ low.maxPatternPossibilities) ∧
      ∀ r ∈ ps.flatMap (·.rules), r.nesting ≤ low.maxNestingDepth) ∧
    ∀ ids', ((a.under low).addPackages ps).1 = .ok ids' →
      ids' = ids ∧ ((a.under low).addPackages ps).2.graph = g := by
  subst hg
  obtain ⟨rules, hast, hsince, hexpanded⟩ :=
    expanded_of_addPackages (a := a.under high) h.owned_log hok
  have hsince : a.graph.rulesSince ((a.under high).addPackages ps).2.graph =
      rules.map (·.id) := hsince
  have hwell := (addPackages_ok_iff (a := a.under high) h.settled ps).mp ⟨ids, hok⟩
  rw [← hast, List.forall_mem_map] at hwell
  refine ⟨?_, fun ids' hlow => ?_⟩
  · -- rule by rule, what is stored is what the syntax tree tells
    rw [addPackages_ok_iff (a := a.under low) h.settled ps, hsince, ← hast, List.forall_mem_map,
      List.forall_mem_map, List.forall_mem_map, ← forall₂_and]
    refine forall₂_congr fun r hr => ?_
    rw [(hexpanded r hr).possibilities_le_iff]
    exact (and_iff_right (hwell r hr).1).trans (Ast.Rule.fits_iff hpattern hrule)
  · obtain ⟨hids, hgraph⟩ := staged_of_extends high (extends_loadAll hle ps) hlow
    exact ⟨Except.ok.inj (hids.symm.trans hok), hgraph.symm⟩

/-- The rule about tenants has four possibilities, a pattern of it has two, and it goes four levels
deep: limits that allow just that store the same as larger ones, and it is kept out if any of the
three is smaller by one. -/
theorem addPackages_under_tenants :
    ((ofAdults.under {}).addPackages [tenants]).1 = .ok [9] ∧
      (∃ ids, ((ofAdults.under ⟨2, 4, 4⟩).addPackages [tenants]).1 = .ok ids) ∧
      (∀ ids, ((ofAdults.under ⟨2, 4, 4⟩).addPackages [tenants]).1 = .ok ids →
        ids = [9] ∧ ((ofAdults.under ⟨2, 4, 4⟩).addPackages [tenants]).2.graph =
          ((ofAdults.under {}).addPackages [tenants]).2.graph) ∧
      (¬∃ ids, ((ofAdults.under ⟨1, 4, 4⟩).addPackages [tenants]).1 = .ok ids) ∧
      (¬∃ ids, ((ofAdults.under ⟨2, 3, 4⟩).addPackages [tenants]).1 = .ok ids) ∧
      ¬∃ ids, ((ofAdults.under ⟨2, 4, 3⟩).addPackages [tenants]).1 = .ok ids := by
  have hreach : Reachable {} ofAdults := Reachable.new.call _
  have hok : ((ofAdults.under {}).addPackages [tenants]).1 = .ok [9] := by decide +kernel
  obtain ⟨g, hg⟩ : ∃ g, ((ofAdults.under {}).addPackages [tenants]).2.graph = g := ⟨_, rfl⟩
  have hsince : ofAdults.graph.rulesSince g = [10] := by subst hg; decide +kernel
  have hrule : (g.rulePossibilitiesOf 10).length = 4 := by subst hg; decide +kernel
  have hpatterns : (g.patternsOfRule 10).map (fun p => (g.patternPossibilitiesOf p).length) =
      [2, 1, 1, 1, 1, 1] := by subst hg; decide +kernel
  have hnesting : tenant.nesting = 4 := by
    simp [tenant, Ast.Rule.nesting, Ast.Element.nesting, Ast.Pattern.nesting, Ast.Source.nesting,
      Ast.Restriction.nesting, Ast.deepest]
  -- what is stored and the syntax tree come to one bound for each limit
  have haccepted : ∀ pattern rule nesting, pattern ≤ 2 → rule ≤ 4 → nesting ≤ 4 →
      ((∃ ids, ((ofAdults.under ⟨pattern, rule, nesting⟩).addPackages [tenants]).1 = .ok ids) ↔
        (4 ≤ rule ∧ 2 ≤ pattern) ∧ 4 ≤ nesting) := by
    intro pattern rule nesting hp hr hn
    have hle : (⟨pattern, rule, nesting⟩ : Limits) ≤ {} :=
      ⟨hp.trans (by decide), hr.trans (by decide), hn.trans (by decide)⟩
    have hwidths : (∀ p ∈ g.patternsOfRule 10, (g.patternPossibilitiesOf p).length ≤ pattern) ↔
        2 ≤ pattern := by
      rw [← List.forall_mem_map (f := fun p => (g.patternPossibilitiesOf p).length)
        (P := (· ≤ pattern)), hpatterns]
      exact ⟨fun h => h 2 List.mem_cons_self, fun h => by simpa using ⟨h, by omega⟩⟩
    rw [(Reachable.addPackages_under hreach hle (hp.trans_lt (by decide))
      (hr.trans_lt (by decide)) hok hg).1, hsince, List.forall_mem_singleton, hrule, hwidths,
      ← hnesting]
    simp [tenants]
  have hle : (⟨2, 4, 4⟩ : Limits) ≤ {} := ⟨by decide, by decide, by decide⟩
  have hsame := (Reachable.addPackages_under hreach hle (by decide) (by decide) hok hg).2
  rw [hg]
  refine ⟨hok, (haccepted 2 4 4 (by decide) (by decide) (by decide)).mpr (by decide), hsame, ?_⟩
  rw [haccepted 1 4 4 (by decide) (by decide) (by decide),
    haccepted 2 3 4 (by decide) (by decide) (by decide),
    haccepted 2 4 3 (by decide) (by decide) (by decide)]
  decide

end Analyzer

end RuleBase

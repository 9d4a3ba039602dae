import RuleBase.Proofs.Analyzer.Possibilities

/-!
# Possibilities and truth

A pattern should match when one of its possibilities holds, and so should a rule. What the stored
possibilities ask for is never more than what the condition asks for. It is less as soon as a
disjunction has a part that stands for several children: a constraint with several restrictions, a
quantifier over several elements, a pattern with the input that it is drawn from. Each of these
children then is a possibility of its own.

* `PlacedPattern.isTrue`, `PlacedRule.isTrue`: whether what has been declared holds;
* `Graph.patternHolds`, `Graph.ruleHolds`: whether some possibility does;
* **`Analyzer.Reachable.call_patternHolds`**, **`Analyzer.Reachable.call_ruleHolds`**: when these
  agree for whatever a call has stored.
-/

namespace RuleBase

open RuleBase.Graph Condition Analysis

namespace Graph

/-- Some possibility of a pattern has only true restrictions. -/
def patternHolds (g : Graph) (pattern : ComponentId) (v : ComponentId → Bool) : Bool :=
  (g.patternPossibilitiesOf pattern).any fun p => p.restrictions.all v

/-- Some possibility of a rule has only true possibilities of patterns. -/
def ruleHolds (g : Graph) (rule : ComponentId) (w : PossibilityId → Bool) : Bool :=
  (g.rulePossibilitiesOf rule).any fun p => p.patterns.all w

end Graph

namespace Analysis

variable {g : Graph}

section Pattern

variable {q : PlacedPattern}

/-- Whether the constraints of a pattern hold under truth values of its restrictions. -/
def PlacedPattern.isTrue (q : PlacedPattern) (v : ComponentId → Bool) : Bool :=
  q.restrictions.all (Formula.eval v)

theorem PlacedPattern.ExpandedIn.isFull (h : q.ExpandedIn g)
    (hplain : ∀ e ∈ q.ast.constraints, e.isOfConstraints = true) :
    ∀ t ∈ q.restrictions, t.isFull = true := by
  refine (Formula.forall_isFull_of_map_eq h.shape_eq).mpr ?_
  rw [List.forall_mem_map]
  exact fun e he => Ast.isFull_inPattern (hplain e he)

theorem PlacedPattern.ExpandedIn.patternHolds_eq (h : q.ExpandedIn g) (v : ComponentId → Bool) :
    g.patternHolds q.id v =
      holds v (resolve .and (q.restrictions.flatMap (Formula.children fun id => [[id]]))) := by
  rw [← h.possibilities_eq, holds, List.any_map]
  rfl

theorem holds_alone (v : ComponentId → Bool) (id : ComponentId) : holds v [[id]] = v id := by
  simp [holds]

/-- Constraints that hold have a possibility that holds. -/
theorem PlacedPattern.ExpandedIn.patternHolds_of_isTrue (h : q.ExpandedIn g)
    (hplain : ∀ e ∈ q.ast.constraints, e.isOfConstraints = true) {v : ComponentId → Bool}
    (htrue : q.isTrue v = true) : g.patternHolds q.id v = true := by
  rw [h.patternHolds_eq]
  refine Formula.holds_children_of_eval (h.isFull hplain) ?_
  simp only [holds_alone]
  exact htrue

/-- **Constraints hold when a possibility does** exactly if no disjunction takes one to pieces. -/
theorem PlacedPattern.ExpandedIn.isTrue_iff (h : q.ExpandedIn g) (hsound : g.Sound)
    (hplain : ∀ e ∈ q.ast.constraints, e.isOfConstraints = true) :
    (∀ v, q.isTrue v = g.patternHolds q.id v) ↔
      ∀ e ∈ q.ast.constraints, e.inPattern.splits = false := by
  have hnodup : (q.restrictions.flatMap Formula.items).Nodup := by
    rw [← h.restrictions_eq, restrictionsOfPattern_eq]
    exact hsound.nodup_withEntry _
  have hindependent : Formula.Independent (fun id => [[id]])
      (q.restrictions.flatMap Formula.items) := fun v => ⟨v, fun id _ => holds_alone v id⟩
  have hiff := Formula.holds_children_iff (h.isFull hplain) hnodup hindependent
  have hsplits : (∀ t ∈ q.restrictions, t.splits = false) ↔
      ∀ e ∈ q.ast.constraints, e.inPattern.splits = false := by
    rw [Formula.forall_splits_of_map_eq h.shape_eq, List.forall_mem_map]
  rw [← hsplits, ← hiff]
  simp only [holds_alone, ← h.patternHolds_eq, PlacedPattern.isTrue]

end Pattern

/-! ## Rules -/

section Rule

variable {r : PlacedRule}

/-- Whether the condition of a rule holds under truth values of the possibilities of its patterns: a
pattern holds if one of its own does. -/
def PlacedRule.isTrue (r : PlacedRule) (g : Graph) (w : PossibilityId → Bool) : Bool :=
  r.condition.all (Formula.eval fun q => (g.patternPossibilitiesOf q.id).any fun p => w p.id)

theorem PlacedPattern.ExpandedIn.possibilities_ne_nil {q : PlacedPattern} (h : q.ExpandedIn g) :
    g.patternPossibilitiesOf q.id ≠ [] :=
  Formula.ne_nil_of_map_eq_resolve h.possibilities_eq (by simp)

theorem holds_possibilities (g : Graph) (w : PossibilityId → Bool) (q : PlacedPattern) :
    holds w ((g.patternPossibilitiesOf q.id).map ([·.id])) =
      (g.patternPossibilitiesOf q.id).any fun p => w p.id := by
  simp [holds, List.any_map, Function.comp_def]

/-- Possibilities of different patterns have different numbers. -/
theorem independent_possibilities {qs : List PlacedPattern} (hnumbered : g.Numbered)
    (hnodup : (qs.map (·.id)).Nodup) (hne : ∀ q ∈ qs, g.patternPossibilitiesOf q.id ≠ []) :
    Formula.Independent (fun q : PlacedPattern => (g.patternPossibilitiesOf q.id).map ([·.id]))
      qs := by
  intro v
  refine ⟨fun id => qs.any fun q => v q && (g.patternPossibilitiesOf q.id).any (·.id == id),
    fun q hq => ?_⟩
  rw [holds_possibilities, Bool.eq_iff_iff]
  simp only [List.any_eq_true, Bool.and_eq_true, beq_iff_eq]
  constructor
  · rintro ⟨p, hp, q', hq', hv, p', hp', hid⟩
    simp only [patternPossibilitiesOf, List.mem_filter, beq_iff_eq] at hp hp'
    obtain rfl := hnumbered.eq_of_id_eq hp'.1 hp.1 hid
    obtain rfl := List.inj_on_of_nodup_map hnodup hq' hq (hp'.2.symm.trans hp.2)
    exact hv
  · intro hv
    obtain ⟨p, hp⟩ := List.exists_mem_of_ne_nil _ (hne q hq)
    exact ⟨p, hp, q, hq, hv, p, hp, rfl⟩

theorem PlacedRule.ExpandedIn.isFull (h : r.ExpandedIn g)
    (hplain : ∀ e ∈ r.ast.lhs, e.isOfPatterns = true) : ∀ t ∈ r.condition, t.isFull = true := by
  refine (Formula.forall_isFull_of_map_eq h.shape_eq).mpr ?_
  rw [List.forall_mem_map]
  exact fun e he => Ast.isFull_inRule (hplain e he)

theorem PlacedRule.ExpandedIn.ruleHolds_eq (h : r.ExpandedIn g) (w : PossibilityId → Bool) :
    g.ruleHolds r.id w = holds w (resolve .and (r.condition.flatMap
      (Formula.children fun q => (g.patternPossibilitiesOf q.id).map ([·.id])))) := by
  rw [← h.possibilities_eq, holds, List.any_map]
  rfl

theorem PlacedRule.ExpandedIn.ruleHolds_of_isTrue (h : r.ExpandedIn g)
    (hplain : ∀ e ∈ r.ast.lhs, e.isOfPatterns = true) {w : PossibilityId → Bool}
    (htrue : r.isTrue g w = true) : g.ruleHolds r.id w = true := by
  rw [h.ruleHolds_eq]
  refine Formula.holds_children_of_eval (h.isFull hplain) ?_
  simp only [holds_possibilities]
  exact htrue

theorem PlacedRule.ExpandedIn.map_ast (h : r.ExpandedIn g) :
    r.patterns.map (·.ast) = r.ast.lhs.flatMap fun e => e.inRule.items := by
  have hitems := congrArg (List.flatMap Formula.items) h.shape_eq
  simp only [List.flatMap_map, Formula.items_map, ← List.map_flatMap] at hitems
  exact hitems

/-- **Conditions hold when a possibility does** exactly if no disjunction takes a part to pieces. -/
theorem PlacedRule.ExpandedIn.isTrue_iff (h : r.ExpandedIn g) (hsound : g.Sound)
    (hnumbered : g.Numbered) (hplain : ∀ e ∈ r.ast.lhs, e.isOfPatterns = true) :
    (∀ w, r.isTrue g w = g.ruleHolds r.id w) ↔ ∀ e ∈ r.ast.lhs, e.inRule.splits = false := by
  have hnodup : (r.patterns.map (·.id)).Nodup := by
    rw [← h.patterns_eq, patternsOfRule_eq]
    exact hsound.nodup_withEntry _
  have hindependent := independent_possibilities hnumbered hnodup fun q hq =>
    (h.patterns_expanded q hq).possibilities_ne_nil
  have hiff := Formula.holds_children_iff (h.isFull hplain) hnodup.of_map hindependent
  have hsplits : (∀ t ∈ r.condition, t.splits = false) ↔
      ∀ e ∈ r.ast.lhs, e.inRule.splits = false := by
    rw [Formula.forall_splits_of_map_eq h.shape_eq, List.forall_mem_map]
  rw [← hsplits, ← hiff]
  simp only [holds_possibilities, ← h.ruleHolds_eq, PlacedRule.isTrue]

end Rule

end Analysis

namespace Analyzer

variable {limits : Limits} {a : Analyzer} {c : Call} {ids : List ComponentId}

/-- **The possibilities of a pattern ask for nothing that its constraints do not ask for.** They ask
for all of it exactly if no disjunction takes a constraint to pieces. -/
theorem Reachable.call_patternHolds (h : Reachable limits a) (hok : (a.call c).1 = .ok ids) :
    ∃ rules : List PlacedRule, rules.map (·.ast) = c.rules ∧
      (a.call c).2.graph.rules = a.graph.rules ++ rules.map (·.id) ∧
      ∀ r ∈ rules, r.ExpandedIn (a.call c).2.graph ∧
        ∀ q ∈ r.patterns, (∀ e ∈ q.ast.constraints, e.isOfConstraints = true) →
          (∀ v, q.isTrue v = true → (a.call c).2.graph.patternHolds q.id v = true) ∧
          ((∀ v, q.isTrue v = (a.call c).2.graph.patternHolds q.id v) ↔
            ∀ e ∈ q.ast.constraints, e.inPattern.splits = false) := by
  obtain ⟨rules, hast, hids, hcorrect⟩ := h.placed_of_call hok
  refine ⟨rules, hast, hids, fun r hr => ?_⟩
  have hexpanded := (hcorrect r hr).expandedIn
  refine ⟨hexpanded, fun q hq hplain => ?_⟩
  have hpattern := hexpanded.patterns_expanded q hq
  exact ⟨fun v => hpattern.patternHolds_of_isTrue hplain,
    hpattern.isTrue_iff (h.call c).settled.sound hplain⟩

/-- The possibilities of all patterns about tenants are right. -/
theorem call_patternHolds_tenants :
    (ofAdults.call (.package tenants)).1 = .ok [9] ∧
      ∃ rules : List PlacedRule, rules.map (·.ast) = [tenant] ∧
        ∀ r ∈ rules, ∀ q ∈ r.patterns, ∀ v, q.isTrue v = ofTenants.graph.patternHolds q.id v := by
  have hok : (ofAdults.call (.package tenants)).1 = .ok [9] := by decide +kernel
  have hreach : Reachable {} ofAdults := Reachable.new.call _
  obtain ⟨rules, hast, -, hrules⟩ := Reachable.call_patternHolds hreach hok
  rw [← ofTenants] at hrules
  refine ⟨hok, rules, hast, fun r hr q hq => ?_⟩
  obtain ⟨hexpanded, hpatterns⟩ := hrules r hr
  have hrule : r.ast ∈ (Call.package tenants).rules := by
    rw [← hast]
    exact List.mem_map_of_mem hr
  have hpattern : q.ast ∈ tenant.lhs.flatMap fun e => e.inRule.items := by
    rw [← List.mem_singleton.mp hrule, ← hexpanded.map_ast]
    exact List.mem_map_of_mem hq
  have hconstraints : ((tenant.lhs.flatMap fun e => e.inRule.items).all fun p =>
      p.constraints.all fun e => e.isOfConstraints && !e.inPattern.splits) = true := by
    simp [tenant, Ast.Element.inRule, Ast.Pattern.inRule, Ast.Source.inRule?, Formula.drawnFrom,
      Formula.items, Ast.Pattern.constraints, Ast.Element.isOfConstraints,
      Ast.Restriction.isOfComparisons, Ast.Element.inPattern, Ast.Restriction.formula,
      Formula.splits, Formula.atoms]
  simp only [List.all_eq_true, Bool.and_eq_true, Bool.not_eq_true'] at hconstraints
  have hplain := hconstraints q.ast hpattern
  exact (hpatterns q hq fun e he => (hplain e he).1).2.mpr fun e he => (hplain e he).2

/-- A person between two ages, or of a name. -/
def worker : Ast.Pattern :=
  .mk "Person" none none
    [.group .or
      [.constraint "age" [.comparison ">" false (.literal (some "18")),
          .comparison "<" false (.literal (some "65"))] 0,
        .constraint "name" [.comparison "==" false (.literal (some "Bob"))] 0]] 0

/-- An analyzer of workers. -/
def ofWorkers : Analyzer :=
  (call { limits := {} } (.package ⟨"workers", [{ name := "worker", lhs := [.pattern worker] }]⟩)).2

/-- For a worker, one of the two ages is enough for a possibility, though not for the constraint. -/
theorem patternHolds_worker :
    ∃ q : PlacedPattern, q.ast = worker ∧ q.ExpandedIn ofWorkers.graph ∧
      (∀ e ∈ q.ast.constraints, e.isOfConstraints = true) ∧
      ∃ v, q.isTrue v = false ∧ ofWorkers.graph.patternHolds q.id v = true := by
  refine ⟨⟨4, worker, [.group .or [.list [.item 8, .item 9], .list [.item 12]]]⟩, rfl,
    ⟨?_, ?_, ?_⟩, ?_, (· == 8), ?_, ?_⟩
  · simp [worker, Ast.Pattern.constraints, Formula.map, Ast.Element.inPattern,
      Ast.Restriction.formula]
  · have hentries : ofWorkers.graph.restrictionsOfPattern 4 = [8, 9, 12] := by decide +kernel
    simpa [Formula.items] using hentries
  · have hpossibilities : (ofWorkers.graph.patternPossibilitiesOf 4).map (·.restrictions) =
        resolve .and [resolve .or [[[8]], [[9]], [[12]]]] := by decide +kernel
    simpa [Formula.children] using hpossibilities
  · simp [worker, Ast.Pattern.constraints, Ast.Element.isOfConstraints,
      Ast.Restriction.isOfComparisons]
  · simp [PlacedPattern.isTrue, Formula.eval]
  · decide +kernel

/-- **The possibilities of a rule ask for nothing that its condition does not ask for.** They ask
for all of it exactly if no disjunction takes a part of the condition to pieces. -/
theorem Reachable.call_ruleHolds (h : Reachable limits a) (hok : (a.call c).1 = .ok ids) :
    ∃ rules : List PlacedRule, rules.map (·.ast) = c.rules ∧
      (a.call c).2.graph.rules = a.graph.rules ++ rules.map (·.id) ∧
      ∀ r ∈ rules, r.ExpandedIn (a.call c).2.graph ∧
        ((∀ e ∈ r.ast.lhs, e.isOfPatterns = true) →
          (∀ w, r.isTrue (a.call c).2.graph w = true →
            (a.call c).2.graph.ruleHolds r.id w = true) ∧
          ((∀ w, r.isTrue (a.call c).2.graph w = (a.call c).2.graph.ruleHolds r.id w) ↔
            ∀ e ∈ r.ast.lhs, e.inRule.splits = false)) := by
  obtain ⟨rules, hast, hids, hcorrect⟩ := h.placed_of_call hok
  refine ⟨rules, hast, hids, fun r hr => ?_⟩
  have hexpanded := (hcorrect r hr).expandedIn
  have hsettled := (h.call c).settled
  exact ⟨hexpanded, fun hplain => ⟨fun w => hexpanded.ruleHolds_of_isTrue hplain,
    hexpanded.isTrue_iff hsettled.sound hsettled.numbered hplain⟩⟩

/-- The possibilities of the rule about tenants are right. -/
theorem call_ruleHolds_tenants :
    (ofAdults.call (.package tenants)).1 = .ok [9] ∧
      ∃ rules : List PlacedRule, rules.map (·.ast) = [tenant] ∧
        ∀ r ∈ rules, ∀ w, r.isTrue ofTenants.graph w = ofTenants.graph.ruleHolds r.id w := by
  have hok : (ofAdults.call (.package tenants)).1 = .ok [9] := by decide +kernel
  have hreach : Reachable {} ofAdults := Reachable.new.call _
  obtain ⟨rules, hast, -, hrules⟩ := Reachable.call_ruleHolds hreach hok
  rw [← ofTenants] at hrules
  refine ⟨hok, rules, hast, fun r hr => ?_⟩
  have hrule : r.ast ∈ (Call.package tenants).rules := by
    rw [← hast]
    exact List.mem_map_of_mem hr
  have hlhs : (tenant.lhs.all fun e => e.isOfPatterns && !e.inRule.splits) = true := by
    simp [tenant, Ast.Element.isOfPatterns, Ast.Element.inRule, Ast.Pattern.inRule,
      Ast.Source.inRule?, Formula.drawnFrom, Formula.splits, Formula.atoms]
  simp only [List.all_eq_true, Bool.and_eq_true, Bool.not_eq_true'] at hlhs
  rw [← List.mem_singleton.mp hrule] at hlhs
  exact ((hrules r hr).2 fun e he => (hlhs e he).1).2.mpr fun e he => (hlhs e he).2

/-- Houses. -/
def house : Ast.Pattern := .mk "House" none none [] 0

/-- Cars. -/
def car : Ast.Pattern := .mk "Car" none none [] 0

/-- The list of all houses. -/
def houses : Ast.Pattern := .mk "List" none (some (.collect house none)) [] 0

/-- A rule about the list of all houses, or a car. -/
def owner : Ast.Rule := { name := "owner", lhs := [.group .or [.pattern houses, .pattern car]] }

/-- An analyzer of owners. -/
def ofOwners : Analyzer := (call { limits := {} } (.package ⟨"owners", [owner]⟩)).2

/-- For an owner, a house is enough for a possibility, though not for the condition. -/
theorem ruleHolds_owner :
    ∃ r : PlacedRule, r.ast = owner ∧ r.ExpandedIn ofOwners.graph ∧
      (∀ e ∈ r.ast.lhs, e.isOfPatterns = true) ∧
      ∃ w, r.isTrue ofOwners.graph w = false ∧ ofOwners.graph.ruleHolds r.id w = true := by
  have hpatterns : PlacedRule.patterns ⟨2, owner, [.group .or [.drawn ⟨5, houses, []⟩
      (.item ⟨8, house, []⟩), .item ⟨10, car, []⟩]]⟩ =
      [⟨5, houses, []⟩, ⟨8, house, []⟩, ⟨10, car, []⟩] := by
    simp [PlacedRule.patterns, Formula.items]
  refine ⟨⟨2, owner, [.group .or [.drawn ⟨5, houses, []⟩ (.item ⟨8, house, []⟩),
    .item ⟨10, car, []⟩]]⟩, rfl, ⟨?_, ?_, ?_, ?_⟩, ?_, (· == 1), ?_, ?_⟩
  · simp [owner, houses, house, car, Formula.map, Formula.drawnFrom, Ast.Element.inRule,
      Ast.Pattern.inRule, Ast.Source.inRule?]
  · rw [hpatterns]
    decide +kernel
  · simp only [hpatterns, List.forall_mem_cons]
    refine ⟨⟨rfl, ?_, ?_⟩, ⟨rfl, ?_, ?_⟩, ⟨rfl, ?_, ?_⟩, by simp⟩ <;> decide +kernel
  · have hpossibilities : (ofOwners.graph.rulePossibilitiesOf 2).map (·.patterns) =
        resolve .and [resolve .or ([8, 5, 10].map fun id =>
          (ofOwners.graph.patternPossibilitiesOf id).map ([·.id]))] := by decide +kernel
    simpa [Formula.children] using hpossibilities
  · simp [owner, Ast.Element.isOfPatterns]
  · have hlist : (ofOwners.graph.patternPossibilitiesOf 5).any (fun p => p.id == 1) = false := by
      decide +kernel
    have hcar : (ofOwners.graph.patternPossibilitiesOf 10).any (fun p => p.id == 1) = false := by
      decide +kernel
    simp only [PlacedRule.isTrue, List.all_cons, List.all_nil, Formula.eval, List.map_cons,
      List.map_nil, List.any_cons, List.any_nil, hlist, hcar]
    rfl
  · decide +kernel

end Analyzer

end RuleBase

import Mathlib.Data.Option.Basic
import RuleBase.Proofs.Analysis.Completeness
import RuleBase.Proofs.Analyzer.References
import RuleBase.Proofs.Graph.Numbered

/-!
# Complete possibilities

In the graph of an analyzer every pattern and every rule has possibilities. They list what they
consist of in the order of the numbers, all of it belongs to the same pattern or rule, and nothing
that belongs to one is left out. So whatever a list of possibilities looks up is there.

* **`Analyzer.Reachable.complete`**: the graph of an analyzer is complete.
-/

namespace RuleBase

open RuleBase.Graph Condition Analysis

namespace Graph

/-- The possibilities of a graph are complete, in order, and refer to what is there. -/
structure Complete (g : Graph) : Prop where
  /-- Every pattern has a possibility. -/
  patternPossibilities_ne_nil : ∀ id pattern, g.ofKind? Kind.pattern? id = some pattern →
    g.patternPossibilitiesOf id ≠ []
  /-- Every rule has one. -/
  rulePossibilities_ne_nil : ∀ id rule, g.ofKind? Kind.rule? id = some rule →
    g.rulePossibilitiesOf id ≠ []
  /-- A possibility of a pattern belongs to a pattern of its rule. -/
  pattern_eq : ∀ p ∈ g.patternPossibilities, ∃ pattern,
    g.ofKind? Kind.pattern? p.pattern = some pattern ∧ pattern.rule = p.rule
  /-- It lists restrictions in order. -/
  restrictions_lt : ∀ p ∈ g.patternPossibilities, p.restrictions.Pairwise (· < ·)
  /-- They are restrictions of the pattern, of fields that are there. -/
  restriction_eq : ∀ p ∈ g.patternPossibilities, ∀ id ∈ p.restrictions, ∃ r f,
    g.ofKind? Kind.restriction? id = some r ∧ r.pattern = p.pattern ∧
      g.ofKind? Kind.field? r.field = some f
  /-- Every restriction is listed by a possibility of its pattern. -/
  restriction_mem : ∀ id r, g.ofKind? Kind.restriction? id = some r →
    ∃ p ∈ g.patternPossibilitiesOf r.pattern, id ∈ p.restrictions
  /-- A possibility of a rule belongs to a rule. -/
  rule_eq : ∀ p ∈ g.rulePossibilities, ∃ rule, g.ofKind? Kind.rule? p.rule = some rule
  /-- It lists possibilities of patterns in order. -/
  patterns_lt : ∀ p ∈ g.rulePossibilities, p.patterns.Pairwise (· < ·)
  /-- They are possibilities of patterns of the rule. -/
  possibility_eq : ∀ p ∈ g.rulePossibilities, ∀ id ∈ p.patterns, ∃ q,
    g.patternPossibility? id = some q ∧ q.rule = p.rule
  /-- No two of them are possibilities of the same pattern. -/
  pattern_inj : ∀ p ∈ g.rulePossibilities, ∀ q ∈ g.patternPossibilities,
    ∀ q' ∈ g.patternPossibilities, q.id ∈ p.patterns → q'.id ∈ p.patterns →
      q.pattern = q'.pattern → q = q'
  /-- Every possibility of a pattern is listed by a possibility of its rule. -/
  possibility_mem : ∀ q ∈ g.patternPossibilities,
    ∃ p ∈ g.rulePossibilitiesOf q.rule, q.id ∈ p.patterns

end Graph

namespace Analysis

variable {g g' : Graph} {new : Log} {rules : List PlacedRule}

theorem Loaded.exists_pattern (h : Loaded g g' new rules) {p : PatternPossibility}
    (hp : p ∈ new.patternPossibilities) :
    ∃ r ∈ rules, r.id = p.rule ∧ ∃ q ∈ r.patterns, q.id = p.pattern ∧
      p ∈ new.possibilitiesOf q.id := by
  rw [h.patternPossibilities_eq] at hp
  obtain ⟨r, hr, hp⟩ := List.mem_flatMap.mp hp
  obtain ⟨q, hq, hp⟩ := List.mem_flatMap.mp hp
  have hq : q ∈ r.patterns := mem_closing_iff.mp hq
  refine ⟨r, hr, ((h.correct r hr).rule_eq q hq p hp).symm, q, hq, ?_, hp⟩
  exact (of_decide_eq_true (List.mem_filter.mp hp).2).symm

theorem Loaded.exists_rule (h : Loaded g g' new rules) {p : RulePossibility}
    (hp : p ∈ new.rulePossibilities) :
    ∃ r ∈ rules, r.id = p.rule ∧ p ∈ new.rulePossibilitiesOf r.id := by
  rw [h.rulePossibilities_eq] at hp
  obtain ⟨r, hr, hp⟩ := List.mem_flatMap.mp hp
  exact ⟨r, hr, (of_decide_eq_true (List.mem_filter.mp hp).2).symm, hp⟩

theorem Loaded.sublist_keptIn (h : Loaded g g' new rules) {r : PlacedRule} (hr : r ∈ rules) :
    (r.keptIn new).Sublist new.patternPossibilities := by
  rw [h.patternPossibilities_eq]
  exact List.sublist_flatten_of_mem (List.mem_map_of_mem hr)

end Analysis

namespace Analyzer

variable {limits : Limits} {a : Analyzer} {rules : List PlacedRule} {id : ComponentId}

theorem Reachable.fits {α : Type} {project? : Kind → Option α} {x : α} {P : Prop}
    (h : Reachable limits a) (hx : a.graph.ofKind? project? id = some x)
    (hkind : ∀ kind parent, project? kind = some x → kind.Fits a.graph id parent → P) : P := by
  obtain ⟨c, hc, hk⟩ := Option.bind_eq_some_iff.mp hx
  exact hkind c.kind c.parent hk (h.references id c hc).2.2.1

theorem Reachable.fits_pattern (h : Reachable limits a) {p : Graph.Pattern}
    (hp : a.graph.ofKind? Kind.pattern? id = some p) : p.Fits a.graph id :=
  h.fits hp fun kind _ hk hfits => by
    cases kind <;> cases hk
    exact hfits

theorem Reachable.fits_constraint (h : Reachable limits a) {k : Graph.Constraint}
    (hk : a.graph.ofKind? Kind.constraint? id = some k) : k.Fits a.graph id :=
  h.fits hk fun kind _ hk hfits => by
    cases kind <;> cases hk
    exact hfits

theorem Reachable.fits_restriction (h : Reachable limits a) {r : Graph.Restriction}
    (hr : a.graph.ofKind? Kind.restriction? id = some r) : ∃ parent, r.Fits a.graph id parent :=
  h.fits hr fun kind parent hk hfits => by
    cases kind <;> cases hk
    exact ⟨parent, hfits⟩

theorem Reachable.fits_var (h : Reachable limits a) {v : Graph.Variable}
    (hv : a.graph.ofKind? Kind.var? id = some v) : ∃ parent, v.Fits a.graph id parent :=
  h.fits hv fun kind parent hk hfits => by
    cases kind <;> cases hk
    exact ⟨parent, hfits⟩

theorem Reachable.pattern_of_restriction (h : Reachable limits a) {r : Graph.Restriction}
    (hr : a.graph.ofKind? Kind.restriction? id = some r) :
    ∃ p f, a.graph.ofKind? Kind.pattern? r.pattern = some p ∧
      a.graph.ofKind? Kind.field? r.field = some f := by
  obtain ⟨parent, hfits⟩ := h.fits_restriction hr
  obtain ⟨k, hconstraint, -, hpattern, hfield, -⟩ := hfits.agrees
  obtain ⟨p, f, hp, hf, -⟩ := (h.fits_constraint hconstraint).agrees
  exact ⟨p, f, hpattern ▸ hp, hfield ▸ hf⟩

theorem Reachable.placed_rule (h : Reachable limits a)
    (hloaded : Loaded {} a.graph a.graph.log rules) {rule : Graph.Rule}
    (hrule : a.graph.ofKind? Kind.rule? id = some rule) : ∃ r ∈ rules, r.id = id := by
  have hid := h.settled.sound.mem_withEntry_rule.mpr ⟨rule, hrule⟩
  rw [hloaded.rules_eq] at hid
  exact List.mem_map.mp hid

theorem Reachable.placed_pattern (h : Reachable limits a)
    (hloaded : Loaded {} a.graph a.graph.log rules) {p : Graph.Pattern}
    (hp : a.graph.ofKind? Kind.pattern? id = some p) :
    ∃ r ∈ rules, r.id = p.rule ∧ ∃ q ∈ r.patterns, q.id = id := by
  obtain ⟨rule, hrule, -⟩ := Option.map_eq_some_iff.mp (h.fits_pattern hp).inRule.name_eq
  obtain ⟨r, hr, hid⟩ := h.placed_rule hloaded hrule
  have hpattern := h.settled.sound.mem_withEntry_pattern.mpr ⟨p, hp, hid.symm⟩
  rw [(hloaded.correct r hr).patterns_eq] at hpattern
  exact ⟨r, hr, hid, List.mem_map.mp hpattern⟩

theorem Reachable.pattern_of_placed (h : Reachable limits a)
    (hloaded : Loaded {} a.graph a.graph.log rules) {r : PlacedRule} (hr : r ∈ rules)
    {q : PlacedPattern} (hq : q ∈ r.patterns) :
    ∃ p, a.graph.ofKind? Kind.pattern? q.id = some p ∧ p.rule = r.id := by
  refine h.settled.sound.mem_withEntry_pattern.mp ?_
  rw [(hloaded.correct r hr).patterns_eq]
  exact List.mem_map_of_mem hq

/-- A possibility of a rule lists at most one possibility of each pattern. -/
theorem Reachable.pattern_inj (h : Reachable limits a)
    (hloaded : Loaded {} a.graph a.graph.log rules) {r : PlacedRule} (hr : r ∈ rules)
    {p : RulePossibility} (hp : p ∈ a.graph.log.rulePossibilitiesOf r.id)
    {q q' : PatternPossibility} (hq : q ∈ a.graph.patternPossibilities)
    (hq' : q' ∈ a.graph.patternPossibilities) (hmem : q.id ∈ p.patterns)
    (hmem' : q'.id ∈ p.patterns) (heq : q.pattern = q'.pattern) : q = q' := by
  have hnumbered := h.settled.numbered
  -- the patterns of the possibilities that are listed are among the patterns of the rule
  let owner (id : PossibilityId) := (a.graph.patternPossibility? id).map (·.pattern)
  have howner : ∀ i : PlacedPattern, ∀ k ∈ (a.graph.log.possibilitiesOf i.id).map (·.id),
      owner k = some i.id := by
    intro i k hk
    obtain ⟨p', hp', rfl⟩ := List.mem_map.mp hk
    obtain ⟨hp', hi⟩ := List.mem_filter.mp hp'
    have hpattern : p'.pattern = i.id := of_decide_eq_true hi
    simp only [owner, hnumbered.patternPossibility?_eq hp', Option.map_some, hpattern]
  have hsublist := ((hloaded.correct r hr).picks_patterns hp).map_sublist fun i _ => howner i
  have hnodup : (r.patterns.map (·.id)).Nodup := by
    rw [← (hloaded.correct r hr).patterns_eq]
    exact h.settled.sound.nodup_withEntry _
  have hclosing : ((r.condition.flatMap Formula.closing).map (some ·.id)).Nodup := by
    have hperm := (Formula.flatMap_closing_perm r.condition).map (·.id)
    have hsome := (hperm.nodup_iff.mpr hnodup).map (Option.some_injective ComponentId)
    rwa [List.map_map] at hsome
  have hinj := List.inj_on_of_nodup_map (hclosing.sublist hsublist) hmem hmem'
  refine hnumbered.eq_of_id_eq hq hq' (hinj ?_)
  simp only [owner, hnumbered.patternPossibility?_eq hq, hnumbered.patternPossibility?_eq hq',
    Option.map_some, heq]

theorem Reachable.restriction_of_listed (h : Reachable limits a)
    (hloaded : Loaded {} a.graph a.graph.log rules) {p : PatternPossibility}
    (hp : p ∈ a.graph.patternPossibilities) (hid : id ∈ p.restrictions) :
    ∃ r f, a.graph.ofKind? Kind.restriction? id = some r ∧ r.pattern = p.pattern ∧
      a.graph.ofKind? Kind.field? r.field = some f := by
  obtain ⟨r, hr, -, q, hq, hpattern, hmem⟩ := hloaded.exists_pattern hp
  have hsublist := ((hloaded.correct r hr).patterns_correct q hq).sublist_restrictions hmem
  obtain ⟨k, hk, hkpattern⟩ :=
    h.settled.sound.mem_withEntry_restriction.mp (hsublist.subset hid)
  obtain ⟨-, f, -, hf⟩ := h.pattern_of_restriction hk
  exact ⟨k, f, hk, hkpattern.trans hpattern, hf⟩

theorem Reachable.exists_listing (h : Reachable limits a)
    (hloaded : Loaded {} a.graph a.graph.log rules) {r : Graph.Restriction}
    (hr : a.graph.ofKind? Kind.restriction? id = some r) :
    ∃ p ∈ a.graph.patternPossibilitiesOf r.pattern, id ∈ p.restrictions := by
  obtain ⟨pattern, -, hpattern, -⟩ := h.pattern_of_restriction hr
  obtain ⟨placed, hplaced, -, q, hq, hid⟩ := h.placed_pattern hloaded hpattern
  rw [← hid]
  refine ((hloaded.correct placed hplaced).patterns_correct q hq).exists_mem_restrictions ?_
  exact h.settled.sound.mem_withEntry_restriction.mpr ⟨r, hr, hid.symm⟩

theorem Reachable.possibility_of_listed (h : Reachable limits a)
    (hloaded : Loaded {} a.graph a.graph.log rules) {p : RulePossibility}
    (hp : p ∈ a.graph.rulePossibilities) {listed : PossibilityId} (hid : listed ∈ p.patterns) :
    ∃ q, a.graph.patternPossibility? listed = some q ∧ q.rule = p.rule := by
  obtain ⟨r, hr, hrule, hmem⟩ := hloaded.exists_rule hp
  obtain ⟨q, hq, rfl⟩ :=
    List.mem_map.mp (((hloaded.correct r hr).sublist_patterns hmem).subset hid)
  have hkept : q ∈ a.graph.patternPossibilities := (hloaded.sublist_keptIn hr).subset hq
  refine ⟨q, h.settled.numbered.patternPossibility?_eq hkept, ?_⟩
  obtain ⟨placed, hplaced, hq⟩ := List.mem_flatMap.mp hq
  rw [← hrule]
  exact (hloaded.correct r hr).rule_eq placed (mem_closing_iff.mp hplaced) q hq

/-- **The possibilities of an analyzer are complete**: in whatever order and with whatever outcomes
calls have been made, every pattern and every rule has possibilities, which list what belongs to it
in order and leave nothing out. -/
theorem Reachable.complete (h : Reachable limits a) : a.graph.Complete := by
  obtain ⟨rules, hloaded⟩ := h.loaded
  have hsound := h.settled.sound
  have hincreasing := h.moves.tabled.increasing
  exact
    { patternPossibilities_ne_nil id pattern hpattern := by
        obtain ⟨r, hr, -, q, hq, rfl⟩ := h.placed_pattern hloaded hpattern
        exact ((hloaded.correct r hr).patterns_correct q hq).possibilities_ne_nil
      rulePossibilities_ne_nil id rule hrule := by
        obtain ⟨r, hr, rfl⟩ := h.placed_rule hloaded hrule
        exact (hloaded.correct r hr).possibilities_ne_nil
      pattern_eq p hp := by
        obtain ⟨r, hr, hrule, q, hq, hpattern, -⟩ := hloaded.exists_pattern hp
        rw [← hpattern, ← hrule]
        exact h.pattern_of_placed hloaded hr hq
      restrictions_lt p hp := by
        obtain ⟨r, hr, -, q, hq, -, hmem⟩ := hloaded.exists_pattern hp
        have hsublist := ((hloaded.correct r hr).patterns_correct q hq).sublist_restrictions hmem
        exact (hsound.pairwise_withEntry _).sublist hsublist
      restriction_eq p hp id hid := h.restriction_of_listed hloaded hp hid
      restriction_mem id r hr := h.exists_listing hloaded hr
      rule_eq p hp := by
        obtain ⟨r, hr, hrule, -⟩ := hloaded.exists_rule hp
        refine hsound.mem_withEntry_rule.mp ?_
        rw [hloaded.rules_eq, ← hrule]
        exact List.mem_map_of_mem hr
      patterns_lt p hp := by
        obtain ⟨r, hr, -, hmem⟩ := hloaded.exists_rule hp
        have hsublist := (hloaded.correct r hr).sublist_patterns hmem
        exact hincreasing.1.sublist (hsublist.trans ((hloaded.sublist_keptIn hr).map _))
      possibility_eq p hp id hid := h.possibility_of_listed hloaded hp hid
      pattern_inj p hp q hq q' hq' hmem hmem' heq := by
        obtain ⟨r, hr, -, hmemOf⟩ := hloaded.exists_rule hp
        exact h.pattern_inj hloaded hr hmemOf hq hq' hmem hmem' heq
      possibility_mem q hq := by
        obtain ⟨r, hr, hrule, placed, hplaced, -, hmem⟩ := hloaded.exists_pattern hq
        rw [← hrule]
        exact (hloaded.correct r hr).exists_mem_patterns hplaced hmem }

/-- The possibilities of two rules, one of which has a disjunction. -/
theorem complete_ofVacancies :
    ofVacancies.graph.Complete ∧
      ofVacancies.graph.patternPossibilities.map (·.restrictions) = [[7], [14], [15], [], []] ∧
      ofVacancies.graph.rulePossibilities.map (·.patterns) = [[1], [3, 5, 6], [4, 5, 6]] :=
  ⟨Reachable.complete reachable_ofVacancies, by decide +kernel, by decide +kernel⟩

end Analyzer

end RuleBase

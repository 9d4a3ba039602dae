import RuleBase.Proofs.Analysis.Collected
import RuleBase.Proofs.Condition.Choice

/-!
# Inside a rule

What a walk through a part of the condition of a rule leaves: one pattern for each pattern of the
part, under the quantifiers that it stands under, each with its restrictions and with the
possibilities that the formula of its constraints admits. The innermost group of the rule has been
handed the children that the formula of the part has over these possibilities.

* `PlacedPattern`, `PlacedPattern.CorrectIn`: a pattern in a log, and that it is expanded there;
* `Expanded`, **`Expanded.trans`**: patterns have been added and handed over.
-/

namespace RuleBase.Analysis

open RuleBase.Graph Condition

/-! ## Patterns in a log -/

/-- A pattern of a condition with its component, and the formulas of its constraints over the
restrictions that their comparisons have become. -/
structure PlacedPattern where
  id : ComponentId
  ast : Ast.Pattern
  restrictions : List (Formula ComponentId)

/-- A log has the restrictions of a pattern, and the possibilities that they admit. -/
structure PlacedPattern.CorrectIn (q : PlacedPattern) (log : Log) : Prop where
  shape_eq :
    q.restrictions.map (·.map fun _ => ()) = q.ast.constraints.map Ast.Element.inPattern
  restrictions_eq : log.withEntry (.restriction q.id) = q.restrictions.flatMap Formula.items
  possibilities_eq : (log.possibilitiesOf q.id).map (·.restrictions) =
    resolve .and (q.restrictions.flatMap (Formula.children alone))

/-- The possibilities of a pattern are the alternatives of one child. -/
def alternativesOf (log : Log) (q : PlacedPattern) : Alternatives PossibilityId :=
  (log.possibilitiesOf q.id).map ([·.id])

theorem children_alternativesOf_congr {log log' : Log} {l : List (Formula PlacedPattern)}
    (h : ∀ q ∈ l.flatMap Formula.items, log'.possibilitiesOf q.id = log.possibilitiesOf q.id) :
    l.flatMap (Formula.children (alternativesOf log')) =
      l.flatMap (Formula.children (alternativesOf log)) := by
  refine List.flatMap_congr fun t ht => Formula.children_congr fun q hq => ?_
  rw [alternativesOf, h q (List.mem_flatMap.mpr ⟨t, ht, hq⟩), alternativesOf]

theorem PlacedPattern.CorrectIn.of_eq {q : PlacedPattern} {log log' : Log} (h : q.CorrectIn log)
    (hentries : log'.withEntry (.restriction q.id) = log.withEntry (.restriction q.id))
    (hpossibilities : log'.possibilitiesOf q.id = log.possibilitiesOf q.id) : q.CorrectIn log' :=
  ⟨h.shape_eq, hentries.trans h.restrictions_eq, by rw [hpossibilities]; exact h.possibilities_eq⟩

/-- What a graph shows of a pattern. -/
def PlacedPattern.reading (g : Graph) (q : PlacedPattern) : Reading :=
  ⟨q.ast, g.heading? q.id, q.restrictions.map (·.map g.word?)⟩

/-- Patterns are shown as they were declared. -/
abbrev Describes : Graph → List (Formula PlacedPattern) → List (Formula Ast.Occurrence) → Prop :=
  Says PlacedPattern.reading Ast.Occurrence.reading

theorem shape_eq_of_describes {g : Graph} {parts : List (Formula PlacedPattern)}
    {elements : List Ast.Element} {around : List Quantifier}
    (h : Describes g parts (elements.map (Ast.Element.occurrences around))) :
    parts.map (Formula.map PlacedPattern.ast) = elements.map Ast.Element.inRule := by
  have hasts : parts.map (Formula.map PlacedPattern.ast) =
      (elements.map (Ast.Element.occurrences around)).map (Formula.map Ast.Occurrence.pattern) :=
    h.map_eq Reading.ast (fun _ => rfl) fun _ => rfl
  rw [hasts, List.map_map]
  exact List.map_congr_left fun e _ => Ast.map_occurrences around e

/-- From one state to another, the patterns of some formulas have been added to a rule, each with
what it admits, and handed to the innermost group of the rule. -/
structure Expanded (rule : ComponentId) (s s' : State) (new : Log)
    (parts : List (Formula PlacedPattern)) : Prop where
  log_eq : s'.graph.log = s.graph.log ++ new
  size_le : s.graph.size ≤ s'.graph.size
  kept : Kept s.graph s'.graph
  within : new.Within s.graph.size s'.graph.size
  entry_eq : ∀ e ∈ new.entries, e.2 = .pattern rule ∨ ∃ pattern, e.2 = .restriction pattern
  rulePossibilities_eq : new.rulePossibilities = []
  patterns_eq : new.withEntry (.pattern rule) = (parts.flatMap Formula.items).map (·.id)
  correct : ∀ q ∈ parts.flatMap Formula.items, q.CorrectIn new
  scopes_eq : pushAll pushToRule? (parts.flatMap (Formula.children (alternativesOf new))) s.scopes =
    some s'.scopes
  /-- The possibilities of one pattern are kept after those of another, all for the rule. -/
  kept_eq : new.patternPossibilities =
    (parts.flatMap Formula.closing).flatMap fun q => new.possibilitiesOf q.id
  rule_eq : ∀ p ∈ new.patternPossibilities, p.rule = rule

variable {rule : ComponentId} {s s₁ s' : State} {new new' : Log}
  {parts parts' : List (Formula PlacedPattern)}

theorem Quiet.expanded (h : Quiet s s') : Expanded rule s s' {} [] where
  log_eq := by rw [h.log_eq]; exact (Log.append_empty _).symm
  size_le := h.size_le
  kept := h.kept
  within := Log.within_empty _ _
  entry_eq := by rintro _ ⟨⟩
  rulePossibilities_eq := rfl
  patterns_eq := rfl
  correct _ hq := by cases hq
  scopes_eq := by rw [h.scopes_eq]; rfl
  kept_eq := rfl
  rule_eq := by rintro _ ⟨⟩

theorem mem_closing_iff {ι : Type} {parts : List (Formula ι)} {i : ι} :
    i ∈ parts.flatMap Formula.closing ↔ i ∈ parts.flatMap Formula.items :=
  (Formula.flatMap_closing_perm parts).mem_iff

namespace Expanded

theorem id_mem (h : Expanded rule s s' new parts) {q : PlacedPattern}
    (hq : q ∈ parts.flatMap Formula.items) : s.graph.size < q.id ∧ q.id ≤ s'.graph.size := by
  have hid : q.id ∈ new.withEntry (.pattern rule) := by
    rw [h.patterns_eq]
    exact List.mem_map_of_mem hq
  exact h.within.of_mem_withEntry hid

theorem outside (h : Expanded rule s s' new parts) {around : List Quantifier}
    (houtside : Outside around s.scopes) : Outside around s'.scopes := houtside.pushAll h.scopes_eq

/-- **What has been expanded before and after does not interfere**, because components are numbered
in the order in which they come about. -/
theorem trans (h : Expanded rule s s₁ new parts) (h' : Expanded rule s₁ s' new' parts') :
    Expanded rule s s' (new ++ new') (parts ++ parts') := by
  have hfirst : ∀ q ∈ parts.flatMap Formula.items,
      (new ++ new').withEntry (.restriction q.id) = new.withEntry (.restriction q.id) ∧
        (new ++ new').possibilitiesOf q.id = new.possibilitiesOf q.id := by
    intro q hq
    have hout := Or.inl (b := s'.graph.size < q.id) (h.id_mem hq).2
    rw [Log.withEntry_append, h'.within.withEntry_restriction hout, Log.possibilitiesOf_append,
      h'.within.possibilitiesOf hout, List.append_nil, List.append_nil]
    exact ⟨rfl, rfl⟩
  have hsecond : ∀ q ∈ parts'.flatMap Formula.items,
      (new ++ new').withEntry (.restriction q.id) = new'.withEntry (.restriction q.id) ∧
        (new ++ new').possibilitiesOf q.id = new'.possibilitiesOf q.id := by
    intro q hq
    have hout := Or.inr (a := q.id ≤ s.graph.size) (h'.id_mem hq).1
    rw [Log.withEntry_append, h.within.withEntry_restriction hout, Log.possibilitiesOf_append,
      h.within.possibilitiesOf hout, List.nil_append, List.nil_append]
    exact ⟨rfl, rfl⟩
  have hsize := h.size_le
  have hsize' := h'.size_le
  refine ⟨?_, Nat.le_trans hsize hsize', h.kept.trans h'.kept, ?_, ?_, ?_, ?_, ?_, ?_, ?_, ?_⟩
  · rw [h'.log_eq, h.log_eq, Log.append_assoc]
  · exact (h.within.mono (Nat.le_refl _) hsize').append (h'.within.mono hsize (Nat.le_refl _))
  · intro e he
    exact (List.mem_append.mp he).elim (h.entry_eq e) (h'.entry_eq e)
  · rw [Log.rulePossibilities_append, h.rulePossibilities_eq, h'.rulePossibilities_eq]
    rfl
  · rw [Log.withEntry_append, h.patterns_eq, h'.patterns_eq, List.flatMap_append, List.map_append]
  · intro q hq
    rw [List.flatMap_append, List.mem_append] at hq
    rcases hq with hq | hq
    · exact (h.correct q hq).of_eq (hfirst q hq).1 (hfirst q hq).2
    · exact (h'.correct q hq).of_eq (hsecond q hq).1 (hsecond q hq).2
  · rw [List.flatMap_append, children_alternativesOf_congr fun q hq => (hfirst q hq).2,
      children_alternativesOf_congr fun q hq => (hsecond q hq).2, pushAll_append, h.scopes_eq]
    exact h'.scopes_eq
  · rw [Log.patternPossibilities_append, h.kept_eq, h'.kept_eq, List.flatMap_append,
      List.flatMap_append, List.flatMap_congr fun q hq => (hfirst q (mem_closing_iff.mp hq)).2,
      List.flatMap_congr fun q hq => (hsecond q (mem_closing_iff.mp hq)).2]
  · intro p hp
    exact (List.mem_append.mp hp).elim (h.rule_eq p) (h'.rule_eq p)

/-- The same patterns under other formulas, once these have been handed over. -/
theorem regroup (h : Expanded rule s s₁ new parts)
    (hitems : parts'.flatMap Formula.items = parts.flatMap Formula.items)
    (hclosing : parts'.flatMap Formula.closing = parts.flatMap Formula.closing)
    {scopes scopes' : Scopes}
    (hscopes : pushAll pushToRule? (parts'.flatMap (Formula.children (alternativesOf new))) scopes =
      some scopes') : Expanded rule { s with scopes } { s₁ with scopes := scopes' } new parts' :=
  { h with
    patterns_eq := by rw [hitems]; exact h.patterns_eq
    correct := by rw [hitems]; exact h.correct
    scopes_eq := hscopes
    kept_eq := by rw [hclosing]; exact h.kept_eq }

theorem list (h : Expanded rule s s' new parts) : Expanded rule s s' new [.list parts] :=
  h.regroup (by simp [Formula.items]) (by simp [Formula.closing])
    (by simpa [Formula.children] using h.scopes_eq)

end Expanded

/-- What a walk inside a rule expands, under the given quantifiers. -/
def Expands (rule : ComponentId) (around : List Quantifier) (body : Walk Unit)
    (us : List (Formula Ast.Occurrence)) : Prop :=
  ∀ s s', Outside around s.scopes → body s = .ok () s' →
    ∃ new parts, Describes s'.graph parts us ∧ Expanded rule s s' new parts

variable {limits : Limits} {site : RuleSite} {around : List Quantifier} {body : Walk Unit}
  {closed : Closed} {us : List (Formula Ast.Occurrence)}

theorem expanded_within_group {connective : Connective} (hbody : Expands rule around body us)
    (houtside : Outside around s.scopes)
    (hrun : within limits site (.operator connective) body s = .ok closed s') :
    ∃ new t, Describes s'.graph [t] [.group connective us] ∧ Expanded rule s s' new [t] := by
  obtain ⟨frame, s₁, hframe, hinside, scopes, hclose, rfl⟩ := within_eq_ok hrun
  obtain rfl : frame = .ruleOperator ⟨connective, []⟩ := by
    rw [newFrame_operator hframe, houtside.patternIsOpen_eq]
    rfl
  obtain ⟨new, parts, hparts, hexpanded⟩ :=
    hbody { s with scopes := .ruleOperator ⟨connective, []⟩ :: s.scopes } s₁
      (houtside.ruleOperator _) hinside
  have hscopes := hexpanded.scopes_eq
  rw [pushAll_ruleOperator] at hscopes
  have hpush := close_ruleOperator (hclose _ _ (Option.some.inj hscopes).symm)
  rw [Group.combined, combine_eq_resolve] at hpush
  exact ⟨new, .group connective parts, hparts.group connective,
    hexpanded.regroup (by simp [Formula.items]) (by simp [Formula.closing])
      (by simp [Formula.children, pushAll, hpush])⟩

theorem expanded_within_list {q : Quantifier} (hbody : Expands rule (q :: around) body us)
    (houtside : Outside around s.scopes)
    (hrun : within limits site (.quantifier q) body s = .ok closed s') :
    ∃ new t, Describes s'.graph [t] [.list us] ∧ Expanded rule s s' new [t] := by
  obtain ⟨frame, s₁, hframe, hinside, scopes, hclose, rfl⟩ := within_eq_ok hrun
  obtain rfl := newFrame_quantifier hframe
  obtain ⟨new, parts, hparts, hexpanded⟩ :=
    hbody { s with scopes := .quantifier q :: s.scopes } s₁ (houtside.quantifier q) hinside
  have hscopes := hexpanded.scopes_eq
  rw [pushing_rule.pushAll_quantifier] at hscopes
  obtain ⟨rest, hrest, heq⟩ := Option.map_eq_some_iff.mp hscopes
  obtain rfl := close_quantifier (hclose _ _ heq.symm)
  exact ⟨new, .list parts, hparts.list, (hexpanded.regroup rfl rfl hrest).list⟩

end RuleBase.Analysis

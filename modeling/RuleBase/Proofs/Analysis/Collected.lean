import RuleBase.Proofs.Analysis.Drawn
import RuleBase.Proofs.Analysis.Quiet
import RuleBase.Proofs.Analysis.Reading

/-!
# Inside a pattern

A walk through the constraints of a pattern that succeeds has added one restriction for each
comparison, which is shown as the comparison is, and has handed the innermost group of the pattern
the children that the formula of the constraints has over these restrictions.

* **`collect_restriction`**, **`collect_element`**: the walk through a restriction, and through an
  element inside a pattern.
-/

namespace RuleBase.Analysis

open RuleBase.Graph Condition

/-! ## Restrictions -/

/-- A restriction is a child with one conjunction of its own. -/
def alone (id : ComponentId) : Alternatives ComponentId := [[id]]

/-- The log of some restrictions of a pattern. -/
def restrictionLog (pattern : ComponentId) (ids : List ComponentId) : Log :=
  { entries := ids.map (·, .restriction pattern) }

theorem restrictionLog_append (pattern : ComponentId) (ids ids' : List ComponentId) :
    restrictionLog pattern (ids ++ ids') =
      restrictionLog pattern ids ++ restrictionLog pattern ids' := by
  change Log.mk _ _ _ = Log.mk _ _ _
  simp [restrictionLog]

/-- From one state to another, the restrictions of some formulas have been added to a pattern and
handed to its innermost group. -/
structure Collected (pattern : ComponentId) (s s' : State) (parts : List (Formula ComponentId)) :
    Prop where
  log_eq : s'.graph.log = s.graph.log ++ restrictionLog pattern (parts.flatMap Formula.items)
  size_le : s.graph.size ≤ s'.graph.size
  id_mem : ∀ id ∈ parts.flatMap Formula.items, s.graph.size < id ∧ id ≤ s'.graph.size
  kept : Kept s.graph s'.graph
  scopes_eq :
    pushAll pushToPattern? (parts.flatMap (Formula.children alone)) s.scopes = some s'.scopes

variable {pattern : ComponentId} {s s₁ s' : State} {parts parts' : List (Formula ComponentId)}

theorem Quiet.collected (h : Quiet s s') : Collected pattern s s' [] where
  log_eq := by rw [h.log_eq]; exact (Log.append_empty _).symm
  size_le := h.size_le
  id_mem _ hid := by cases hid
  kept := h.kept
  scopes_eq := by rw [h.scopes_eq]; rfl

namespace Collected

theorem trans (h : Collected pattern s s₁ parts) (h' : Collected pattern s₁ s' parts') :
    Collected pattern s s' (parts ++ parts') where
  log_eq := by
    rw [h'.log_eq, h.log_eq, Log.append_assoc, List.flatMap_append, restrictionLog_append]
  size_le := Nat.le_trans h.size_le h'.size_le
  id_mem id hid := by
    rw [List.flatMap_append, List.mem_append] at hid
    rcases hid with hid | hid
    · exact ⟨(h.id_mem id hid).1, Nat.le_trans (h.id_mem id hid).2 h'.size_le⟩
    · exact ⟨Nat.lt_of_le_of_lt h.size_le (h'.id_mem id hid).1, (h'.id_mem id hid).2⟩
  kept := h.kept.trans h'.kept
  scopes_eq := by
    rw [List.flatMap_append, pushAll_append, h.scopes_eq]
    exact h'.scopes_eq

theorem patternIsOpen_eq (h : Collected pattern s s' parts) :
    patternIsOpen s'.scopes = patternIsOpen s.scopes :=
  eq_of_pushAll (fun _ _ _ => pushing_pattern.patternIsOpen_eq) h.scopes_eq

theorem list (h : Collected pattern s s' parts) : Collected pattern s s' [.list parts] where
  log_eq := by simpa [Formula.items] using h.log_eq
  size_le := h.size_le
  id_mem := by simpa [Formula.items] using h.id_mem
  kept := h.kept
  scopes_eq := by simpa [Formula.children] using h.scopes_eq

end Collected

/-- What a walk inside a pattern collects that starts from a graph. -/
def Collects (pattern : ComponentId) (g : Graph) (body : Walk Unit)
    (words : List (Formula String)) : Prop :=
  ∀ s s', s.graph = g → patternIsOpen s.scopes = true → body s = .ok () s' →
    ∃ parts, Reads s'.graph parts words ∧ Collected pattern s s' parts

variable {limits : Limits} {rule : RuleSite} {body : Walk Unit} {closed : Closed}
  {words : List (Formula String)}

theorem collected_within_group {connective : Connective}
    (hbody : Collects pattern s.graph body words) (hopen : patternIsOpen s.scopes = true)
    (hrun : within limits rule (.operator connective) body s = .ok closed s') :
    ∃ t, Reads s'.graph [t] [.group connective words] ∧ Collected pattern s s' [t] := by
  obtain ⟨frame, s₁, hframe, hinside, scopes, hclose, rfl⟩ := within_eq_ok hrun
  obtain rfl : frame = .patternOperator ⟨connective, []⟩ := by
    rw [newFrame_operator hframe, if_pos hopen]
  obtain ⟨parts, hparts, hcollected⟩ :=
    hbody { s with scopes := .patternOperator ⟨connective, []⟩ :: s.scopes } s₁ rfl rfl hinside
  have hscopes := hcollected.scopes_eq
  rw [pushAll_patternOperator] at hscopes
  have hpush := close_patternOperator (hclose _ _ (Option.some.inj hscopes).symm)
  rw [Group.combined, combine_eq_resolve] at hpush
  refine ⟨.group connective parts, hparts.group connective, ?_, hcollected.size_le, ?_,
    hcollected.kept, ?_⟩
  · simpa [Formula.items] using hcollected.log_eq
  · simpa [Formula.items] using hcollected.id_mem
  · simp [Formula.children, pushAll, hpush]

theorem collected_within_list {q : Quantifier} (hbody : Collects pattern s.graph body words)
    (hopen : patternIsOpen s.scopes = true)
    (hrun : within limits rule (.quantifier q) body s = .ok closed s') :
    ∃ t, Reads s'.graph [t] [.list words] ∧ Collected pattern s s' [t] := by
  obtain ⟨frame, s₁, hframe, hinside, scopes, hclose, rfl⟩ := within_eq_ok hrun
  obtain rfl := newFrame_quantifier hframe
  obtain ⟨parts, hparts, hcollected⟩ :=
    hbody { s with scopes := .quantifier q :: s.scopes } s₁ rfl hopen hinside
  have hscopes := hcollected.scopes_eq
  rw [pushing_pattern.pushAll_quantifier] at hscopes
  obtain ⟨rest, hrest, heq⟩ := Option.map_eq_some_iff.mp hscopes
  obtain rfl := close_quantifier (hclose _ _ heq.symm)
  exact ⟨.list parts, hparts.list, Collected.list ⟨hcollected.log_eq, hcollected.size_le,
    hcollected.id_mem, hcollected.kept, hrest⟩⟩

/-! ## Restrictions of a field -/

theorem collected_add {parent : Option ComponentId} {r : Graph.Restriction} {id : ComponentId}
    (hadd : add parent (.restriction r) s = .ok id s₁) (hquiet : Quiet s₁ s')
    {scopes : Scopes} (hpush : pushToPattern? (alone id) s'.scopes = some scopes) :
    Collected r.pattern s { s' with scopes } [.item id] := by
  have hadded := added_of_add hadd
  have hlog : s'.graph.log = s.graph.log ++ restrictionLog r.pattern [id] :=
    hquiet.log_eq.trans hadded.log_eq
  have hsize : id ≤ s'.graph.size := hadded.size_eq ▸ hquiet.size_le
  refine ⟨by simpa [Formula.items] using hlog, Nat.le_trans (Nat.le_of_lt hadded.lt) hsize,
    fun i hi => ?_, hadded.kept.trans hquiet.kept, ?_⟩
  · obtain rfl : i = id := by simpa [Formula.items] using hi
    exact ⟨hadded.lt, hsize⟩
  · rw [hquiet.scopes_eq, hadded.scopes_eq] at hpush
    simp [Formula.children, pushAll, hpush]

/-- A comparison is one restriction of the pattern, which is shown as the comparison is. -/
theorem collect_comparison {pattern : PatternSite} {constraint : ConstraintSite}
    {parent : ComponentId} {symbol field : String} {negated : Bool} {operand : Ast.Operand}
    (hfield : (s.graph.ofKind? Kind.constraint? constraint.id).map (·.fieldName) = some field)
    (hrun : lowerComparison rule pattern constraint parent symbol negated operand s = .ok () s') :
    ∃ t, Reads s'.graph [t] [(Ast.Restriction.comparison symbol negated operand).wording field] ∧
      Collected pattern.id s s' [t] := by
  have hplain := admits_quiet rule.id
  obtain ⟨operator, s₁, hoperator, hrest⟩ := bind_eq_ok hrun
  obtain ⟨operand', s₂, hoperand, hrest⟩ := bind_eq_ok hrest
  obtain ⟨id, s₃, hadd, hrest⟩ := bind_eq_ok hrest
  obtain ⟨u, s₄, hsettle, hscopes⟩ := bind_eq_ok hrest
  obtain ⟨hdetermined, rfl⟩ := orFail_eq_ok hoperator
  have hbefore : Quiet s₁ s₂ := (plain_lowerOperand hplain rule _).of_ok hoperand
  have hafter : Quiet s₃ s₄ := (plain_settleType hplain _ _).of_ok hsettle
  obtain ⟨scopes, hpush, rfl⟩ := inScopes_eq_ok hscopes
  have hcollected := hbefore.collected.trans (collected_add hadd hafter (addToPattern_eq_ok hpush))
  refine ⟨.item id, ?_, hcollected⟩
  rw [Ast.Restriction.wording]
  refine Says.item fun g hkept => ?_
  have hmade := (added_of_add hadd).made.keep (hafter.kept.trans hkept)
  rw [hmade.word? ((hcollected.kept.trans hkept).fieldName hfield), Graph.Restriction.display,
    Ast.operatorText, hdetermined, ← term_of_lowerOperand hoperand, Operand.display_term]
  rfl

mutual
/-- **The walk through a restriction** collects what its formula says. -/
theorem collect_restriction {site : Site} {pattern : PatternSite} {constraint : ConstraintSite}
    {parent : ComponentId} (hsite : site.pattern? = some pattern)
    (hconstraint : site.constraint? = some constraint) (r : Ast.Restriction) {field : String}
    {s s' : State}
    (hfield : (s.graph.ofKind? Kind.constraint? constraint.id).map (·.fieldName) = some field)
    (hopen : patternIsOpen s.scopes = true)
    (hrun : lowerRestriction limits site parent r s = .ok () s') :
    ∃ t, Reads s'.graph [t] [r.wording field] ∧ Collected pattern.id s s' [t] := by
  cases r with
  | comparison symbol negated operand =>
    rw [lowerRestriction] at hrun
    obtain ⟨place, s₁, hplace, hrest⟩ := bind_eq_ok hrun
    obtain ⟨⟨hpattern, hinside⟩, rfl⟩ := site_constraint_eq_ok hplace
    obtain rfl : pattern = place.1 := Option.some.inj (hsite.symm.trans hpattern)
    obtain rfl : constraint = place.2 := Option.some.inj (hconstraint.symm.trans hinside)
    exact collect_comparison hfield hrest
  | group connective restrictions =>
    rw [lowerRestriction] at hrun
    obtain ⟨place, s₁, hplace, hrest₁⟩ := bind_eq_ok hrun
    obtain ⟨-, rfl⟩ := site_constraint_eq_ok hplace
    obtain ⟨site', s₂, hdescend, hrest₂⟩ := bind_eq_ok hrest₁
    obtain ⟨⟨depth, rfl⟩, rfl⟩ := descend_eq_ok hdescend
    obtain ⟨closed, s₃, hwithin, hdone⟩ := bind_eq_ok hrest₂
    cases hdone
    have hdeeper : ({ site with depth } : Site).pattern? = some pattern := hsite
    have hbelow : ({ site with depth } : Site).constraint? = some constraint := hconstraint
    rw [Ast.Restriction.wording]
    exact collected_within_group (fun _ _ hgraph hopen hrun =>
      collect_restrictions hdeeper hbelow restrictions (hgraph ▸ hfield) hopen hrun) hopen hwithin
  | unknown =>
    rw [lowerRestriction] at hrun
    obtain ⟨place, s₁, hplace, hdone⟩ := bind_eq_ok hrun
    obtain ⟨-, rfl⟩ := site_constraint_eq_ok hplace
    cases hdone
    rw [Ast.Restriction.wording]
    exact ⟨.list [], (Says.nil _).list, (quiet_refl _).collected.list⟩

theorem collect_restrictions {site : Site} {pattern : PatternSite} {constraint : ConstraintSite}
    {parent : ComponentId} (hsite : site.pattern? = some pattern)
    (hconstraint : site.constraint? = some constraint) (rs : List Ast.Restriction) {field : String}
    {s s' : State}
    (hfield : (s.graph.ofKind? Kind.constraint? constraint.id).map (·.fieldName) = some field)
    (hopen : patternIsOpen s.scopes = true)
    (hrun : lowerRestrictions limits site parent rs s = .ok () s') :
    ∃ ts, Reads s'.graph ts (rs.map (Ast.Restriction.wording field)) ∧
      Collected pattern.id s s' ts := by
  cases rs with
  | nil =>
    rw [lowerRestrictions] at hrun
    cases hrun
    exact ⟨[], Says.nil _, (quiet_refl s).collected⟩
  | cons r rest =>
    rw [lowerRestrictions] at hrun
    obtain ⟨u, s₁, hfirst, hrest⟩ := bind_eq_ok hrun
    obtain ⟨t, ht, hcollected⟩ := collect_restriction hsite hconstraint r hfield hopen hfirst
    have hopen₁ : patternIsOpen s₁.scopes = true := hcollected.patternIsOpen_eq.trans hopen
    obtain ⟨ts, hts, hmore⟩ := collect_restrictions hsite hconstraint rest
      (hcollected.kept.fieldName hfield) hopen₁ hrest
    exact ⟨t :: ts, (ht.keep hmore.kept).append hts, hcollected.trans hmore⟩
end

/-! ## Constraints of a pattern -/

theorem collect_constraint {site : Site} {pattern : PatternSite} {parent : ComponentId}
    (hsite : site.pattern? = some pattern) {fieldName : String}
    {restrictions : List Ast.Restriction} {line : Nat} (hopen : patternIsOpen s.scopes = true)
    (hrun : lowerConstraint limits site parent fieldName restrictions line s = .ok () s') :
    ∃ ts, Reads s'.graph ts (restrictions.map (Ast.Restriction.wording fieldName)) ∧
      Collected pattern.id s s' ts := by
  have hplain := admits_quiet site.rule.id
  obtain ⟨pattern', s₁, hpattern, hrun₁⟩ := bind_eq_ok hrun
  obtain ⟨hsame, rfl⟩ := site_pattern_eq_ok hpattern
  obtain ⟨field, s₂, hfield, hrun₂⟩ := bind_eq_ok hrun₁
  obtain ⟨id, s₃, hadd, hrest⟩ := bind_eq_ok hrun₂
  have hquiet : Quiet s₁ s₃ := IsTrans.trans _ _ _
    ((plain_fieldFor hplain pattern' fieldName line).of_ok hfield)
    ((plain_add hplain rfl rfl).of_ok hadd)
  have hname : (s₃.graph.ofKind? Kind.constraint? id).map (·.fieldName) = some fieldName := by
    rw [(added_of_add hadd).made.ofKind? fun k => by cases k <;> rfl]
    rfl
  have hdeeper : ({ site with constraint? := some ⟨id, field⟩ } : Site).pattern? = some pattern :=
    hsite
  obtain ⟨ts, hts, hcollected⟩ :=
    collect_restrictions hdeeper rfl restrictions hname (hquiet.scopes_eq ▸ hopen) hrest
  exact ⟨ts, hts, hquiet.collected.trans hcollected⟩

theorem Quiet.collects_nothing (h : Quiet s s') :
    ∃ t, Reads s'.graph [t] [.list []] ∧ Collected pattern s s' [t] :=
  ⟨.list [], (Says.nil _).list, h.collected.list⟩

mutual
/-- **The walk through an element inside a pattern** collects what its formula says. -/
theorem collect_element {site : Site} {pattern : PatternSite} {parent : ComponentId}
    (hsite : site.pattern? = some pattern) (e : Ast.Element) {s s' : State}
    (hopen : patternIsOpen s.scopes = true)
    (hrun : lowerElement limits site parent e s = .ok () s') :
    ∃ t, Reads s'.graph [t] [e.wording] ∧ Collected pattern.id s s' [t] := by
  have hplain := admits_quiet site.rule.id
  cases e with
  | pattern p =>
    rw [lowerElement] at hrun
    obtain ⟨id, s₁, hpattern, -⟩ := bind_eq_ok hrun
    exact absurd hpattern (lowerPattern_ne_ok p hopen)
  | group connective elements =>
    rw [lowerElement] at hrun
    obtain ⟨site', s₁, hdescend, hrun₁⟩ := bind_eq_ok hrun
    obtain ⟨⟨depth, rfl⟩, rfl⟩ := descend_eq_ok hdescend
    obtain ⟨id, s₂, hadd, hrun₂⟩ := bind_eq_ok hrun₁
    obtain ⟨closed, s₃, hwithin, hdone⟩ := bind_eq_ok hrun₂
    cases hdone
    have hquiet : Quiet s₁ s₂ := (plain_add hplain rfl rfl).of_ok hadd
    have hdeeper : ({ site with depth } : Site).pattern? = some pattern := hsite
    rw [Ast.Element.wording]
    obtain ⟨t, ht, hcollected⟩ := collected_within_group
      (fun _ _ _ hopen hrun => collect_elements hdeeper elements hopen hrun)
      (hquiet.scopes_eq ▸ hopen) hwithin
    exact ⟨t, ht, hquiet.collected.trans hcollected⟩
  | quantified q elements =>
    rw [lowerElement] at hrun
    obtain ⟨site', s₁, hdescend, hrun₁⟩ := bind_eq_ok hrun
    obtain ⟨⟨depth, rfl⟩, rfl⟩ := descend_eq_ok hdescend
    obtain ⟨closed, s₃, hwithin, hdone⟩ := bind_eq_ok hrun₁
    cases hdone
    have hdeeper : ({ site with depth } : Site).pattern? = some pattern := hsite
    rw [Ast.Element.wording]
    exact collected_within_list
      (fun _ _ _ hopen hrun => collect_elements hdeeper elements hopen hrun) hopen hwithin
  | eval content method =>
    rw [lowerElement] at hrun
    obtain ⟨id, s₁, hadd, hdone⟩ := bind_eq_ok hrun
    cases hdone
    have hquiet : Quiet s s' := (plain_add hplain rfl rfl).of_ok hadd
    rw [Ast.Element.wording]
    exact hquiet.collects_nothing
  | predicate content method =>
    rw [lowerElement] at hrun
    obtain ⟨pattern', s₁, hpattern, hrun₁⟩ := bind_eq_ok hrun
    obtain ⟨-, rfl⟩ := site_pattern_eq_ok hpattern
    obtain ⟨id, s₂, hadd, hdone⟩ := bind_eq_ok hrun₁
    cases hdone
    have hquiet : Quiet s₁ s' := (plain_add hplain rfl rfl).of_ok hadd
    rw [Ast.Element.wording]
    exact hquiet.collects_nothing
  | constraint fieldName restrictions line =>
    rw [lowerElement] at hrun
    obtain ⟨ts, hts, hcollected⟩ := collect_constraint hsite hopen hrun
    rw [Ast.Element.wording]
    exact ⟨.list ts, hts.list, hcollected.list⟩
  | binding identifier fieldName line =>
    rw [lowerElement] at hrun
    obtain ⟨pattern', s₁, hpattern, hrun₁⟩ := bind_eq_ok hrun
    obtain ⟨-, rfl⟩ := site_pattern_eq_ok hpattern
    obtain ⟨field, s₂, hfield, hrest⟩ := bind_eq_ok hrun₁
    have hquiet : Quiet s₁ s' := IsTrans.trans _ _ _
      ((plain_fieldFor hplain pattern' fieldName line).of_ok hfield)
      ((plain_addVar hplain parent identifier .field field fieldName).of_ok hrest)
    rw [Ast.Element.wording]
    exact hquiet.collects_nothing
  | unknown =>
    rw [lowerElement] at hrun
    cases hrun
    rw [Ast.Element.wording]
    exact (quiet_refl s).collects_nothing

theorem collect_elements {site : Site} {pattern : PatternSite} {parent : ComponentId}
    (hsite : site.pattern? = some pattern) (es : List Ast.Element) {s s' : State}
    (hopen : patternIsOpen s.scopes = true)
    (hrun : lowerElements limits site parent es s = .ok () s') :
    ∃ ts, Reads s'.graph ts (es.map Ast.Element.wording) ∧ Collected pattern.id s s' ts := by
  cases es with
  | nil =>
    rw [lowerElements] at hrun
    cases hrun
    exact ⟨[], Says.nil _, (quiet_refl s).collected⟩
  | cons e rest =>
    rw [lowerElements] at hrun
    obtain ⟨u, s₁, hfirst, hrest⟩ := bind_eq_ok hrun
    obtain ⟨t, ht, hcollected⟩ := collect_element hsite e hopen hfirst
    have hopen₁ : patternIsOpen s₁.scopes = true := hcollected.patternIsOpen_eq.trans hopen
    obtain ⟨ts, hts, hmore⟩ := collect_elements hsite rest hopen₁ hrest
    exact ⟨t :: ts, (ht.keep hmore.kept).append hts, hcollected.trans hmore⟩
end

end RuleBase.Analysis

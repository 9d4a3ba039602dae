import RuleBase.Proofs.Analysis.Drawing
import RuleBase.Proofs.Ast.Outline

/-!
# Rules are drawn as they are declared

The walk through a rule draws its outline: each part of the walk draws the outlines of its part of
the rule, and what has no node of its own draws into the component around it.

* **`draws_lowerElement`**, `draws_lowerPattern`, `draws_lowerSource`: the parts of a condition;
* `Drawn`, **`drawn_of_lowerRule`**, `drawn_of_loadAll`: new rules have their outlines.
-/

namespace RuleBase.Analysis

open RuleBase.Graph Condition

variable {p : ComponentId} {classes : List ComponentId}

/-! ## Comparisons -/

theorem draws_attach {id : ComponentId} {change : Option Reference → Kind → Kind}
    (reference : Option Reference) (hkeeping : ∀ reference, Keeping (change reference))
    (hlabel : ∀ reference k, (change reference k).label = k.label) :
    Draws p classes (attach id change reference) [] := by
  cases reference with
  | none => exact draws_pure ()
  | some reference => exact draws_modify id (hkeeping _) (hlabel _)

theorem draws_varFor (rule : RuleSite) (name : String) :
    Draws p classes (varFor rule name) [] := by
  refine draws_of_graph_eq fun s id s' hrun => ?_
  obtain ⟨found, s₁, hlook, hfound⟩ := bind_eq_ok hrun
  cases hlook
  rw [(orFail_eq_ok hfound).2]

theorem draws_site_constraint (site : Site) (node : Inner) :
    Draws p classes (site.constraint node) [] :=
  draws_of_graph_eq fun _ _ _ hrun => by rw [(site_constraint_eq_ok hrun).2]

theorem draws_lowerOperand (rule : RuleSite) (operand : Ast.Operand) :
    Draws p classes (lowerOperand rule operand) [] := by
  cases operand with
  | literal text => exact draws_pure _
  | var identifier => exact draws_silent_bind (draws_varFor rule identifier) fun _ => draws_pure _
  | returnValue content declarations method => exact draws_pure _
  | qualified text =>
    refine draws_orFail_bind fun split _ => ?_
    refine draws_silent_bind (draws_varFor rule split.1) fun id => ?_
    exact draws_silent_bind (draws_modify id keeping_asField fun k => by cases k <;> rfl)
      fun _ => draws_pure _

theorem term_of_lowerOperand {rule : RuleSite} {operand : Ast.Operand} {operand' : Operand}
    {s s' : State} (hrun : lowerOperand rule operand s = .ok operand' s') :
    operand'.term = operand.term := by
  cases operand with
  | literal text =>
    cases hrun
    rfl
  | var identifier =>
    obtain ⟨id, s₁, -, hdone⟩ := bind_eq_ok hrun
    cases hdone
    rfl
  | returnValue content declarations method =>
    cases hrun
    rfl
  | qualified text =>
    obtain ⟨split, s₁, hsplit, hrest⟩ := bind_eq_ok hrun
    obtain ⟨id, s₂, -, hrest⟩ := bind_eq_ok hrest
    obtain ⟨u, s₃, -, hdone⟩ := bind_eq_ok hrest
    cases hdone
    have hparts := (orFail_eq_ok hsplit).1
    rw [splitPath?] at hparts
    obtain ⟨-, hsome⟩ := Option.ite_none_left_eq_some.mp hparts
    obtain rfl := Option.some.inj hsome
    rfl

theorem draws_settleType (field : ComponentId) (type : Option FieldType) :
    Draws p classes (settleType field type) [] := by
  cases type with
  | none => exact draws_pure ()
  | some t => exact draws_modify field (keeping_refine t) (label_onField _)

theorem draws_lowerComparison (rule : RuleSite) (pattern : PatternSite)
    (constraint : ConstraintSite) (symbol : String) (negated : Bool) (operand : Ast.Operand) :
    Draws p classes (lowerComparison rule pattern constraint p symbol negated operand)
      ((Ast.Restriction.comparison symbol negated operand).outlines rule.name) := by
  refine draws_orFail_bind fun operator hoperator => ?_
  refine draws_value_bind (draws_lowerOperand rule operand)
    (fun _ _ _ hrun => term_of_lowerOperand hrun) fun operand' hterm => ?_
  rw [Ast.Restriction.outlines, hoperator, ← hterm]
  refine draws_node_bind (by rintro ⟨⟩) (by rintro ⟨⟩) fun id => ?_
  exact draws_silent_bind (draws_settleType _ _) fun _ => draws_inScopes _ _

mutual
theorem draws_lowerRestriction (limits : Limits) (site : Site) (r : Ast.Restriction) :
    Draws p classes (lowerRestriction limits site p r) (r.outlines site.rule.name) := by
  cases r with
  | comparison symbol negated operand =>
    rw [lowerRestriction]
    exact draws_silent_bind (draws_site_constraint site _) fun place =>
      draws_lowerComparison site.rule place.1 place.2 symbol negated operand
  | group connective restrictions =>
    rw [lowerRestriction, Ast.Restriction.outlines]
    refine draws_silent_bind (draws_site_constraint site _) fun _ => draws_descend_bind fun _ => ?_
    exact draws_bind_silent (draws_within (draws_lowerRestrictions limits _ restrictions))
      fun _ => draws_pure ()
  | unknown =>
    rw [lowerRestriction, Ast.Restriction.outlines]
    exact draws_silent_bind (draws_site_constraint site _) fun _ => draws_pure ()

theorem draws_lowerRestrictions (limits : Limits) (site : Site) (rs : List Ast.Restriction) :
    Draws p classes (lowerRestrictions limits site p rs)
      (rs.map (Ast.Restriction.outlines site.rule.name)).flatten := by
  cases rs with
  | nil =>
    rw [lowerRestrictions]
    exact draws_pure ()
  | cons r rest =>
    rw [lowerRestrictions, List.map_cons, List.flatten_cons]
    exact draws_bind (draws_lowerRestriction limits site r) fun _ =>
      draws_lowerRestrictions limits site rest
end

/-! ## Invokers -/

theorem draws_addTyped {kind : Kind} (hlabel : kind.label ≠ .shared)
    (hrule : kind.logged? ≠ some .rule) :
    Draws p classes (addTyped p kind) [.leaf kind.label] :=
  draws_node_bind hlabel hrule fun _ => draws_pure _

mutual
theorem draws_lowerInvoker (limits : Limits) (site : Site) (p : ComponentId) (i : Ast.Invoker) :
    Draws p classes (lowerInvoker limits site p i) i.outlines := by
  cases i with
  | fieldAccess name argument =>
    rw [lowerInvoker, Ast.Invoker.outlines]
    exact draws_addTyped nofun nofun
  | methodAccess name arguments =>
    rw [lowerInvoker, Ast.Invoker.outlines]
    exact draws_addTyped nofun nofun
  | functionCall name arguments =>
    rw [lowerInvoker, Ast.Invoker.outlines]
    exact draws_addTyped nofun nofun
  | accessor name invokers =>
    rw [lowerInvoker, Ast.Invoker.outlines]
    refine draws_descend_bind fun _ => draws_node_bind nofun nofun fun id => ?_
    exact draws_bind_silent (draws_lowerInvokers limits _ id invokers) fun _ => draws_pure _
  | unknown =>
    rw [lowerInvoker, Ast.Invoker.outlines]
    exact draws_pure _

theorem draws_lowerInvokers (limits : Limits) (site : Site) (p : ComponentId)
    (is : List Ast.Invoker) :
    Draws p classes (lowerInvokers limits site p is) (is.map Ast.Invoker.outlines).flatten := by
  cases is with
  | nil =>
    rw [lowerInvokers]
    exact draws_pure ()
  | cons i rest =>
    rw [lowerInvokers, List.map_cons, List.flatten_cons]
    exact draws_bind (draws_lowerInvoker limits site p i) fun _ =>
      draws_lowerInvokers limits site p rest
end

/-! ## Elements -/

theorem draws_addVar (rule : RuleSite) (name : String) (objectType : ComponentType)
    (object : ComponentId) (objectName : String) :
    Draws p classes (addVar rule p name objectType object objectName)
      [.leaf (.var rule.name name objectName)] :=
  draws_node_bind nofun nofun fun _ => draws_pure ()

theorem draws_bindPattern (rule : RuleSite) (factClass : ComponentId) (objectType : String)
    (identifier : Option String) :
    Draws p classes (bindPattern rule p factClass objectType identifier)
      (identifier.toList.map fun name => .leaf (.var rule.name name objectType)) := by
  cases identifier with
  | none => exact draws_pure ()
  | some name => exact draws_addVar rule name .factClass factClass objectType

theorem draws_handOver (rule : RuleSite) (closed : Closed) :
    Draws p classes (handOver rule closed) [] := by
  cases closed with
  | pattern id possibilities =>
    exact draws_silent_bind (draws_keepPatternPossibilities _ _ _) fun _ => draws_inScopes _ _
  | _ => exact draws_pure ()

/-- The class of the pattern that a walk is in does not belong to the rule. -/
def Site.SharesIn (site : Site) (classes : List ComponentId) : Prop :=
  ∀ pattern, site.pattern? = some pattern → pattern.factClass ∈ classes

theorem Site.SharesIn.cons {site : Site} (h : site.SharesIn classes) (id : ComponentId) :
    site.SharesIn (id :: classes) :=
  fun pattern hpattern => List.mem_cons_of_mem id (h pattern hpattern)

mutual
/-- **An element draws its outlines.** -/
theorem draws_lowerElement (limits : Limits) (site : Site) (p : ComponentId)
    (classes : List ComponentId) (hsite : site.SharesIn classes) (e : Ast.Element) :
    Draws p classes (lowerElement limits site p e) (e.outlines site.rule.name) := by
  cases e with
  | pattern pattern =>
    rw [lowerElement, Ast.Element.outlines]
    exact draws_bind_silent (draws_lowerPattern limits site p classes hsite pattern)
      fun _ => draws_pure ()
  | group connective elements =>
    rw [lowerElement, Ast.Element.outlines]
    refine draws_descend_bind fun depth => draws_node_bind nofun nofun fun id => ?_
    have hinside := draws_lowerElements limits { site with depth } id classes hsite elements
    exact draws_bind_silent (draws_within hinside) fun _ => draws_pure ()
  | quantified q elements =>
    rw [lowerElement, Ast.Element.outlines]
    refine draws_descend_bind fun depth => ?_
    have hinside := draws_lowerElements limits { site with depth } p classes hsite elements
    exact draws_bind_silent (draws_within hinside) fun _ => draws_pure ()
  | eval content method =>
    rw [lowerElement, Ast.Element.outlines]
    exact draws_node_bind nofun nofun fun _ => draws_pure ()
  | predicate content method =>
    rw [lowerElement, Ast.Element.outlines]
    refine draws_orFail_bind fun pattern _ => ?_
    exact draws_node_bind nofun nofun fun _ => draws_pure ()
  | constraint fieldName restrictions line =>
    rw [lowerElement, Ast.Element.outlines]
    refine draws_orFail_bind fun pattern hpattern => ?_
    refine draws_silent_bind (draws_fieldFor (hsite pattern hpattern) fieldName line) fun _ => ?_
    exact draws_node_bind nofun nofun fun id => draws_lowerRestrictions limits _ restrictions
  | binding identifier fieldName line =>
    rw [lowerElement, Ast.Element.outlines]
    refine draws_orFail_bind fun pattern hpattern => ?_
    refine draws_silent_bind (draws_fieldFor (hsite pattern hpattern) fieldName line) fun _ => ?_
    exact draws_addVar site.rule identifier .field _ fieldName
  | unknown =>
    rw [lowerElement, Ast.Element.outlines]
    exact draws_pure ()

theorem draws_lowerElements (limits : Limits) (site : Site) (p : ComponentId)
    (classes : List ComponentId) (hsite : site.SharesIn classes) (es : List Ast.Element) :
    Draws p classes (lowerElements limits site p es)
      (es.map (Ast.Element.outlines site.rule.name)).flatten := by
  cases es with
  | nil =>
    rw [lowerElements]
    exact draws_pure ()
  | cons e rest =>
    rw [lowerElements, List.map_cons, List.flatten_cons]
    exact draws_bind (draws_lowerElement limits site p classes hsite e) fun _ =>
      draws_lowerElements limits site p classes hsite rest

/-- A pattern draws its variable, its source and its constraints below a component of its own. -/
theorem draws_lowerPattern (limits : Limits) (site : Site) (p : ComponentId)
    (classes : List ComponentId) (hsite : site.SharesIn classes) (pattern : Ast.Pattern) :
    Draws p classes (lowerPattern limits site p pattern) [pattern.outline site.rule.name] := by
  cases pattern with
  | mk objectType identifier source constraints line =>
    rw [lowerPattern, Ast.Pattern.outline.eq_def]
    -- from here on fields may come about below the class, which therefore must not be inside a rule
    refine draws_descend_bind fun depth => draws_classFor_bind fun factClass => ?_
    refine draws_silent_bind (draws_underQuantifier _) fun isNot => ?_
    refine draws_silent_bind (draws_underQuantifier _) fun isExists => ?_
    refine draws_silent_bind (draws_underQuantifier _) fun isForall => ?_
    refine draws_node_bind nofun nofun fun id => ?_
    refine draws_bind (draws_bindPattern site.rule factClass objectType identifier) fun _ => ?_
    have hsource := draws_lowerSource? limits { site with depth } id (factClass :: classes)
      (hsite.cons factClass) source
    refine draws_bind hsource fun reference => ?_
    refine draws_silent_bind (draws_attach reference keeping_withSource fun _ k => ?_) fun _ => ?_
    · cases k <;> rfl
    refine draws_bind_silent (draws_within ?_) fun closed => ?_
    · refine draws_lowerElements limits _ id (factClass :: classes) ?_ constraints
      rintro _ ⟨⟩
      exact List.mem_cons_self
    · exact draws_silent_bind (draws_handOver _ closed) fun _ => draws_pure id

theorem draws_lowerSource? (limits : Limits) (site : Site) (p : ComponentId)
    (classes : List ComponentId) (hsite : site.SharesIn classes) (source : Option Ast.Source) :
    Draws p classes (lowerSource? limits site p source)
      (match source with
        | none => []
        | some source => source.outlines site.rule.name) := by
  cases source with
  | none =>
    rw [lowerSource?]
    exact draws_pure none
  | some source =>
    rw [lowerSource?]
    exact draws_lowerSource limits site p classes hsite source

theorem draws_lowerSource (limits : Limits) (site : Site) (p : ComponentId)
    (classes : List ComponentId) (hsite : site.SharesIn classes) (source : Ast.Source) :
    Draws p classes (lowerSource limits site p source) (source.outlines site.rule.name) := by
  have hinput : ∀ id input, Draws id classes (modify id (withInput input)) [] := fun id input =>
    draws_modify id (keeping_withInput input) fun k => by cases k <;> rfl
  cases source with
  | accumulate input code =>
    rw [lowerSource, Ast.Source.outlines]
    refine draws_descend_bind fun depth => draws_node_bind nofun nofun fun id => ?_
    have hpattern := draws_lowerPattern limits { site with depth } id classes hsite input
    refine draws_bind_silent hpattern fun inputId => ?_
    exact draws_silent_bind (hinput id inputId) fun _ => draws_pure _
  | collect input method =>
    rw [lowerSource, Ast.Source.outlines]
    refine draws_descend_bind fun depth => draws_node_bind nofun nofun fun id => ?_
    have hpattern := draws_lowerPattern limits { site with depth } id classes hsite input
    refine draws_bind_silent hpattern fun inputId => ?_
    exact draws_silent_bind (hinput id inputId) fun _ => draws_pure _
  | supplied dataSource =>
    rw [lowerSource, Ast.Source.outlines]
    refine draws_descend_bind fun depth => draws_node_bind nofun nofun fun id => ?_
    refine draws_bind_silent (draws_lowerInvoker limits _ id dataSource) fun reference => ?_
    refine draws_silent_bind (draws_attach reference keeping_withDataSource fun _ k => ?_)
      fun _ => draws_pure _
    cases k <;> rfl
  | unknown =>
    rw [lowerSource, Ast.Source.outlines]
    exact draws_descend_bind fun _ => draws_pure none
end

/-! ## Rules -/

theorem draws_keepPossibilities (closed : Closed) :
    Draws p classes (keepPossibilities closed) [] := by
  cases closed with
  | rule id possibilities => exact draws_keepRulePossibilities _ _
  | _ => exact draws_pure ()

theorem draws_lowerBody (limits : Limits) (id : ComponentId) (r : Ast.Rule) :
    Draws id [] (lowerBody limits ⟨id, r.name, r.line⟩ r)
      ((r.lhs.map (Ast.Element.outlines r.name)).flatten ++
        [.leaf (.consequence r.name (Consequence.normalize r.consequence))]) := by
  have hcondition := draws_lowerElements limits { rule := ⟨id, r.name, r.line⟩ } id [] nofun r.lhs
  refine draws_bind (draws_within hcondition) fun closed => ?_
  refine draws_silent_bind (draws_keepPossibilities closed) fun _ => ?_
  refine draws_node_bind nofun nofun fun consequence => ?_
  exact draws_modify id (keeping_withConsequence consequence) fun k => by cases k <;> rfl

/-- New rules have come about behind the older ones, and they have the given outlines. -/
structure Drawn (g g' : Graph) (ts : List Outline) : Prop extends Onward none g g' where
  drawn : ∃ ids, g'.rules = g.rules ++ ids ∧ g'.ShowsAll ts ids

namespace Drawn

variable {g g' g'' : Graph} {ts ts' : List Outline}

theorem of_onward (h : Onward none g g') (hrules : g'.rules = g.rules) : Drawn g g' [] where
  toOnward := h
  drawn := ⟨[], by rw [hrules, List.append_nil], by rw [ShowsAll]⟩

theorem refl (h : g.Arranged) : Drawn g g [] := .of_onward (.refl h) rfl

theorem trans (h : Drawn g g' ts) (h' : Drawn g' g'' ts') : Drawn g g'' (ts ++ ts') where
  toOnward := h.toOnward.trans h'.toOnward
  drawn := by
    obtain ⟨ids, hids, hshows⟩ := h.drawn
    obtain ⟨ids', hids', hshows'⟩ := h'.drawn
    refine ⟨ids ++ ids', by rw [hids', hids, List.append_assoc], ?_⟩
    exact showsAll_append (h'.toOnward.showsAll h.arranged hshows) hshows'

end Drawn

variable {limits : Limits} {package : ComponentId}

/-- **A rule that is lowered has its outline.** -/
theorem drawn_of_lowerRule {r : Ast.Rule} {s s' : State} (harranged : s.graph.Arranged)
    (hpackage : s.graph.labelOf? package = some .shared)
    (hrun : lowerRule limits package r s = .ok () s') :
    Drawn s.graph s'.graph [r.outline] := by
  obtain ⟨id, s₁, hadd, hbody⟩ := bind_eq_ok hrun
  obtain ⟨rfl, rfl⟩ := add_eq_ok hadd
  have hparent : ∀ id, some package = some id → s.graph.labelOf? id = some .shared := by
    rintro id ⟨⟩
    exact hpackage
  have hne : some s.graph.nextId ≠ some package := by
    rintro ⟨⟩
    exact absurd (le_size_of_labelOf? hpackage) (Nat.not_succ_le_self _)
  have honward : Onward none s.graph (s.graph.add (some package) (.rule
      { name := r.name, salience := r.salience, line := r.line, package, consequence := none })) :=
    .add_shared harranged _ hparent
  have hlabel : Label.rule r.name r.salience r.line ≠ .shared := nofun
  have hready : Ready s.graph.nextId [] _ := .new honward nofun hlabel
  have hgrows := draws_lowerBody limits s.graph.nextId r _ () s' hready hbody
  refine ⟨honward.trans_new hgrows.toOnward, [s.graph.nextId], ?_, ?_⟩
  · rw [hgrows.rules_eq]
    exact rules_add s.graph (some package) _
  · rw [ShowsAll]
    exact ⟨_, [], rfl, hgrows.shows harranged hne hlabel, by rw [ShowsAll]⟩

theorem drawn_of_lowerRules {rs : List Ast.Rule} {s s' : State} (harranged : s.graph.Arranged)
    (hpackage : s.graph.labelOf? package = some .shared)
    (hrun : lowerRules limits package rs s = .ok () s') :
    Drawn s.graph s'.graph (rs.map Ast.Rule.outline) := by
  refine lowerRules_induction (I := fun before s' =>
    Drawn s.graph s'.graph (before.map Ast.Rule.outline)) hrun (.refl harranged) ?_
  intro before r s₁ s₂ hbefore hrule
  rw [List.map_append]
  have hshared := hbefore.label_eq _ _ hpackage
  exact hbefore.trans (drawn_of_lowerRule hbefore.arranged hshared hrule)

theorem drawn_of_load {ast : Ast.Package} {g g' : Graph} {id : ComponentId}
    (harranged : g.Arranged) (hrun : load limits ast g = .ok id g') :
    Drawn g g' (ast.rules.map Ast.Rule.outline) := by
  obtain ⟨s, s', hfind, hrules, rfl⟩ := load_eq_ok hrun
  have hkey : ∀ k : Kind, k.key? = some (.package ast.name) → k.label = .shared := by
    intro k hk
    cases k <;> simp [Kind.key?, Kind.label] at hk ⊢
  have hrule : (Kind.package ⟨ast.name⟩).logged? ≠ some .rule := by rintro ⟨⟩
  obtain ⟨honward, hold, hpackage⟩ := onward_findOrAdd harranged hkey rfl hrule hfind
  exact (Drawn.of_onward honward hold).trans
    (drawn_of_lowerRules honward.arranged hpackage hrules)

/-- **Packages that are loaded leave their rules with their outlines.** -/
theorem drawn_of_loadAll {ps : List Ast.Package} {g g' : Graph} {ids : List ComponentId}
    (harranged : g.Arranged) (hrun : loadAll limits ps g = .ok ids g') :
    Drawn g g' ((ps.flatMap (·.rules)).map Ast.Rule.outline) := by
  refine loadAll_induction (I := fun before g' =>
    Drawn g g' ((before.flatMap (·.rules)).map Ast.Rule.outline)) hrun (.refl harranged) ?_
  intro before p g₁ id g₂ hbefore hload
  rw [List.flatMap_append, List.map_append, List.flatMap_singleton]
  exact hbefore.trans (drawn_of_load hbefore.arranged hload)

end RuleBase.Analysis

import Mathlib.Data.List.TakeWhile
import RuleBase.Proofs.Analysis.Mirror

/-!
# What the walk through a rule comes to

The walk through a rule mirrors the judgement of the rule, so whether a rule is accepted does not
depend on the graph that it is lowered into, and neither does the error if it is not.

* **`mirrors_lowerElement`**: the walk through an element mirrors its judgement;
* **`endsWith_lowerRule`**: the walk through a rule ends with the verdict on the rule.
-/

namespace RuleBase.Analysis

open RuleBase.Graph Condition

variable {α : Type} {rule : RuleSite} {level : Level} {limits : Limits}

/-! ## Comparisons and invokers -/

/-- A path splits if it has a dot, and what comes before the dot is its variable. -/
theorem splitPath?_eq (text : String) :
    splitPath? text = if '.' ∈ text.toList then
      some (String.ofList (text.toList.takeWhile (· != '.')),
        String.ofList (text.toList.dropWhile (· != '.')))
    else none := by
  have hempty : (text.toList.dropWhile (· != '.')).isEmpty = true ↔ '.' ∉ text.toList := by
    rw [List.isEmpty_iff, List.dropWhile_eq_nil_iff]
    constructor
    · intro h hdot
      simpa using h '.' hdot
    · intro h c hc
      simpa using fun heq : c = '.' => h (heq ▸ hc)
  by_cases hdot : '.' ∈ text.toList
  · rw [splitPath?, if_neg (by simpa [hempty] using hdot), if_pos hdot]
  · rw [splitPath?, if_pos (hempty.mpr hdot), if_neg hdot]

theorem mirrors_lowerOperand (operand : Ast.Operand) :
    Mirrors rule level (lowerOperand rule operand) (judgeOperand operand) := by
  cases operand with
  | literal text => exact mirrors_pure _
  | var identifier => exact mirrors_bind_calm (mirrors_varFor identifier) fun _ => calm_pure _
  | returnValue content declarations method => exact mirrors_pure _
  | qualified text =>
    have hsplit : '.' ∈ text.toList ↔ (splitPath? text).isSome := by
      rw [splitPath?_eq]
      split <;> simp_all
    rw [judgeOperand, demand_congr hsplit]
    refine mirrors_orFail_bind fun (name, path) hpath => ?_
    rw [splitPath?_eq] at hpath
    split at hpath
    · cases hpath
      exact mirrors_bind_calm (mirrors_varFor _) fun id =>
        calm_bind (calm_modify id _) fun _ => calm_pure _
    · cases hpath

theorem mirrors_addRestriction (id : ComponentId) :
    Mirrors rule .pattern (inScopes rule (addRestriction id)) (contributing 1) where
  ok {s f f'} hs hjudge := by
    cases hjudge
    obtain ⟨scopes', hpush, -⟩ := hs.openAt.push [[id]]
    have hadd : addRestriction id s.scopes = .ok () scopes' := by
      rw [addRestriction, addToPattern, show pushToPattern? _ _ = _ from hpush]
    refine ⟨(), _, inScopes_of_ok hadd, hs.isSome_iff, [[[id]]], ?_, rfl⟩
    rw [pushAll, hpush]
    rfl
  error _ hjudge := by cases hjudge

theorem mirrors_lowerComparison (pattern : PatternSite) (constraint : ConstraintSite)
    (parent : ComponentId) (symbol : String) (negated : Bool) (operand : Ast.Operand) :
    Mirrors rule .pattern
      (lowerComparison rule pattern constraint parent symbol negated operand)
      (judgeComparison symbol negated operand) := by
  refine mirrors_orFail_bind fun operator _ => ?_
  refine mirrors_bind (mirrors_lowerOperand operand) fun operand => ?_
  refine mirrors_calm_bind (calm_add (by rintro _ ⟨⟩)) fun id => ?_
  exact mirrors_calm_bind (calm_settleType _ _) fun _ => mirrors_addRestriction id

mutual
theorem mirrors_lowerRestriction (site : Site) (hpattern : site.pattern?.isSome)
    (hconstraint : site.constraint?.isSome) (parent : ComponentId) (r : Ast.Restriction) :
    Mirrors site.rule .pattern (lowerRestriction limits site parent r)
      (judgeRestriction limits site.depth r) := by
  have hplace : Calm site.rule (site.constraint .restriction) :=
    calm_site_constraint hpattern hconstraint .restriction
  cases r with
  | comparison symbol negated operand =>
    rw [lowerRestriction, judgeRestriction]
    exact mirrors_calm_bind hplace fun _ =>
      mirrors_lowerComparison _ _ parent symbol negated operand
  | group connective restrictions =>
    rw [lowerRestriction, judgeRestriction]
    refine mirrors_calm_bind hplace fun _ => mirrors_descend_bind ?_
    have hinside := mirrors_lowerRestrictions site.deeper hpattern hconstraint parent restrictions
    exact mirrors_bind_calm (mirrors_within_group connective hinside) fun _ => calm_pure _
  | unknown =>
    rw [lowerRestriction, judgeRestriction]
    exact mirrors_of_calm (calm_bind hplace fun _ => calm_pure _)

theorem mirrors_lowerRestrictions (site : Site) (hpattern : site.pattern?.isSome)
    (hconstraint : site.constraint?.isSome) (parent : ComponentId) (rs : List Ast.Restriction) :
    Mirrors site.rule .pattern (lowerRestrictions limits site parent rs)
      (judgeRestrictions limits site.depth rs) := by
  cases rs with
  | nil =>
    rw [lowerRestrictions, judgeRestrictions]
    exact mirrors_pure _
  | cons r rest =>
    rw [lowerRestrictions, judgeRestrictions]
    exact mirrors_bind (mirrors_lowerRestriction site hpattern hconstraint parent r) fun _ =>
      mirrors_lowerRestrictions site hpattern hconstraint parent rest
end

mutual
theorem mirrors_lowerInvoker (site : Site) (parent : ComponentId) (i : Ast.Invoker) :
    Mirrors site.rule level (lowerInvoker limits site parent i)
      (judgeInvoker limits site.depth i) := by
  cases i with
  | accessor name invokers =>
    rw [lowerInvoker, judgeInvoker]
    refine mirrors_descend_bind (mirrors_calm_bind (calm_add (by rintro _ ⟨⟩)) fun id => ?_)
    exact mirrors_bind_calm (mirrors_lowerInvokers site.deeper id invokers)
      fun _ => calm_pure _
  | fieldAccess name argument =>
    rw [lowerInvoker, judgeInvoker]
    exact mirrors_of_calm (calm_addTyped parent (by rintro _ ⟨⟩))
  | methodAccess name arguments =>
    rw [lowerInvoker, judgeInvoker]
    exact mirrors_of_calm (calm_addTyped parent (by rintro _ ⟨⟩))
  | functionCall name arguments =>
    rw [lowerInvoker, judgeInvoker]
    exact mirrors_of_calm (calm_addTyped parent (by rintro _ ⟨⟩))
  | unknown =>
    rw [lowerInvoker, judgeInvoker]
    exact mirrors_pure _

theorem mirrors_lowerInvokers (site : Site) (parent : ComponentId) (is : List Ast.Invoker) :
    Mirrors site.rule level (lowerInvokers limits site parent is)
      (judgeInvokers limits site.depth is) := by
  cases is with
  | nil =>
    rw [lowerInvokers, judgeInvokers]
    exact mirrors_pure _
  | cons i rest =>
    rw [lowerInvokers, judgeInvokers]
    exact mirrors_bind (mirrors_lowerInvoker site parent i) fun _ =>
      mirrors_lowerInvokers site parent rest
end

/-! ## Elements -/

mutual
theorem mirrors_lowerElement (site : Site) {level : Level} (hsite : site.IsAt level)
    (parent : ComponentId) (e : Ast.Element) :
    Mirrors site.rule level (lowerElement limits site parent e)
      (judgeElement limits level site.depth e) := by
  cases e with
  | pattern p =>
    rw [lowerElement, judgeElement]
    exact mirrors_bind_calm (mirrors_lowerPattern site hsite parent p) fun _ => calm_pure _
  | group connective elements =>
    rw [lowerElement, judgeElement]
    refine mirrors_descend_bind (mirrors_calm_bind (calm_add (by rintro _ ⟨⟩)) fun id => ?_)
    exact mirrors_bind_calm (mirrors_within_group connective
      (mirrors_lowerElements site.deeper hsite id elements)) fun _ => calm_pure _
  | quantified q elements =>
    rw [lowerElement, judgeElement]
    refine mirrors_descend_bind ?_
    exact mirrors_bind_calm (mirrors_within_quantifier q
      (mirrors_lowerElements site.deeper hsite parent elements)) fun _ => calm_pure _
  | eval content method =>
    rw [lowerElement, judgeElement]
    exact mirrors_of_calm (calm_bind (calm_add (by rintro _ ⟨⟩)) fun _ => calm_pure _)
  | predicate content method =>
    rw [lowerElement, judgeElement, ← andThen_pure (insidePattern level .predicate)]
    refine mirrors_site_pattern_bind hsite fun _ _ => ?_
    exact mirrors_of_calm (calm_bind (calm_add (by rintro _ ⟨⟩)) fun _ => calm_pure _)
  | constraint fieldName restrictions line =>
    rw [lowerElement, judgeElement]
    refine mirrors_site_pattern_bind hsite fun pattern hpattern => ?_
    obtain rfl := hsite.mp (Option.isSome_iff_exists.mpr ⟨pattern, hpattern⟩)
    refine mirrors_calm_bind (calm_fieldFor pattern fieldName line) fun field => ?_
    refine mirrors_calm_bind (calm_add (by rintro _ ⟨⟩)) fun id => ?_
    exact mirrors_lowerRestrictions { site with constraint? := some ⟨id, field⟩ }
      (hsite.mpr rfl) rfl id restrictions
  | binding identifier fieldName line =>
    rw [lowerElement, judgeElement]
    refine mirrors_site_pattern_bind hsite fun pattern _ => ?_
    refine mirrors_calm_bind (calm_fieldFor pattern fieldName line) fun field => ?_
    exact mirrors_addVar parent identifier .field field fieldName
  | unknown =>
    rw [lowerElement, judgeElement]
    exact mirrors_pure _

theorem mirrors_lowerElements (site : Site) {level : Level} (hsite : site.IsAt level)
    (parent : ComponentId) (es : List Ast.Element) :
    Mirrors site.rule level (lowerElements limits site parent es)
      (judgeElements limits level site.depth es) := by
  cases es with
  | nil =>
    rw [lowerElements, judgeElements]
    exact mirrors_pure _
  | cons e rest =>
    rw [lowerElements, judgeElements]
    exact mirrors_bind (mirrors_lowerElement site hsite parent e) fun _ =>
      mirrors_lowerElements site hsite parent rest

theorem mirrors_lowerPattern (site : Site) {level : Level} (hsite : site.IsAt level)
    (parent : ComponentId) (p : Ast.Pattern) :
    Mirrors site.rule level (lowerPattern limits site parent p)
      (judgePattern limits level site.depth p) := by
  cases p with
  | mk objectType identifier source constraints line =>
    rw [lowerPattern, judgePattern]
    refine mirrors_descend_bind ?_
    refine mirrors_calm_bind (calm_classFor objectType) fun factClass => ?_
    refine mirrors_calm_bind (calm_underQuantifier .negated) fun isNot => ?_
    refine mirrors_calm_bind (calm_underQuantifier .existential) fun isExists => ?_
    refine mirrors_calm_bind (calm_underQuantifier .universal) fun isForall => ?_
    refine mirrors_calm_bind (calm_add (by rintro _ ⟨⟩)) fun id => ?_
    refine mirrors_bind (mirrors_bindPattern id factClass objectType identifier) fun _ => ?_
    refine mirrors_bind (mirrors_lowerSource? site.deeper hsite id source) fun reference => ?_
    refine mirrors_calm_bind (calm_attach id withSource reference) fun _ => ?_
    rw [← bind_assoc]
    refine mirrors_bind_calm (mirrors_within_pattern id ?_) fun _ => calm_pure id
    exact mirrors_lowerElements
      { site.deeper with
        pattern? := some ⟨id, factClass, objectType, isNot⟩, constraint? := none }
      ⟨fun _ => rfl, fun _ => rfl⟩ id constraints

theorem mirrors_lowerSource? (site : Site) {level : Level} (hsite : site.IsAt level)
    (parent : ComponentId) (source : Option Ast.Source) :
    Mirrors site.rule level (lowerSource? limits site parent source)
      (judgeSource? limits level site.depth source) := by
  cases source with
  | none =>
    rw [lowerSource?, judgeSource?]
    exact mirrors_pure _
  | some source =>
    rw [lowerSource?, judgeSource?]
    exact mirrors_lowerSource site hsite parent source

theorem mirrors_lowerSource (site : Site) {level : Level} (hsite : site.IsAt level)
    (parent : ComponentId) (source : Ast.Source) :
    Mirrors site.rule level (lowerSource limits site parent source)
      (judgeSource limits level site.depth source) := by
  cases source with
  | accumulate input code =>
    rw [lowerSource, judgeSource]
    refine mirrors_descend_bind (mirrors_calm_bind (calm_add (by rintro _ ⟨⟩)) fun id => ?_)
    exact mirrors_bind_calm (mirrors_lowerPattern site.deeper hsite id input) fun inputId =>
      calm_bind (calm_modify id _) fun _ => calm_pure _
  | collect input method =>
    rw [lowerSource, judgeSource]
    refine mirrors_descend_bind (mirrors_calm_bind (calm_add (by rintro _ ⟨⟩)) fun id => ?_)
    exact mirrors_bind_calm (mirrors_lowerPattern site.deeper hsite id input) fun inputId =>
      calm_bind (calm_modify id _) fun _ => calm_pure _
  | supplied dataSource =>
    rw [lowerSource, judgeSource]
    refine mirrors_descend_bind (mirrors_calm_bind (calm_add (by rintro _ ⟨⟩)) fun id => ?_)
    exact mirrors_bind_calm (mirrors_lowerInvoker site.deeper id dataSource)
      fun reference => calm_bind (calm_attach id withDataSource reference) fun _ => calm_pure _
  | unknown =>
    rw [lowerSource, judgeSource, ← andThen_pure (descending limits site.depth)]
    exact mirrors_descend_bind (mirrors_pure _)
end

section EndsWith

variable {σ β : Type} {P Q : σ → Prop}

/-- A run ends with a given error, or if there is none, successfully in a state like `P`. -/
def EndsWith (P : σ → Prop) (x : EStateM Error σ α) (s : σ) : Option Error → Prop
  | none => ∃ a s', x s = .ok a s' ∧ P s'
  | some e => ∃ s', x s = .error e s'

theorem endsWith_bind {x : EStateM Error σ α} {k : α → EStateM Error σ β} {s : σ}
    {e? e'? : Option Error} (hx : EndsWith P x s e?)
    (hk : ∀ a s', P s' → EndsWith Q (k a) s' e'?) : EndsWith Q (x >>= k) s (e?.or e'?) := by
  cases e? with
  | some e =>
    obtain ⟨s', hrun⟩ := hx
    exact ⟨s', bind_of_error hrun⟩
  | none =>
    obtain ⟨a, s', hrun, hs'⟩ := hx
    rw [Option.none_or]
    cases e'? with
    | some e =>
      obtain ⟨s'', hrun'⟩ := hk a s' hs'
      exact ⟨s'', (bind_of_ok hrun).trans hrun'⟩
    | none =>
      obtain ⟨b, s'', hrun', hs''⟩ := hk a s' hs'
      exact ⟨b, s'', (bind_of_ok hrun).trans hrun', hs''⟩

theorem EndsWith.of_value {x : EStateM Error σ α} {s : σ} {e? : Option Error}
    (h : EndsWith P x s e?) (f : α → β) : EndsWith P (x >>= fun a => pure (f a)) s e? := by
  rw [← e?.or_none]
  exact endsWith_bind h fun a s' hs' => ⟨f a, s', rfl, hs'⟩

theorem EndsWith.and_always {x : EStateM Error σ α} {s : σ} {e? : Option Error}
    (h : EndsWith P x s e?) {R : σ → σ → Prop} (hR : Always R x) :
    EndsWith (fun s' => P s' ∧ R s s') x s e? := by
  cases e? with
  | some e => exact h
  | none =>
    obtain ⟨a, s', hrun, hs'⟩ := h
    exact ⟨a, s', hrun, hs', hR.of_ok hrun⟩

end EndsWith

section RuleScope

variable {body : Walk Unit} {judge : Judging} {s : State} {declared : List String}
  (hscopes : s.scopes = [])
  (hvars : ∀ name, (s.graph.findVar? rule.id name).isSome ↔ name ∈ declared)
  (hbody : Mirrors rule .rule body judge)
include hscopes

theorem newFrame_of_closed (id : ComponentId) :
    newFrame (.rule id) s.scopes = .ok (.rule id ⟨.and, []⟩) := by
  rw [hscopes]
  rfl

include hvars

/-- Inside its scope, a rule starts without children. -/
theorem reflects_rule :
    Reflects rule .rule { s with scopes := .rule rule.id ⟨.and, []⟩ :: s.scopes }
      { declared } := by
  refine ⟨hvars, ?_⟩
  rw [hscopes]
  exact .rule _ _

include hbody

theorem within_rule_of_ok {f : Findings}
    (hjudge : grouping limits .rule .and judge { declared } = .ok f) :
    ∃ closed s', within limits rule (.rule rule.id) body s = .ok closed s' ∧ s'.scopes = [] := by
  obtain ⟨inner, hinside, hlimit, -⟩ := grouping_eq_ok.mp hjudge
  obtain ⟨s', group, hrun, hscopes', -, hcount, -⟩ :=
    hbody.collected (.rule rule.id) (reflects_rule hscopes hvars) rfl hinside fun children =>
      pushAll_rule children _ .and _
  have hleave : leave limits ⟨s.scopes.length, .rule rule.id⟩ s'.scopes =
      .ok (.rule rule.id group.combined) [] := by
    rw [hscopes', leave_eq rfl, hscopes]
    exact close_rule_of_le (hcount ▸ hlimit)
  exact ⟨_, _, (within_of_ok (newFrame_of_closed hscopes _) hrun).trans (inScopes_of_ok hleave),
    rfl⟩

/-- No scope outlives an error inside the scope of a rule. -/
theorem within_rule_of_error {fault : Fault}
    (hjudge : grouping limits .rule .and judge { declared } = .error fault) :
    ∃ s', within limits rule (.rule rule.id) body s = .error (rule.error fault) s' ∧
      s'.scopes = [] := by
  rcases grouping_eq_error.mp hjudge with hinside | ⟨inner, hinside, hlimit, rfl⟩
  · obtain ⟨s', hrun⟩ := hbody.error (reflects_rule hscopes hvars) hinside
    refine ⟨_, within_of_error (newFrame_of_closed hscopes _) hrun, ?_⟩
    simp [abandon, hscopes]
  · obtain ⟨s', group, hrun, hscopes', -, hcount, -⟩ :=
      hbody.collected (.rule rule.id) (reflects_rule hscopes hvars) rfl hinside fun children =>
        pushAll_rule children _ .and _
    have hleave : leave limits ⟨s.scopes.length, .rule rule.id⟩ s'.scopes =
        .error (.possibilityLimit .rule limits.maxRulePossibilities
          (min (ways .and inner.sizes) countCeiling)) s.scopes := by
      rw [hscopes', leave_eq rfl, ← hcount]
      exact close_rule_of_lt (hcount ▸ hlimit)
    exact ⟨_, (within_of_ok (newFrame_of_closed hscopes _) hrun).trans
      (inScopes_of_error hleave), hscopes⟩

end RuleScope

theorem calm_keepPossibilities (closed : Closed) : Calm rule (keepPossibilities closed) := by
  cases closed with
  | rule id possibilities => exact fun s => ⟨(), _, rfl, rfl, fun _ => rfl⟩
  | _ => exact calm_pure _

theorem mirrors_lhs (rule : RuleSite) (r : Ast.Rule) :
    Mirrors rule .rule (lowerElements limits { rule } rule.id r.lhs)
      (judgeElements limits .rule 0 r.lhs) :=
  mirrors_lowerElements { rule } (by simp [Site.IsAt]) rule.id r.lhs

section LowerRule

variable {s : State} {declared : List String} (hscopes : s.scopes = [])
  (hvars : ∀ name, (s.graph.findVar? s.graph.nextId name).isSome ↔ name ∈ declared)
include hscopes hvars

theorem lowerRule_eq (limits : Limits) (package : ComponentId) (r : Ast.Rule) :
    ∃ s₁ : State, lowerRule limits package r s =
        lowerBody limits ⟨s.graph.nextId, r.name, r.line⟩ r s₁ ∧ s₁.scopes = [] ∧
      ∀ name, (s₁.graph.findVar? s.graph.nextId name).isSome ↔ name ∈ declared := by
  refine ⟨_, bind_of_ok rfl, hscopes, fun name => ?_⟩
  rw [findVar?_add (by rintro ⟨⟩)]
  exact hvars name

/-- A rule that passes its judgement is lowered. -/
theorem lowerRule_of_ok (package : ComponentId) {r : Ast.Rule} {f : Findings}
    (hjudge : judgeRuleAfter limits declared r = .ok f) :
    ∃ s', lowerRule limits package r s = .ok () s' ∧ s'.scopes = [] := by
  let rule : RuleSite := ⟨s.graph.nextId, r.name, r.line⟩
  obtain ⟨s₁, hlower, hscopes₁, hvars₁⟩ := lowerRule_eq hscopes hvars limits package r
  obtain ⟨closed, s₂, hrun, hscopes₂⟩ :=
    within_rule_of_ok hscopes₁ hvars₁ (mirrors_lhs rule r) hjudge
  have htail : Calm rule (do
      keepPossibilities closed
      let consequence ← add (some rule.id) (.consequence
        { rule := rule.id, ruleName := r.name, text := Consequence.normalize r.consequence })
      modify rule.id (withConsequence consequence)) :=
    calm_bind (calm_keepPossibilities closed) fun _ =>
      calm_bind (calm_add (by rintro _ ⟨⟩)) fun consequence => calm_modify _ _
  obtain ⟨u, s₃, hrun₃, hscopes₃, -⟩ := htail s₂
  exact ⟨s₃, hlower.trans ((bind_of_ok hrun).trans hrun₃), hscopes₃.trans hscopes₂⟩

/-- A rule that does not pass its judgement fails with what is wrong with it. -/
theorem lowerRule_of_error (package : ComponentId) {r : Ast.Rule} {fault : Fault}
    (hjudge : judgeRuleAfter limits declared r = .error fault) :
    ∃ s', lowerRule limits package r s = .error ⟨r.name, r.line, fault⟩ s' ∧ s'.scopes = [] := by
  obtain ⟨s₁, hlower, hscopes₁, hvars₁⟩ := lowerRule_eq hscopes hvars limits package r
  obtain ⟨s₂, hrun, hscopes₂⟩ :=
    within_rule_of_error hscopes₁ hvars₁ (mirrors_lhs ⟨_, r.name, r.line⟩ r) hjudge
  exact ⟨s₂, hlower.trans (bind_of_error hrun), hscopes₂⟩

end LowerRule

/-- **A rule is lowered exactly if its verdict allows it**, and fails with its verdict. -/
theorem endsWith_lowerRule (limits : Limits) {s : State} (hscopes : s.scopes = [])
    (hvars : ∀ name, s.graph.findVar? s.graph.nextId name = none) (package : ComponentId)
    (r : Ast.Rule) :
    EndsWith (·.scopes = []) (lowerRule limits package r) s (verdict? limits r) := by
  have hnone : ∀ name, (s.graph.findVar? s.graph.nextId name).isSome ↔ name ∈ [] := by
    simp [hvars]
  rw [verdict?]
  cases hjudge : judgeRule limits r with
  | ok f =>
    obtain ⟨s', hrun, hscopes'⟩ := lowerRule_of_ok hscopes hnone package hjudge
    exact ⟨(), s', hrun, hscopes'⟩
  | error fault =>
    obtain ⟨s', hrun, -⟩ := lowerRule_of_error hscopes hnone package hjudge
    exact ⟨s', hrun⟩

end RuleBase.Analysis

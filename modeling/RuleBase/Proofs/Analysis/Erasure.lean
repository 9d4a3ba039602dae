import RuleBase.Analysis.Package
import RuleBase.Proofs.Analysis.Run
import RuleBase.Proofs.Ast.Erasure

/-!
# Walks without unknown nodes

A walk passes by unknown nodes and does nothing there, so it takes the same way through a rule
without them. There is one exception: a source counts for the nesting even if it is not known, so
a walk may fail there, at a pattern that stands as deep as the limit allows.

* **`spares_lowerElement`**, `spares_lowerSource`: the parts of a condition;
* **`sameUnless_loadAll`**: packages.
-/

namespace RuleBase.Analysis

open RuleBase.Graph Condition

variable {ε σ α β : Type} {bad bad' : ε → Prop}

/-- Two walks are the same, unless the first one fails with an error of some kind. -/
def SameUnless (bad : ε → Prop) (x x' : EStateM ε σ α) : Prop :=
  ∀ s, x s = x' s ∨ ∃ e s', bad e ∧ x s = .error e s'

theorem sameUnless_refl (x : EStateM ε σ α) : SameUnless bad x x := fun _ => .inl rfl

theorem SameUnless.mono {x x' : EStateM ε σ α} (h : SameUnless bad x x')
    (hbad : ∀ e, bad e → bad' e) : SameUnless bad' x x' := by
  intro s
  obtain heq | ⟨e, s', he, hrun⟩ := h s
  · exact .inl heq
  · exact .inr ⟨e, s', hbad e he, hrun⟩

/-- **Sequences are the same if their parts are.** -/
theorem sameUnless_bind {x x' : EStateM ε σ α} {k k' : α → EStateM ε σ β}
    (hx : SameUnless bad x x') (hk : ∀ a, SameUnless bad (k a) (k' a)) :
    SameUnless bad (x >>= k) (x' >>= k') := by
  intro s
  obtain heq | ⟨e, s', he, hrun⟩ := hx s
  · cases hrun : x s with
    | ok a s' =>
      rw [bind_of_ok hrun, bind_of_ok (heq ▸ hrun)]
      exact hk a s'
    | error e s' =>
      rw [bind_of_error hrun, bind_of_error (heq ▸ hrun)]
      exact .inl rfl
  · exact .inr ⟨e, s', he, bind_of_error hrun⟩

theorem sameUnless_bind_right (x : EStateM ε σ α) {k k' : α → EStateM ε σ β}
    (hk : ∀ a, SameUnless bad (k a) (k' a)) : SameUnless bad (x >>= k) (x >>= k') :=
  sameUnless_bind (sameUnless_refl x) hk

theorem sameUnless_bind_left {x x' : EStateM ε σ α} (k : α → EStateM ε σ β)
    (hx : SameUnless bad x x') : SameUnless bad (x >>= k) (x' >>= k) :=
  sameUnless_bind hx fun a => sameUnless_refl (k a)

section Walks

variable {bad : Error → Prop} {limits : Limits} {site : Site}

/-- **Scopes are the same if what is inside is.** -/
theorem sameUnless_within (rule : RuleSite) (scope : Scope) {body body' : Walk Unit}
    (h : SameUnless bad body body') :
    SameUnless bad (within limits rule scope body) (within limits rule scope body') := by
  refine sameUnless_bind_right _ fun token s => ?_
  obtain heq | ⟨e, s', he, hrun⟩ := h s
  · simp only [heq, true_or]
  · exact .inr ⟨e, _, he, by simp only [hrun]; rfl⟩

/-- One level deeper, walks have gone no deeper than the limit. -/
theorem sameUnless_descend_bind {k k' : Site → Walk α}
    (h : site.depth + 1 ≤ limits.maxNestingDepth →
      SameUnless bad (k { site with depth := site.depth + 1 })
        (k' { site with depth := site.depth + 1 })) :
    SameUnless bad (descend limits site >>= k) (descend limits site >>= k') := by
  by_cases hdeep : limits.maxNestingDepth < site.depth + 1
  · rw [descend, if_pos hdeep]
    exact sameUnless_refl _
  · rw [descend, if_neg hdeep]
    exact h (Nat.le_of_not_lt hdeep)

theorem descend_bind_congr {k k' : Site → Walk α}
    (h : ∀ depth, k { site with depth } = k' { site with depth }) :
    (descend limits site >>= k) = (descend limits site >>= k') := by
  by_cases hdeep : limits.maxNestingDepth < site.depth + 1
  · rw [descend, if_pos hdeep]
    rfl
  · rw [descend, if_neg hdeep]
    exact h _

theorem orFail_bind_congr {rule : RuleSite} {fault : Fault} {o : Option α} {k k' : α → Walk β}
    (h : ∀ a, o = some a → k a = k' a) :
    (orFail rule fault o >>= k) = (orFail rule fault o >>= k') := by
  cases o with
  | none => rfl
  | some a => exact h a rfl

end Walks

/-! ## Restrictions and invokers -/

section Equal

variable {limits : Limits} {site : Site}

theorem site_constraint_eq_pure {pattern : PatternSite} {constraint : ConstraintSite} {node : Inner}
    (hpattern : site.pattern? = some pattern) (hconstraint : site.constraint? = some constraint) :
    site.constraint node = pure (pattern, constraint) := by
  rw [Site.constraint, Site.pattern, hpattern, hconstraint]
  rfl

mutual
theorem lowerRestriction_erased (site : Site) {pattern : PatternSite} {constraint : ConstraintSite}
    (hpattern : site.pattern? = some pattern) (hconstraint : site.constraint? = some constraint)
    (parent : ComponentId) (r : Ast.Restriction) :
    lowerRestriction limits site parent r = lowerRestriction limits site parent r.erased := by
  cases r with
  | comparison symbol negated operand => rw [Ast.Restriction.erased]
  | group connective restrictions =>
    rw [Ast.Restriction.erased, lowerRestriction, lowerRestriction]
    refine bind_congr fun _ => descend_bind_congr fun depth => ?_
    have hinside := lowerRestrictions_erased { site with depth } hpattern hconstraint parent
      restrictions
    rw [hinside]
  | unknown => rw [Ast.Restriction.erased]

theorem lowerRestrictions_erased (site : Site) {pattern : PatternSite}
    {constraint : ConstraintSite} (hpattern : site.pattern? = some pattern)
    (hconstraint : site.constraint? = some constraint) (parent : ComponentId)
    (rs : List Ast.Restriction) :
    lowerRestrictions limits site parent rs =
      lowerRestrictions limits site parent
        ((rs.map Ast.Restriction.erased).filter (·.isKnown)) := by
  cases rs with
  | nil => rfl
  | cons r rest =>
    have hrest := lowerRestrictions_erased site hpattern hconstraint parent rest
    rw [List.map_cons, List.filter_cons, Ast.Restriction.isKnown_erased, lowerRestrictions]
    cases hknown : r.isKnown with
    | true =>
      rw [if_pos rfl, lowerRestrictions, hrest,
        ← lowerRestriction_erased site hpattern hconstraint parent r]
    | false =>
      rw [if_neg Bool.false_ne_true, Ast.Restriction.eq_unknown hknown, lowerRestriction,
        site_constraint_eq_pure hpattern hconstraint, hrest]
      rfl
end

mutual
theorem lowerInvoker_erased (site : Site) (parent : ComponentId) (i : Ast.Invoker) :
    lowerInvoker limits site parent i = lowerInvoker limits site parent i.erased := by
  cases i with
  | accessor name invokers =>
    rw [Ast.Invoker.erased, lowerInvoker, lowerInvoker]
    refine descend_bind_congr fun depth => bind_congr fun id => ?_
    rw [lowerInvokers_erased { site with depth } id invokers]
  | _ => rw [Ast.Invoker.erased]

theorem lowerInvokers_erased (site : Site) (parent : ComponentId) (is : List Ast.Invoker) :
    lowerInvokers limits site parent is =
      lowerInvokers limits site parent ((is.map Ast.Invoker.erased).filter (·.isKnown)) := by
  cases is with
  | nil => rfl
  | cons i rest =>
    have hrest := lowerInvokers_erased site parent rest
    rw [List.map_cons, List.filter_cons, Ast.Invoker.isKnown_erased, lowerInvokers]
    cases hknown : i.isKnown with
    | true => rw [if_pos rfl, lowerInvokers, hrest, ← lowerInvoker_erased site parent i]
    | false =>
      rw [if_neg Bool.false_ne_true, Ast.Invoker.eq_unknown hknown, lowerInvoker, hrest]
      rfl
end

end Equal

/-! ## Elements -/

/-- The error of an unknown source, if one of some patterns with such a source stands as deep as the
limit allows. -/
def TooDeep (limits : Limits) (rule : String) (line : Nat) (depths : List Nat) (e : Error) : Prop :=
  limits.maxNestingDepth ∈ depths ∧
    e = ⟨rule, line, .limitExceeded .nestingDepth limits.maxNestingDepth
      (limits.maxNestingDepth + 1)⟩

section Elements

variable {limits : Limits} {rule : String} {line : Nat} {depths depths' : List Nat} {e : Error}

theorem TooDeep.left (h : TooDeep limits rule line depths e) :
    TooDeep limits rule line (depths ++ depths') e :=
  ⟨List.mem_append_left _ h.1, h.2⟩

theorem TooDeep.right (h : TooDeep limits rule line depths' e) :
    TooDeep limits rule line (depths ++ depths') e :=
  ⟨List.mem_append_right _ h.1, h.2⟩

/-- A walk with unknown sources at some depths is the same as another one, unless it fails at one of
them. -/
abbrev Spares (limits : Limits) (rule : RuleSite) (depths : List Nat) (x x' : Walk α) : Prop :=
  SameUnless (TooDeep limits rule.name rule.line depths) x x'

variable {rule : RuleSite}

/-- Along a sequence, unknown sources of its parts are unknown sources. -/
theorem spares_bind {x x' : Walk α} {k k' : α → Walk β} (hx : Spares limits rule depths x x')
    (hk : ∀ a, Spares limits rule depths' (k a) (k' a)) :
    Spares limits rule (depths ++ depths') (x >>= k) (x' >>= k') :=
  sameUnless_bind (hx.mono fun _ => TooDeep.left) fun a => (hk a).mono fun _ => TooDeep.right

theorem lowerConstraint_erased (site : Site) (parent : ComponentId) (fieldName : String)
    (restrictions : List Ast.Restriction) (line : Nat) :
    lowerConstraint limits site parent fieldName restrictions line =
      lowerConstraint limits site parent fieldName
        ((restrictions.map Ast.Restriction.erased).filter (·.isKnown)) line := by
  refine orFail_bind_congr fun pattern hpattern => bind_congr fun field => bind_congr fun id => ?_
  have hsite : ({ site with constraint? := some ⟨id, field⟩ } : Site).pattern? = some pattern :=
    hpattern
  exact lowerRestrictions_erased _ hsite rfl id restrictions

mutual
/-- **An element lowers as without the unknown nodes in it**, unless an unknown source stands too
deep. -/
theorem spares_lowerElement (site : Site) (parent : ComponentId) (e : Ast.Element) :
    Spares limits site.rule (e.unknownSources site.depth) (lowerElement limits site parent e)
      (lowerElement limits site parent e.erased) := by
  cases e with
  | pattern p =>
    rw [Ast.Element.erased, lowerElement, lowerElement, Ast.Element.unknownSources]
    exact sameUnless_bind_left _ (spares_lowerPattern site parent p)
  | group connective elements =>
    rw [Ast.Element.erased, lowerElement, lowerElement, Ast.Element.unknownSources]
    refine sameUnless_descend_bind fun _ => sameUnless_bind_right _ fun id => ?_
    have hinside := spares_lowerElements { site with depth := site.depth + 1 } id elements
    exact sameUnless_bind_left _ (sameUnless_within _ _ hinside)
  | quantified q elements =>
    rw [Ast.Element.erased, lowerElement, lowerElement, Ast.Element.unknownSources]
    refine sameUnless_descend_bind fun _ => ?_
    have hinside := spares_lowerElements { site with depth := site.depth + 1 } parent elements
    exact sameUnless_bind_left _ (sameUnless_within _ _ hinside)
  | constraint fieldName restrictions line =>
    rw [Ast.Element.erased, lowerElement, lowerElement, lowerConstraint_erased]
    exact sameUnless_refl _
  | _ =>
    rw [Ast.Element.erased]
    exact sameUnless_refl _

theorem spares_lowerElements (site : Site) (parent : ComponentId) (es : List Ast.Element) :
    Spares limits site.rule (es.flatMap fun e => e.unknownSources site.depth)
      (lowerElements limits site parent es)
      (lowerElements limits site parent ((es.map fun e => e.erased).filter (·.isKnown))) := by
  cases es with
  | nil => exact sameUnless_refl _
  | cons e rest =>
    have hfirst := spares_lowerElement site parent e
    have hrest := spares_lowerElements site parent rest
    rw [List.map_cons, List.filter_cons, Ast.Element.isKnown_erased, List.flatMap_cons,
      lowerElements]
    cases hknown : e.isKnown with
    | true =>
      rw [if_pos rfl, lowerElements]
      exact spares_bind hfirst fun _ => hrest
    | false =>
      rw [if_neg Bool.false_ne_true, Ast.Element.eq_unknown hknown, lowerElement,
        Ast.Element.unknownSources]
      exact hrest

theorem spares_lowerPattern (site : Site) (parent : ComponentId) (p : Ast.Pattern) :
    Spares limits site.rule (p.unknownSources site.depth) (lowerPattern limits site parent p)
      (lowerPattern limits site parent p.erased) := by
  cases p with
  | mk objectType identifier source constraints line =>
    rw [Ast.Pattern.erased.eq_def, lowerPattern, lowerPattern, Ast.Pattern.unknownSources.eq_def]
    refine sameUnless_descend_bind fun hdepth => sameUnless_bind_right _ fun factClass => ?_
    refine sameUnless_bind_right _ fun isNot => sameUnless_bind_right _ fun isExists => ?_
    refine sameUnless_bind_right _ fun isForall => sameUnless_bind_right _ fun id => ?_
    refine sameUnless_bind_right _ fun _ => ?_
    have hsource := spares_lowerSource? { site with depth := site.depth + 1 } id hdepth source
    refine spares_bind hsource fun reference => sameUnless_bind_right _ fun _ => ?_
    let inner : Site :=
      { site with
        depth := site.depth + 1, pattern? := some ⟨id, factClass, objectType, isNot⟩
        constraint? := none }
    have hinside := spares_lowerElements inner id constraints
    exact sameUnless_bind_left _ (sameUnless_within _ _ hinside)

theorem spares_lowerSource? (site : Site) (parent : ComponentId)
    (hdepth : site.depth ≤ limits.maxNestingDepth) (source : Option Ast.Source) :
    Spares limits site.rule
      (match source with
        | none => []
        | some source => source.unknownSources site.depth)
      (lowerSource? limits site parent source)
      (lowerSource? limits site parent
        (match source with
          | none => none
          | some source => source.erased?)) := by
  cases source with
  | none => exact sameUnless_refl _
  | some source =>
    rw [lowerSource?]
    exact spares_lowerSource site parent hdepth source

/-- A source of an unknown kind is too deep if the pattern stands as deep as the limit allows. -/
theorem spares_lowerSource (site : Site) (parent : ComponentId)
    (hdepth : site.depth ≤ limits.maxNestingDepth) (source : Ast.Source) :
    Spares limits site.rule (source.unknownSources site.depth)
      (lowerSource limits site parent source)
      (lowerSource? limits site parent source.erased?) := by
  cases source with
  | accumulate input code =>
    rw [Ast.Source.erased?, lowerSource?, lowerSource, lowerSource, Ast.Source.unknownSources]
    refine sameUnless_descend_bind fun _ => sameUnless_bind_right _ fun id => ?_
    have hinput := spares_lowerPattern { site with depth := site.depth + 1 } id input
    exact sameUnless_bind_left _ hinput
  | collect input method =>
    rw [Ast.Source.erased?, lowerSource?, lowerSource, lowerSource, Ast.Source.unknownSources]
    refine sameUnless_descend_bind fun _ => sameUnless_bind_right _ fun id => ?_
    have hinput := spares_lowerPattern { site with depth := site.depth + 1 } id input
    exact sameUnless_bind_left _ hinput
  | supplied dataSource =>
    rw [Ast.Source.erased?, lowerSource?, lowerSource, lowerSource]
    refine sameUnless_descend_bind fun _ => sameUnless_bind_right _ fun id => ?_
    rw [lowerInvoker_erased]
    exact sameUnless_refl _
  | unknown =>
    rw [Ast.Source.erased?, lowerSource?, lowerSource, Ast.Source.unknownSources]
    by_cases hdeep : limits.maxNestingDepth < site.depth + 1
    · obtain hlimit : site.depth = limits.maxNestingDepth :=
        Nat.le_antisymm hdepth (Nat.le_of_lt_succ hdeep)
      intro s
      rw [descend, if_pos hdeep, hlimit]
      exact .inr ⟨_, s, ⟨List.mem_singleton_self _, rfl⟩, rfl⟩
    · rw [descend, if_neg hdeep]
      exact sameUnless_refl _
end

end Elements

section Rules

variable {limits : Limits}

theorem sameUnless_lowerRule (package : ComponentId) (r : Ast.Rule) :
    SameUnless (TooDeep limits r.name r.line r.unknownSources) (lowerRule limits package r)
      (lowerRule limits package r.erased) := by
  refine sameUnless_bind_right _ fun id => ?_
  exact sameUnless_bind_left _ (sameUnless_within _ _ (spares_lowerElements _ id r.lhs))

/-- An error of an unknown source in one of some rules. -/
def SomeTooDeep (limits : Limits) (rs : List Ast.Rule) (e : Error) : Prop :=
  ∃ r ∈ rs, TooDeep limits r.name r.line r.unknownSources e

theorem SomeTooDeep.mono {rs rs' : List Ast.Rule} (h : rs ⊆ rs') {e : Error}
    (he : SomeTooDeep limits rs e) : SomeTooDeep limits rs' e := by
  obtain ⟨r, hr, hdeep⟩ := he
  exact ⟨r, h hr, hdeep⟩

theorem sameUnless_lowerRules (package : ComponentId) (rs : List Ast.Rule) :
    SameUnless (SomeTooDeep limits rs) (lowerRules limits package rs)
      (lowerRules limits package (rs.map Ast.Rule.erased)) := by
  induction rs with
  | nil => exact sameUnless_refl _
  | cons r rest ih =>
    rw [List.map_cons, lowerRules, lowerRules]
    refine sameUnless_bind ?_ fun _ => ih.mono fun _ => .mono (List.subset_cons_self r rest)
    exact (sameUnless_lowerRule package r).mono fun e he => ⟨r, List.mem_cons_self, he⟩

theorem sameUnless_load (p : Ast.Package) :
    SameUnless (SomeTooDeep limits p.rules) (load limits p) (load limits p.erased) := by
  have hrules : SameUnless (SomeTooDeep limits p.rules) (lowerPackage limits p)
      (lowerPackage limits p.erased) :=
    sameUnless_bind_right _ fun id => sameUnless_bind_left _ (sameUnless_lowerRules id p.rules)
  intro g
  rw [load, load]
  obtain heq | ⟨e, s', he, hrun⟩ := hrules ⟨g, []⟩
  · exact .inl (by rw [heq])
  · exact .inr ⟨e, s'.graph, he, by rw [hrun]⟩

/-- **Packages load as without unknown nodes**, unless an unknown source stands too deep. -/
theorem sameUnless_loadAll (ps : List Ast.Package) :
    SameUnless (SomeTooDeep limits (ps.flatMap (·.rules))) (loadAll limits ps)
      (loadAll limits (ps.map Ast.Package.erased)) := by
  induction ps with
  | nil => exact sameUnless_refl _
  | cons p rest ih =>
    rw [List.map_cons, List.flatMap_cons, loadAll, loadAll]
    refine sameUnless_bind ?_ fun id => sameUnless_bind_left _ ?_
    · exact (sameUnless_load p).mono fun _ => .mono (List.subset_append_left _ _)
    · exact ih.mono fun _ => .mono (List.subset_append_right _ _)

end Rules

end RuleBase.Analysis

import RuleBase.Analysis.Package
import RuleBase.Proofs.Analysis.Run

/-!
# Larger limits

Limits only ever end a walk. So what succeeds under some limits succeeds under larger ones, with the
same result and in the same state.

* `extends_bind`, `extends_descend`, **`extends_within`**: parts of walks;
* **`extends_lowerElement`**, `extends_lowerRule`, `extends_loadAll`: larger limits do not change
  what is accepted.
-/

namespace RuleBase

/-- Limits are no larger than others, each of them. -/
structure Limits.Le (low high : Limits) : Prop where
  patternPossibilities_le : low.maxPatternPossibilities ≤ high.maxPatternPossibilities
  rulePossibilities_le : low.maxRulePossibilities ≤ high.maxRulePossibilities
  nestingDepth_le : low.maxNestingDepth ≤ high.maxNestingDepth

instance : LE Limits := ⟨Limits.Le⟩

namespace Analysis

open RuleBase.Graph Condition

variable {ε σ α β : Type} {low high : Limits}

/-- What succeeds on one way succeeds on the other, in the same way. -/
def Extends (x x' : EStateM ε σ α) : Prop := ∀ s a s', x s = .ok a s' → x' s = .ok a s'

theorem extends_refl (x : EStateM ε σ α) : Extends x x := fun _ _ _ h => h

theorem extends_bind {x x' : EStateM ε σ α} {k k' : α → EStateM ε σ β} (hx : Extends x x')
    (hk : ∀ a, Extends (k a) (k' a)) : Extends (x >>= k) (x' >>= k') := by
  intro s b s'' h
  obtain ⟨a, s', hfirst, hsecond⟩ := bind_eq_ok h
  exact (bind_of_ok (hx s a s' hfirst)).trans (hk a s' b s'' hsecond)

theorem extends_bind_right (x : EStateM ε σ α) {k k' : α → EStateM ε σ β}
    (hk : ∀ a, Extends (k a) (k' a)) : Extends (x >>= k) (x >>= k') :=
  extends_bind (extends_refl x) hk

theorem extends_bind_left {x x' : EStateM ε σ α} (k : α → EStateM ε σ β) (hx : Extends x x') :
    Extends (x >>= k) (x' >>= k) :=
  extends_bind hx fun a => extends_refl (k a)

/-! ## Where limits count -/

theorem extends_descend (h : low ≤ high) (site : Site) :
    Extends (descend low site) (descend high site) := by
  intro s a s' hok
  by_cases hdeep : low.maxNestingDepth < site.depth + 1
  · rw [descend, if_pos hdeep] at hok
    cases hok
  · rw [descend, if_neg hdeep] at hok
    have hle := h.nestingDepth_le
    rw [descend, if_neg (by omega)]
    exact hok

theorem extends_combineWithin (h : low ≤ high) (level : Level) (group : Condition.Group α) :
    Extends (combineWithin low level group) (combineWithin high level group) := by
  intro scopes a scopes' hok
  have hle : level.limit low ≤ level.limit high := by
    cases level with
    | rule => exact h.rulePossibilities_le
    | pattern => exact h.patternPossibilities_le
  by_cases hmany : level.limit low < group.count
  · rw [combineWithin, if_pos hmany] at hok
    cases hok
  · rw [combineWithin, if_neg hmany] at hok
    rw [combineWithin, if_neg (by omega)]
    exact hok

theorem extends_close (h : low ≤ high) (frame : Frame) :
    Extends (close low frame) (close high frame) := by
  cases frame with
  | quantifier q => exact extends_refl _
  | rule id group => exact extends_bind_left _ (extends_combineWithin h .rule group)
  | pattern id group => exact extends_bind_left _ (extends_combineWithin h .pattern group)
  | ruleOperator group => exact extends_bind_left _ (extends_combineWithin h .rule group)
  | patternOperator group => exact extends_bind_left _ (extends_combineWithin h .pattern group)

theorem extends_leave (h : low ≤ high) (token : Token) :
    Extends (leave low token) (leave high token) := by
  intro scopes closed scopes' hok
  cases scopes with
  | nil => cases hok
  | cons frame rest =>
    rw [leave] at hok ⊢
    split at hok
    · next htoken =>
      rw [if_pos htoken]
      exact extends_close h frame _ _ _ hok
    · cases hok

theorem extends_inScopes {step step' : Scoping α} (rule : RuleSite) (h : Extends step step') :
    Extends (inScopes rule step) (inScopes rule step') := by
  intro s a s' hok
  obtain ⟨scopes, hstep, rfl⟩ := inScopes_eq_ok hok
  exact inScopes_of_ok (h _ _ _ hstep)

/-- **A scope.** -/
theorem extends_within (h : low ≤ high) (rule : RuleSite) (scope : Scope) {body body' : Walk Unit}
    (hbody : Extends body body') :
    Extends (within low rule scope body) (within high rule scope body') := by
  refine extends_bind_right _ fun token s closed s' hok => ?_
  cases hrun : body s with
  | error e s₁ => simp only [hrun] at hok; cases hok
  | ok u s₁ =>
    simp only [hrun] at hok
    simp only [hbody s u s₁ hrun]
    exact extends_inScopes rule (extends_leave h token) s₁ closed s' hok

/-! ## Walks -/

mutual
theorem extends_lowerRestriction (h : low ≤ high) (site : Site) (parent : ComponentId)
    (r : Ast.Restriction) :
    Extends (lowerRestriction low site parent r) (lowerRestriction high site parent r) := by
  cases r with
  | comparison symbol negated operand =>
    rw [lowerRestriction, lowerRestriction]
    exact extends_refl _
  | group connective restrictions =>
    rw [lowerRestriction, lowerRestriction]
    refine extends_bind_right _ fun _ => extends_bind (extends_descend h site) fun site => ?_
    exact extends_bind_left _
      (extends_within h _ _ (extends_lowerRestrictions h site parent restrictions))
  | unknown =>
    rw [lowerRestriction, lowerRestriction]
    exact extends_refl _

theorem extends_lowerRestrictions (h : low ≤ high) (site : Site) (parent : ComponentId)
    (rs : List Ast.Restriction) :
    Extends (lowerRestrictions low site parent rs) (lowerRestrictions high site parent rs) := by
  cases rs with
  | nil =>
    rw [lowerRestrictions, lowerRestrictions]
    exact extends_refl _
  | cons r rest =>
    rw [lowerRestrictions, lowerRestrictions]
    exact extends_bind (extends_lowerRestriction h site parent r) fun _ =>
      extends_lowerRestrictions h site parent rest
end

mutual
theorem extends_lowerInvoker (h : low ≤ high) (site : Site) (parent : ComponentId)
    (i : Ast.Invoker) :
    Extends (lowerInvoker low site parent i) (lowerInvoker high site parent i) := by
  cases i with
  | accessor name invokers =>
    rw [lowerInvoker, lowerInvoker]
    refine extends_bind (extends_descend h site) fun site => extends_bind_right _ fun id => ?_
    exact extends_bind_left _ (extends_lowerInvokers h site id invokers)
  | fieldAccess name argument =>
    rw [lowerInvoker, lowerInvoker]
    exact extends_refl _
  | methodAccess name arguments =>
    rw [lowerInvoker, lowerInvoker]
    exact extends_refl _
  | functionCall name arguments =>
    rw [lowerInvoker, lowerInvoker]
    exact extends_refl _
  | unknown =>
    rw [lowerInvoker, lowerInvoker]
    exact extends_refl _

theorem extends_lowerInvokers (h : low ≤ high) (site : Site) (parent : ComponentId)
    (is : List Ast.Invoker) :
    Extends (lowerInvokers low site parent is) (lowerInvokers high site parent is) := by
  cases is with
  | nil =>
    rw [lowerInvokers, lowerInvokers]
    exact extends_refl _
  | cons i rest =>
    rw [lowerInvokers, lowerInvokers]
    exact extends_bind (extends_lowerInvoker h site parent i) fun _ =>
      extends_lowerInvokers h site parent rest
end

mutual
theorem extends_lowerElement (h : low ≤ high) (site : Site) (parent : ComponentId)
    (e : Ast.Element) :
    Extends (lowerElement low site parent e) (lowerElement high site parent e) := by
  cases e with
  | pattern p =>
    rw [lowerElement, lowerElement]
    exact extends_bind_left _ (extends_lowerPattern h site parent p)
  | group connective elements =>
    rw [lowerElement, lowerElement]
    refine extends_bind (extends_descend h site) fun site => extends_bind_right _ fun id => ?_
    exact extends_bind_left _ (extends_within h _ _ (extends_lowerElements h site id elements))
  | quantified q elements =>
    rw [lowerElement, lowerElement]
    refine extends_bind (extends_descend h site) fun site => ?_
    exact extends_bind_left _ (extends_within h _ _ (extends_lowerElements h site parent elements))
  | constraint fieldName restrictions line =>
    rw [lowerElement, lowerElement]
    refine extends_bind_right _ fun pattern => extends_bind_right _ fun field =>
      extends_bind_right _ fun id => ?_
    exact extends_lowerRestrictions h _ id restrictions
  | eval content method =>
    rw [lowerElement, lowerElement]
    exact extends_refl _
  | predicate content method =>
    rw [lowerElement, lowerElement]
    exact extends_refl _
  | binding identifier fieldName line =>
    rw [lowerElement, lowerElement]
    exact extends_refl _
  | unknown =>
    rw [lowerElement, lowerElement]
    exact extends_refl _

theorem extends_lowerElements (h : low ≤ high) (site : Site) (parent : ComponentId)
    (es : List Ast.Element) :
    Extends (lowerElements low site parent es) (lowerElements high site parent es) := by
  cases es with
  | nil =>
    rw [lowerElements, lowerElements]
    exact extends_refl _
  | cons e rest =>
    rw [lowerElements, lowerElements]
    exact extends_bind (extends_lowerElement h site parent e) fun _ =>
      extends_lowerElements h site parent rest

theorem extends_lowerPattern (h : low ≤ high) (site : Site) (parent : ComponentId)
    (p : Ast.Pattern) :
    Extends (lowerPattern low site parent p) (lowerPattern high site parent p) := by
  cases p with
  | mk objectType identifier source constraints line =>
    rw [lowerPattern, lowerPattern]
    refine extends_bind (extends_descend h site) fun site => ?_
    refine extends_bind_right _ fun factClass => extends_bind_right _ fun isNot =>
      extends_bind_right _ fun isExists => extends_bind_right _ fun isForall =>
      extends_bind_right _ fun id => extends_bind_right _ fun _ => ?_
    refine extends_bind (extends_lowerSource? h site id source) fun reference =>
      extends_bind_right _ fun _ => ?_
    exact extends_bind_left _ (extends_within h _ _ (extends_lowerElements h _ id constraints))

theorem extends_lowerSource? (h : low ≤ high) (site : Site) (parent : ComponentId)
    (source : Option Ast.Source) :
    Extends (lowerSource? low site parent source) (lowerSource? high site parent source) := by
  cases source with
  | none =>
    rw [lowerSource?, lowerSource?]
    exact extends_refl _
  | some source =>
    rw [lowerSource?, lowerSource?]
    exact extends_lowerSource h site parent source

theorem extends_lowerSource (h : low ≤ high) (site : Site) (parent : ComponentId)
    (source : Ast.Source) :
    Extends (lowerSource low site parent source) (lowerSource high site parent source) := by
  cases source with
  | accumulate input code =>
    rw [lowerSource, lowerSource]
    refine extends_bind (extends_descend h site) fun site => extends_bind_right _ fun id => ?_
    exact extends_bind_left _ (extends_lowerPattern h site id input)
  | collect input method =>
    rw [lowerSource, lowerSource]
    refine extends_bind (extends_descend h site) fun site => extends_bind_right _ fun id => ?_
    exact extends_bind_left _ (extends_lowerPattern h site id input)
  | supplied dataSource =>
    rw [lowerSource, lowerSource]
    refine extends_bind (extends_descend h site) fun site => extends_bind_right _ fun id => ?_
    exact extends_bind_left _ (extends_lowerInvoker h site id dataSource)
  | unknown =>
    rw [lowerSource, lowerSource]
    exact extends_bind_left _ (extends_descend h site)
end

theorem extends_lowerRule (h : low ≤ high) (package : ComponentId) (r : Ast.Rule) :
    Extends (lowerRule low package r) (lowerRule high package r) := by
  refine extends_bind_right _ fun id => ?_
  exact extends_bind_left _ (extends_within h _ _ (extends_lowerElements h _ id r.lhs))

theorem extends_lowerRules (h : low ≤ high) (package : ComponentId) (rs : List Ast.Rule) :
    Extends (lowerRules low package rs) (lowerRules high package rs) := by
  induction rs with
  | nil => exact extends_refl _
  | cons r rest ih => exact extends_bind (extends_lowerRule h package r) fun _ => ih

theorem extends_load (h : low ≤ high) (p : Ast.Package) : Extends (load low p) (load high p) := by
  intro g id g' hok
  have hpackage : Extends (lowerPackage low p) (lowerPackage high p) :=
    extends_bind_right _ fun id => extends_bind_left _ (extends_lowerRules h id p.rules)
  rw [load] at hok ⊢
  cases hrun : lowerPackage low p ⟨g, []⟩ with
  | error e s =>
    rw [hrun] at hok
    cases hok
  | ok id' s =>
    rw [hrun] at hok
    rw [hpackage _ _ _ hrun]
    exact hok

theorem extends_loadAll (h : low ≤ high) (ps : List Ast.Package) :
    Extends (loadAll low ps) (loadAll high ps) := by
  induction ps with
  | nil => exact extends_refl _
  | cons p rest ih =>
    exact extends_bind (extends_load h p) fun id => extends_bind_left _ ih

end Analysis

end RuleBase

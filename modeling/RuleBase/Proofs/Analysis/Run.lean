import Mathlib.Order.Defs.Unbundled
import RuleBase.Analysis.Package
import RuleBase.Proofs.Condition.Scope

/-!
# Runs of walks

What holds between the state that a walk starts in and the one that it ends in. A walk that fails
ends in a state too, so a relation is followed from step to step up to the error.

* **`always_bind`**: relations along a sequence;
* `add_eq_ok`, `findOrAdd_eq_ok`, **`within_eq_ok`**, `load_eq_ok`, …: what has happened if a step
  has succeeded;
* `lowerRules_induction`, **`loadAll_induction`**: invariants of the rules and the packages read so
  far.
-/

namespace RuleBase.Analysis

open RuleBase.Graph Condition

variable {ε σ α β : Type}

/-- The state that a run ends in. -/
def final : EStateM.Result ε σ α → σ
  | .ok _ s => s
  | .error _ s => s

/-- Every run ends in a state that is related to its first one. -/
def Always (R : σ → σ → Prop) (x : EStateM ε σ α) : Prop := ∀ s, R s (final (x s))

section Sequence

variable {R : σ → σ → Prop}

theorem always_pure [Std.Refl R] (a : α) : Always R (pure a : EStateM ε σ α) :=
  fun s => Std.Refl.refl s

theorem always_throw [Std.Refl R] (e : ε) : Always R (throw e : EStateM ε σ α) :=
  fun s => Std.Refl.refl s

/-- **A relation holds along a sequence** if it holds along its parts. -/
theorem always_bind [IsTrans σ R] {x : EStateM ε σ α} {f : α → EStateM ε σ β} (hx : Always R x)
    (hf : ∀ a, Always R (f a)) : Always R (x >>= f) := by
  intro s
  have hfirst := hx s
  change R s (final (EStateM.bind x f s))
  cases hrun : x s with
  | ok a s' =>
    rw [hrun] at hfirst
    simp only [EStateM.bind, hrun]
    exact IsTrans.trans _ _ _ hfirst (hf a s')
  | error e s' =>
    rw [hrun] at hfirst
    simp only [EStateM.bind, hrun]
    exact hfirst

end Sequence

section Still

variable {R : State → State → Prop} [Std.Refl R]

theorem always_orFail (rule : RuleSite) (fault : Fault) (o : Option α) :
    Always R (orFail rule fault o) := by
  cases o with
  | none => exact always_throw _
  | some a => exact always_pure a

theorem always_look (f : Graph → α) : Always R (look f) := fun s => Std.Refl.refl s

theorem always_underQuantifier (q : Quantifier) : Always R (underQuantifier q) :=
  fun s => Std.Refl.refl s

theorem always_descend_bind {limits : Limits} {site : Site} {f : Site → Walk α}
    (hf : ∀ depth, Always R (f { site with depth })) : Always R (descend limits site >>= f) := by
  by_cases h : limits.maxNestingDepth < site.depth + 1
  · rw [descend, if_pos h]
    exact always_throw _
  · rw [descend, if_neg h]
    exact hf _

variable [IsTrans State R]

theorem always_findOrAdd {find? : Graph → Option ComponentId} {parent : Option ComponentId}
    {kind : Kind} (hadd : Always R (add parent kind)) :
    Always R (findOrAdd find? parent kind) := by
  refine always_bind (always_look find?) fun found => ?_
  cases found with
  | none => exact hadd
  | some id => exact always_pure id

end Still

/-! ## Relations between graphs -/

/-- The graphs of two states are related. -/
def OnGraph (R : Graph → Graph → Prop) (s s' : State) : Prop := R s.graph s'.graph

section OnGraph

variable {R : Graph → Graph → Prop}

instance [Std.Refl R] : Std.Refl (OnGraph R) := ⟨fun s => Std.Refl.refl (r := R) s.graph⟩

instance [IsTrans Graph R] : IsTrans State (OnGraph R) :=
  ⟨fun _ _ _ h h' => IsTrans.trans (r := R) _ _ _ h h'⟩

theorem always_add {parent : Option ComponentId} {kind : Kind}
    (h : ∀ g, R g (g.add parent kind)) : Always (OnGraph R) (add parent kind) :=
  fun s => h s.graph

theorem always_inScopes [Std.Refl R] (rule : RuleSite) (step : Scoping α) :
    Always (OnGraph R) (inScopes rule step) := by
  intro s
  rw [inScopes]
  cases step s.scopes <;> exact Std.Refl.refl s.graph

/-- **A relation between graphs holds along a scope** if it holds along what is inside. -/
theorem always_within [Std.Refl R] [IsTrans Graph R] {limits : Limits} {rule : RuleSite}
    {scope : Scope} {body : Walk Unit} (hbody : Always (OnGraph R) body) :
    Always (OnGraph R) (within limits rule scope body) := by
  refine always_bind (always_inScopes rule _) fun token s => ?_
  have hinside := hbody s
  cases hrun : body s with
  | ok _ s' =>
    rw [hrun] at hinside
    exact IsTrans.trans (r := OnGraph R) _ _ _ hinside (always_inScopes rule _ s')
  | error e s' =>
    rw [hrun] at hinside
    exact hinside

end OnGraph

/-! ## Steps that have succeeded -/

theorem Always.of_ok {R : σ → σ → Prop} {x : EStateM ε σ α} (h : Always R x) {s s' : σ} {a : α}
    (hrun : x s = .ok a s') : R s s' := by
  have hfinal := h s
  rw [hrun] at hfinal
  exact hfinal

variable {s s' : State}

theorem orFail_eq_ok {rule : RuleSite} {fault : Fault} {o : Option α} {a : α}
    (h : orFail rule fault o s = .ok a s') : o = some a ∧ s' = s := by
  cases o with
  | none => cases h
  | some b =>
    cases h
    exact ⟨rfl, rfl⟩

theorem site_pattern_eq_ok {site : Site} {node : Inner} {pattern : PatternSite}
    (h : site.pattern node s = .ok pattern s') : site.pattern? = some pattern ∧ s' = s :=
  orFail_eq_ok h

theorem site_constraint_eq_ok {site : Site} {node : Inner} {place : PatternSite × ConstraintSite}
    (h : site.constraint node s = .ok place s') :
    (site.pattern? = some place.1 ∧ site.constraint? = some place.2) ∧ s' = s := by
  obtain ⟨pattern, s₁, hpattern, hrest⟩ := bind_eq_ok h
  obtain ⟨constraint, s₂, hconstraint, hdone⟩ := bind_eq_ok hrest
  obtain ⟨hsite, rfl⟩ := site_pattern_eq_ok hpattern
  obtain ⟨hinside, rfl⟩ := orFail_eq_ok hconstraint
  cases hdone
  exact ⟨⟨hsite, hinside⟩, rfl⟩

theorem descend_eq_ok {limits : Limits} {site site' : Site}
    (h : descend limits site s = .ok site' s') :
    (∃ depth, site' = { site with depth }) ∧ s' = s := by
  by_cases hdeep : limits.maxNestingDepth < site.depth + 1
  · rw [descend, if_pos hdeep] at h
    cases h
  · rw [descend, if_neg hdeep] at h
    cases h
    exact ⟨⟨_, rfl⟩, rfl⟩

theorem underQuantifier_eq_ok {q : Quantifier} {b : Bool} (h : underQuantifier q s = .ok b s') :
    b = quantifiedBy q s.scopes ∧ s' = s := by
  cases h
  exact ⟨rfl, rfl⟩

theorem add_eq_ok {parent : Option ComponentId} {kind : Kind} {id : ComponentId}
    (h : add parent kind s = .ok id s') :
    id = s.graph.nextId ∧ s' = { s with graph := s.graph.add parent kind } := by
  cases h
  exact ⟨rfl, rfl⟩

theorem findOrAdd_of_some {find? : Graph → Option ComponentId} {parent : Option ComponentId}
    {kind : Kind} {id : ComponentId} (h : find? s.graph = some id) :
    findOrAdd find? parent kind s = .ok id s := by
  have hlook : look find? s = .ok (find? s.graph) s := rfl
  rw [findOrAdd, bind_of_ok hlook, h]
  rfl

theorem findOrAdd_of_none {find? : Graph → Option ComponentId} {parent : Option ComponentId}
    {kind : Kind} (h : find? s.graph = none) :
    findOrAdd find? parent kind s = add parent kind s := by
  have hlook : look find? s = .ok (find? s.graph) s := rfl
  rw [findOrAdd, bind_of_ok hlook, h]

theorem findOrAdd_eq_ok {find? : Graph → Option ComponentId} {parent : Option ComponentId}
    {kind : Kind} {id : ComponentId} (h : findOrAdd find? parent kind s = .ok id s') :
    find? s.graph = some id ∧ s' = s ∨ find? s.graph = none ∧ id = s.graph.nextId ∧
      s' = { s with graph := s.graph.add parent kind } := by
  cases hfind : find? s.graph with
  | some found =>
    rw [findOrAdd_of_some hfind] at h
    cases h
    exact .inl ⟨rfl, rfl⟩
  | none =>
    rw [findOrAdd_of_none hfind] at h
    exact .inr ⟨rfl, add_eq_ok h⟩

theorem inScopes_eq_ok {rule : RuleSite} {step : Scoping α} {a : α}
    (h : inScopes rule step s = .ok a s') :
    ∃ scopes, step s.scopes = .ok a scopes ∧ s' = { s with scopes } := by
  rw [inScopes] at h
  cases hstep : step s.scopes with
  | ok b scopes =>
    rw [hstep] at h
    cases h
    exact ⟨scopes, rfl, rfl⟩
  | error e scopes =>
    rw [hstep] at h
    cases h

/-- **A walk inside a scope** starts with the new frame, and ends with a frame that closes. -/
theorem within_eq_ok {limits : Limits} {rule : RuleSite} {scope : Scope} {body : Walk Unit}
    {closed : Closed} (h : within limits rule scope body s = .ok closed s') :
    ∃ frame s₁, newFrame scope s.scopes = .ok frame ∧
      body { s with scopes := frame :: s.scopes } = .ok () s₁ ∧
      ∃ scopes, (∀ last rest, s₁.scopes = last :: rest →
          close limits last rest = .ok closed scopes) ∧ s' = { s₁ with scopes } := by
  obtain ⟨token, s₂, henter, hrest⟩ := bind_eq_ok h
  obtain ⟨scopes₂, hstep, rfl⟩ := inScopes_eq_ok henter
  rw [enter] at hstep
  cases hframe : newFrame scope s.scopes with
  | error e =>
    rw [hframe] at hstep
    cases hstep
  | ok frame =>
    rw [hframe] at hstep
    cases hstep
    cases hbody : body { s with scopes := frame :: s.scopes } with
    | error e s₁ =>
      rw [hbody] at hrest
      cases hrest
    | ok u s₁ =>
      rw [hbody] at hrest
      obtain ⟨scopes, hleave, rfl⟩ := inScopes_eq_ok hrest
      refine ⟨frame, s₁, rfl, hbody, scopes, fun last rest hlast => ?_, rfl⟩
      rw [hlast] at hleave
      exact leave_eq_ok hleave

theorem load_eq_ok {limits : Limits} {p : Ast.Package} {g g' : Graph} {id : ComponentId}
    (h : load limits p g = .ok id g') :
    ∃ s s', packageFor p.name ⟨g, []⟩ = .ok id s ∧ lowerRules limits id p.rules s = .ok () s' ∧
      g' = s'.graph := by
  rw [load] at h
  cases hpackage : lowerPackage limits p ⟨g, []⟩ with
  | error e s =>
    rw [hpackage] at h
    cases h
  | ok id' s' =>
    rw [hpackage] at h
    cases h
    obtain ⟨id'', s, hfind, hrest⟩ := bind_eq_ok hpackage
    obtain ⟨u, s'', hrules, hdone⟩ := bind_eq_ok hrest
    cases hdone
    exact ⟨s, s', hfind, hrules, rfl⟩

/-! ## Rules and packages one after another -/

theorem always_lowerRules {R : State → State → Prop} [Std.Refl R] [IsTrans State R]
    {limits : Limits} {package : ComponentId} (h : ∀ r, Always R (lowerRule limits package r))
    (rs : List Ast.Rule) : Always R (lowerRules limits package rs) := by
  induction rs with
  | nil => exact always_pure _
  | cons r rest ih => exact always_bind (h r) fun _ => ih

/-- An invariant of the rules of a package: it tells of the state after the rules so far. -/
theorem lowerRules_induction {limits : Limits} {package : ComponentId} {rs : List Ast.Rule}
    {I : List Ast.Rule → State → Prop} {s s' : State}
    (hrun : lowerRules limits package rs s = .ok () s') (h : I [] s)
    (hstep : ∀ before r s s', I before s → lowerRule limits package r s = .ok () s' →
      I (before ++ [r]) s') : I rs s' := by
  suffices hall : ∀ before s, I before s → lowerRules limits package rs s = .ok () s' →
      I (before ++ rs) s' from hall [] s h hrun
  clear h hrun
  induction rs with
  | nil =>
    intro before s hbefore hrun
    cases hrun
    rwa [List.append_nil]
  | cons r rest ih =>
    intro before s hbefore hrun
    obtain ⟨u, s₁, hfirst, hlater⟩ := bind_eq_ok hrun
    rw [List.append_cons]
    exact ih (before ++ [r]) s₁ (hstep before r s s₁ hbefore hfirst) hlater

/-- An invariant of packages that are loaded: it tells of the graph after the packages so far. -/
theorem loadAll_induction {limits : Limits} {ps : List Ast.Package}
    {I : List Ast.Package → Graph → Prop} {g g' : Graph} {ids : List ComponentId}
    (hrun : loadAll limits ps g = .ok ids g') (h : I [] g)
    (hstep : ∀ before p g id g', I before g → load limits p g = .ok id g' →
      I (before ++ [p]) g') : I ps g' := by
  suffices hall : ∀ before g ids, I before g → loadAll limits ps g = .ok ids g' →
      I (before ++ ps) g' from hall [] g ids h hrun
  clear h hrun
  induction ps with
  | nil =>
    intro before g ids hbefore hrun
    cases hrun
    rwa [List.append_nil]
  | cons p rest ih =>
    intro before g ids hbefore hrun
    obtain ⟨id, g₁, hfirst, hlater⟩ := bind_eq_ok hrun
    obtain ⟨ids', g₂, hrest, hdone⟩ := bind_eq_ok hlater
    cases hdone
    rw [List.append_cons]
    exact ih (before ++ [p]) g₁ ids' (hstep before p g id g₁ hbefore hfirst) hrest

/-! ## Steps that are known -/

theorem inScopes_of_ok {rule : RuleSite} {step : Scoping α} {a : α} {scopes : Scopes}
    (h : step s.scopes = .ok a scopes) : inScopes rule step s = .ok a { s with scopes } := by
  rw [inScopes, h]

theorem inScopes_of_error {rule : RuleSite} {step : Scoping α} {e : ScopeError} {scopes : Scopes}
    (h : step s.scopes = .error e scopes) :
    inScopes rule step s = .error (rule.error (faultOfScopes e)) { s with scopes } := by
  rw [inScopes, h]

theorem varFor_of_none {rule : RuleSite} {name : String}
    (h : s.graph.findVar? rule.id name = none) :
    varFor rule name s = .error (rule.error (.unresolvedVariable name)) s := by
  change orFail rule _ (s.graph.findVar? rule.id name) s = _
  rw [h]
  rfl

theorem varFor_of_some {rule : RuleSite} {name : String} {id : ComponentId}
    (h : s.graph.findVar? rule.id name = some id) : varFor rule name s = .ok id s := by
  change orFail rule _ (s.graph.findVar? rule.id name) s = _
  rw [h]
  rfl

section FieldFor

variable {pattern : PatternSite} {name : String}

theorem fieldFor_of_some {field : ComponentId}
    (h : s.graph.findField? pattern.factClass name = some field) (line : Nat) :
    fieldFor pattern name line s = .ok field
      { s with
        graph := if line ≠ 0 then s.graph.modify field (onField (Field.mention line))
          else s.graph } := by
  have hlook : look (·.findField? pattern.factClass name) s = .ok (some field) s :=
    congrArg (EStateM.Result.ok · s) h
  rw [fieldFor, bind_of_ok hlook]
  by_cases hline : line = 0
  · subst hline
    rfl
  · simp only [ne_eq, hline, not_false_eq_true, if_true]
    rfl

theorem fieldFor_of_none (h : s.graph.findField? pattern.factClass name = none) (line : Nat) :
    fieldFor pattern name line s = .ok s.graph.nextId
      { s with
        graph := s.graph.add (some pattern.factClass)
          (.field ⟨pattern.factClass, pattern.className, name, line, .unknown⟩) } := by
  have hlook : look (·.findField? pattern.factClass name) s = .ok none s :=
    congrArg (EStateM.Result.ok · s) h
  rw [fieldFor, bind_of_ok hlook]
  rfl

end FieldFor

section Within

variable {limits : Limits} {rule : RuleSite} {scope : Scope} {body : Walk Unit}

theorem within_of_newFrame_error {e : ScopeError} (h : newFrame scope s.scopes = .error e) :
    within limits rule scope body s = .error (rule.error (faultOfScopes e)) s :=
  bind_of_error (inScopes_of_error (by rw [enter, h]))

variable {frame : Frame} (hframe : newFrame scope s.scopes = .ok frame)
include hframe

theorem enter_of_newFrame :
    inScopes rule (enter scope) s =
      .ok ⟨s.scopes.length, scope⟩ { s with scopes := frame :: s.scopes } :=
  inScopes_of_ok (by rw [enter, hframe])

theorem within_of_error {e : Error}
    (h : body { s with scopes := frame :: s.scopes } = .error e s') :
    within limits rule scope body s =
      .error e { s' with scopes := abandon ⟨s.scopes.length, scope⟩ s'.scopes } := by
  refine (bind_of_ok (enter_of_newFrame hframe)).trans ?_
  simp only [h]

theorem within_of_ok (h : body { s with scopes := frame :: s.scopes } = .ok () s') :
    within limits rule scope body s =
      inScopes rule (leave limits ⟨s.scopes.length, scope⟩) s' := by
  refine (bind_of_ok (enter_of_newFrame hframe)).trans ?_
  simp only [h]

end Within

end RuleBase.Analysis

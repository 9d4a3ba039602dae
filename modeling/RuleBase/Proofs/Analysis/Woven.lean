import RuleBase.Proofs.Analysis.Children

/-!
# Rules are woven in

The walk through a rule weaves its components in one by one. What has to be filled in is finished
when the walk leaves it: a source has its input or what supplies it as its only child, a pattern its
source among its children, and a rule its consequence as the last one.

* `PatternSteps`, **`PatternSteps.woven`**, `weavesPattern_of_parts`: patterns;
* **`weaves_lowerElement`**, `weaves_lowerPattern`, `weaves_lowerSource`: the parts of a condition;
* **`woven_lowerRule`**, `woven_loadAll`: rules and packages.
-/

namespace RuleBase.Analysis

open RuleBase.Graph Condition

variable {limits : Limits} {s s' : State} {p : ComponentId}

theorem standsAt_pattern {rule : RuleSite} {pattern? : Option PatternSite} {g : Graph}
    {k : Graph.Pattern} (h : rule.Knows pattern? p g)
    (hclass : g.ofKind? Kind.className? k.factClass = some k.name) :
    rule.StandsAt (some ⟨g.nextId, k.factClass, k.name, k.isNot⟩) g.nextId
      (g.add (some p) (.pattern k)) := by
  have hmade := made_add g (some p) (.pattern k)
  have hkept := kept_add g (some p) (.pattern k)
  refine ⟨⟨hmade.inRule (h.inRule.keep hkept) nofun, ?_⟩, ?_⟩
  · rintro _ ⟨⟩
    refine ⟨⟨k, ?_, rfl, rfl, rfl⟩, hkept.className? hclass⟩
    rw [ofKind?, get?_add_nextId]
    rfl
  · rintro _ ⟨⟩
    exact .here hmade.typeOf?

theorem weaves_bindPattern {rule : RuleSite} {q : PatternSite} (identifier : Option String) :
    Weaves (rule.StandsAt (some q) q.id) (some q.id)
      (bindPattern rule q.id q.factClass q.className identifier) := by
  cases identifier with
  | none => exact weaves_pure ()
  | some name =>
    refine weaves_addVar fun g _ h => ?_
    obtain ⟨⟨k, hk, hclass, hname, -⟩, hclassName⟩ := h.known q rfl
    exact suits_var h.inRule (h.nearest q rfl) hk
      (.inl ⟨rfl, congrArg some hclass.symm, hname.symm⟩)
      (.inr ⟨q.factClass, rfl, typeOf?_of_className? hclassName⟩)

theorem weaves_handOver {F : Graph → Prop} {p? : Option ComponentId} (rule : RuleSite)
    (closed : Closed) : Weaves F p? (handOver rule closed) := by
  cases closed with
  | pattern id possibilities =>
    have hsteps : Weaves (fun _ => True) p? (handOver rule (.pattern id possibilities)) :=
      weaves_bind lasting_true (weaves_keepPatternPossibilities rule.id id possibilities)
        fun ids => weaves_inScopes rule (addPatternPossibilities ids)
    exact hsteps.of_imp fun _ _ => trivial
  | _ => exact weaves_pure ()

/-! ## Elements -/

theorem suits_constraint {rule : RuleSite} {q : PatternSite} {field : ComponentId} {name : String}
    {g : Graph} (h : rule.StandsAt (some q) p g) (hfield : IsFieldOf q name field g) :
    Suits g (some p) (.constraint
      { rule := rule.id, pattern := q.id, patternIsNot := q.isNot, field, fieldName := name }) := by
  have hmade := made_add g (some p) (.constraint
    { rule := rule.id, pattern := q.id, patternIsNot := q.isNot, field, fieldName := name })
  have hkept := kept_add g (some p) (.constraint
    { rule := rule.id, pattern := q.id, patternIsNot := q.isNot, field, fieldName := name })
  have hstands := lasting_standsAt rule (some q) p _ _ hkept h
  refine suits_of_fits h.inRule.nearest.le_size rfl nofun ⟨?_, ?_, ?_⟩
  · exact hmade.nearest hstands.inRule.nearest nofun
  · exact hmade.nearest (hstands.nearest q rfl) nofun
  · obtain ⟨⟨k, hk, hclass, -, hnot⟩, -⟩ := hstands.known q rfl
    obtain ⟨f, hf, hclass', hname⟩ := lasting_isFieldOf q name field _ _ hkept hfield
    exact ⟨k, f, hk, hf, hnot.symm, hclass'.trans hclass.symm, hname⟩

theorem standsIn_constraint {rule : RuleSite} {q : PatternSite} {field id : ComponentId}
    {name : String} {g : Graph} (h : rule.StandsAt (some q) p g)
    (hmade : Made id (some p) (.constraint
      { rule := rule.id, pattern := q.id, patternIsNot := q.isNot, field, fieldName := name }) g) :
    rule.StandsIn q ⟨id, field⟩ id g where
  id_eq := rfl
  inRule := hmade.inRule h.inRule nofun
  constraint := ⟨_, hmade.ofKind? fun k => by cases k <;> rfl, rfl, rfl, rfl, rfl⟩

theorem weaves_fieldFor_bind {rule : RuleSite} {q : PatternSite} {name : String} {line : Nat}
    {α : Type} {next : ComponentId → Walk α}
    (hnext : ∀ field, Weaves (fun g => rule.StandsAt (some q) p g ∧ IsFieldOf q name field g)
      (some p) (next field)) :
    Weaves (rule.StandsAt (some q) p) (some p) (fieldFor q name line >>= next) := by
  refine weaves_value_bind (lasting_standsAt rule (some q) p) ?_ ?_ hnext
  · intro s id s' harranged h hrun
    exact (woven_fieldFor harranged (h.known q rfl) hrun).1
  · intro s id s' harranged h hrun
    obtain ⟨-, hfield⟩ : Woven (some p) s.graph s'.graph ∧ IsFieldOf q name id s'.graph :=
      woven_fieldFor harranged (h.known q rfl) hrun
    exact hfield

theorem weaves_lowerConstraint (limits : Limits) (site : Site) (p : ComponentId) (name : String)
    (restrictions : List Ast.Restriction) (line : Nat) :
    Weaves (site.rule.StandsAt site.pattern? p) (some p)
      (lowerConstraint limits site p name restrictions line) := by
  obtain ⟨rule, pattern?, constraint?, depth⟩ := site
  refine weaves_orFail_bind fun q hq => ?_
  obtain rfl : pattern? = some q := hq
  refine weaves_fieldFor_bind fun field => ?_
  refine weaves_node_bind rfl (lasting_standsAt rule (some q) p)
    (fun g _ ⟨h, hfield⟩ => ⟨suits_constraint h hfield, h⟩) fun id => ?_
  have hinside := weaves_lowerRestrictions (q := q) (k := ⟨id, field⟩) limits
    { rule, pattern? := some q, constraint? := some ⟨id, field⟩, depth } rfl rfl id restrictions
  refine hinside.of_imp ?_
  rintro g ⟨h, hmade⟩
  exact standsIn_constraint h hmade

theorem weaves_lowerBinding (site : Site) (p : ComponentId) (identifier name : String)
    (line : Nat) :
    Weaves (site.rule.StandsAt site.pattern? p) (some p)
      (lowerBinding site p identifier name line) := by
  refine weaves_orFail_bind fun q hq => ?_
  rw [hq]
  refine weaves_fieldFor_bind fun field => weaves_addVar fun g _ ⟨h, hfield⟩ => ?_
  obtain ⟨⟨k, hk, hclass, -, -⟩, -⟩ := h.known q rfl
  obtain ⟨f, hf, hclass', hname⟩ := hfield
  exact suits_var h.inRule (h.nearest q rfl) hk
    (.inr ⟨field, f, rfl, hf, hclass'.trans hclass.symm, hname⟩) (.inl rfl)

theorem suits_eval {rule : RuleSite} {content : String} {method : Option String} {g : Graph}
    (h : g.InRule p rule.id rule.name) :
    Suits g (some p) (.eval (expression rule content method)) :=
  suits_of_fits h.nearest.le_size rfl nofun
    ((made_add g (some p) _).inRule (h.keep (kept_add _ _ _)) nofun)

theorem suits_predicate {rule : RuleSite} {q : PatternSite} {content : String}
    {method : Option String} {g : Graph} (h : rule.StandsAt (some q) p g) :
    Suits g (some p) (.predicate (expression rule content method)) := by
  have hmade := made_add g (some p) (.predicate (expression rule content method))
  have hkept := kept_add g (some p) (.predicate (expression rule content method))
  refine suits_of_fits h.inRule.nearest.le_size rfl nofun ⟨?_, q.id, ?_⟩
  · exact hmade.inRule (h.inRule.keep hkept) nofun
  · exact hmade.nearest ((h.nearest q rfl).keep hkept) nofun

theorem suits_source {kind : Kind} {g : Graph} (hkind : kind.type.IsSource)
    (hp : g.typeOf? p = some .pattern) : Suits g (some p) kind := by
  have hle : p ≤ g.size := by
    obtain ⟨c, hc, -⟩ := Option.map_eq_some_iff.mp hp
    exact le_size_of_get? hc
  have hpattern := (kept_add g (some p) kind).typeOf? hp
  cases kind with
  | accumulate input code => exact suits_of_fits hle rfl nofun ⟨p, rfl, hpattern⟩
  | collect input method => exact suits_of_fits hle rfl nofun ⟨p, rfl, hpattern⟩
  | supply dataSource => exact suits_of_fits hle rfl nofun ⟨p, rfl, hpattern⟩
  | _ => simp [ComponentType.IsSource, Kind.type] at hkind

theorem suits_pattern {rule : RuleSite} {k : Graph.Pattern} {g : Graph}
    (h : g.InRule p rule.id rule.name) (hrule : k.rule = rule.id) (hname : k.ruleName = rule.name)
    (hclass : g.ofKind? Kind.className? k.factClass = some k.name) :
    Suits g (some p) (.pattern k) := by
  have hmade := made_add g (some p) (.pattern k)
  have hkept := kept_add g (some p) (.pattern k)
  refine suits_of_fits h.nearest.le_size rfl nofun ⟨?_, hkept.className? hclass⟩
  rw [hrule, hname]
  exact hmade.inRule (h.keep hkept) nofun

/-- In a new component that is neither a rule nor a pattern, elements are woven in as before. -/
theorem Weaves.below {α : Type} {rule : RuleSite} {pattern? : Option PatternSite}
    {p id : ComponentId} {kind : Kind} {x : Walk α}
    (h : Weaves (rule.StandsAt pattern? id) (some id) x) (hrule : kind.type ≠ .rule)
    (hpattern : kind.type ≠ .pattern) :
    Weaves (fun g => rule.StandsAt pattern? p g ∧ Made id (some p) kind g) (some id) x :=
  h.of_imp fun _ hboth => hboth.1.below hboth.2 hrule hpattern

/-! ## Patterns -/

/-- A walk weaves in a pattern. -/
def WeavesPattern (rule : RuleSite) (pattern? : Option PatternSite) (p : ComponentId)
    (x : Walk ComponentId) : Prop :=
  ∀ s id s', s.graph.Arranged → rule.Knows pattern? p s.graph → x s = .ok id s' →
    Woven (some p) s.graph s'.graph ∧ Adds p s.graph s'.graph ⟨id, .pattern⟩

/-- A walk weaves in the source of a pattern. -/
def WeavesSource (rule : RuleSite) (pattern? : Option PatternSite) (p : ComponentId)
    (ts : List Outline) (x : Walk (Option Reference)) : Prop :=
  ∀ s reference s', s.graph.Arranged → rule.Knows pattern? p s.graph →
    s.graph.typeOf? p = some .pattern → x s = .ok reference s' →
      Sourced p ts s.graph s'.graph reference

/-- The steps on a new pattern: its variable, its source and its constraints. -/
inductive PatternSteps (limits : Limits) (site : Site) (p : ComponentId) (k : Graph.Pattern)
    (source : Option Ast.Source) (constraints : List Ast.Element) (s s' : State) : Prop where
  | mk {s₁ s₂ s₃ s₄ : State} {reference : Option Reference} {closed : Closed}
      (bound : bindPattern site.rule s.graph.nextId k.factClass k.name k.identifier
        { s with graph := s.graph.add (some p) (.pattern k) } = .ok () s₁)
      (drawn : lowerSource? limits site s.graph.nextId source s₁ = .ok reference s₂)
      (attached : attach s.graph.nextId withSource reference s₂ = .ok () s₃)
      (inside : within limits site.rule (.pattern s.graph.nextId)
        (lowerElements limits { site with
          pattern? := some ⟨s.graph.nextId, k.factClass, k.name, k.isNot⟩, constraint? := none }
          s.graph.nextId constraints) s₃ = .ok closed s₄)
      (handed : handOver site.rule closed s₄ = .ok () s')

/-- What a pattern does is to add its component and to take these steps. -/
theorem patternSteps_of_ok {site : Site} {objectType : String} {identifier : Option String}
    {source : Option Ast.Source} {constraints : List Ast.Element} {line : Nat} {id : ComponentId}
    (hrun : lowerPattern limits site p (.mk objectType identifier source constraints line) s =
      .ok id s') :
    ∃ depth factClass k s₁, classFor objectType s = .ok factClass s₁ ∧ id = s₁.graph.nextId ∧
      k.rule = site.rule.id ∧ k.ruleName = site.rule.name ∧ k.factClass = factClass ∧
        k.name = objectType ∧ k.identifier = identifier ∧ k.source = none ∧
          PatternSteps limits { site with depth } p k source constraints s₁ s' := by
  rw [lowerPattern] at hrun
  obtain ⟨site', t₁, hdescend, hrun₁⟩ := bind_eq_ok hrun
  obtain ⟨⟨depth, rfl⟩, rfl⟩ := descend_eq_ok hdescend
  obtain ⟨factClass, t₂, hclass, hrun₂⟩ := bind_eq_ok hrun₁
  obtain ⟨isNot, t₃, hnot, hrun₃⟩ := bind_eq_ok hrun₂
  obtain ⟨-, rfl⟩ := underQuantifier_eq_ok hnot
  obtain ⟨isExists, t₄, hexists, hrun₄⟩ := bind_eq_ok hrun₃
  obtain ⟨-, rfl⟩ := underQuantifier_eq_ok hexists
  obtain ⟨isForall, t₅, hforall, hrun₅⟩ := bind_eq_ok hrun₄
  obtain ⟨-, rfl⟩ := underQuantifier_eq_ok hforall
  obtain ⟨q, t₆, hadd, hrun₆⟩ := bind_eq_ok hrun₅
  obtain ⟨rfl, rfl⟩ := add_eq_ok hadd
  obtain ⟨u, t₇, hbind, hrun₇⟩ := bind_eq_ok hrun₆
  obtain ⟨reference, t₈, hdraw, hrun₈⟩ := bind_eq_ok hrun₇
  obtain ⟨u', t₉, hattach, hrun₉⟩ := bind_eq_ok hrun₈
  obtain ⟨closed, t₁₀, hwithin, hrun₁₀⟩ := bind_eq_ok hrun₉
  obtain ⟨u'', t₁₁, hhand, hdone⟩ := bind_eq_ok hrun₁₀
  cases hdone
  let k : Graph.Pattern :=
    { rule := site.rule.id, ruleName := site.rule.name, factClass, name := objectType, identifier
      isNot, isExists, isForall, source := none }
  exact ⟨depth, factClass, k, t₅, hclass, rfl, rfl, rfl, rfl, rfl, rfl, rfl,
    .mk hbind hdraw hattach hwithin hhand⟩

theorem surrounds_bindPattern {rule : RuleSite} {q : PatternSite} {identifier : Option String}
    (harranged : s.graph.Arranged) (hstands : rule.StandsAt (some q) q.id s.graph)
    (hrun : bindPattern rule q.id q.factClass q.className identifier s = .ok () s') :
    Surrounds q.id s.graph s'.graph := by
  have hready := hstands.ready harranged hstands.isInner
  have hdraws := draws_bindPattern rule q.factClass q.className identifier _ _ _ hready hrun
  refine .of_grows (weaves_bindPattern identifier _ _ _ harranged hstands hrun) hdraws ?_
  simp [Outline.label, Label.IsSource]

/-- The constraints of a pattern surround its source, and so does what is handed over in the end. -/
theorem surrounds_inside {rule : RuleSite} {q : PatternSite} {depth : Nat}
    {constraints : List Ast.Element} {closed : Closed} {s₁ : State}
    (hweaves : Weaves (rule.StandsAt (some q) q.id) (some q.id)
      (lowerElements limits { rule, pattern? := some q, depth } q.id constraints))
    (harranged : s.graph.Arranged) (hstands : rule.StandsAt (some q) q.id s.graph)
    (hwithin : within limits rule (.pattern q.id)
      (lowerElements limits { rule, pattern? := some q, depth } q.id constraints) s =
        .ok closed s₁)
    (hhand : handOver rule closed s₁ = .ok () s') : Surrounds q.id s.graph s'.graph := by
  have hwoven := weaves_within hweaves _ _ _ harranged hstands hwithin
  have hdraws := draws_within (draws_lowerElements limits _ q.id _ (sharesIn_classesOf _)
    constraints) _ _ _ (hstands.ready harranged hstands.isInner) hwithin
  have harranged₁ := hwoven.moves.arranged harranged
  have hstands₁ := lasting_standsAt _ _ _ _ _ hwoven.moves.kept hstands
  have hinside : Surrounds q.id s.graph s₁.graph :=
    .of_grows hwoven hdraws (not_isSource_flatten _ constraints)
  have hwoven' : Woven (some q.id) s₁.graph s'.graph :=
    weaves_handOver (F := fun _ => True) rule closed _ _ _ harranged₁ trivial hhand
  have hdraws' := draws_handOver rule closed _ _ _
    (hstands₁.ready harranged₁ hstands₁.isInner) hhand
  exact hinside.trans (.of_grows hwoven' hdraws' (List.forall_mem_nil _))

/-- **A new pattern is woven in by these steps**, if its source and its constraints are. -/
theorem PatternSteps.woven {site : Site} {k : Graph.Pattern} {source : Option Ast.Source}
    {constraints : List Ast.Element}
    (hsource : ∀ q, WeavesSource site.rule site.pattern? q
      (match source with
        | none => []
        | some source => source.outlines site.rule.name)
      (lowerSource? limits site q source))
    (hinside : ∀ (inner : Site) q, Weaves (inner.rule.StandsAt inner.pattern? q) (some q)
      (lowerElements limits inner q constraints))
    (hsteps : PatternSteps limits site p k source constraints s s') (harranged : s.graph.Arranged)
    (hknows : site.rule.Knows site.pattern? p s.graph)
    (hsuits : Suits s.graph (some p) (.pattern k))
    (hname : s.graph.ofKind? Kind.className? k.factClass = some k.name) (hnone : k.source = none) :
    Woven (some p) s.graph s'.graph ∧ Adds p s.graph s'.graph ⟨s.graph.nextId, .pattern⟩ := by
  obtain @⟨s₁, s₂, s₃, s₄, reference, closed, hbind, hdraw, hattach, hwithin, hhand⟩ := hsteps
  let q : PatternSite := ⟨s.graph.nextId, k.factClass, k.name, k.isNot⟩
  have harranged₀ := harranged.add (.pattern k) hsuits.parent_le
  have hstands₀ : site.rule.StandsAt (some q) q.id (s.graph.add (some p) (.pattern k)) :=
    standsAt_pattern hknows hname
  -- the variable
  have hbound := surrounds_bindPattern (q := q) harranged₀ hstands₀ hbind
  have harranged₁ := hbound.woven.moves.arranged harranged₀
  have hstands₁ := lasting_standsAt _ _ _ _ _ hbound.woven.moves.kept hstands₀
  -- the source
  have hkept₁ := (kept_add s.graph (some p) (.pattern k)).trans hbound.woven.moves.kept
  have hknows₁ : site.rule.Knows site.pattern? q.id s₁.graph :=
    ⟨hstands₁.inRule, (lasting_knows _ _ _ _ _ hkept₁ hknows).known⟩
  have hpattern := (hstands₁.nearest q rfl).typeOf?_eq
  have hsourced := hsource q.id _ _ _ harranged₁ hknows₁ hpattern hdraw
  have hdrawn := draws_lowerSource? limits site _ _ (sharesIn_classesOf site) source _ _ _
    (hknows₁.ready harranged₁ hstands₁.isInner) hdraw
  have hbefore := hbound.woven.trans hsourced.woven
  have hnew := hbefore.same _ _ (get?_add_nextId s.graph (some p) (.pattern k)) rfl
  obtain ⟨hfills, hfilled⟩ := fills_attach Change.withSource hnew
    (by rw [newComponent, withSource, ← hnone]) hattach
  -- the constraints
  have hkept₃ := hsourced.woven.moves.kept.trans hfills.moves.kept
  let inner : Site := { site with pattern? := some q, constraint? := none }
  have hafter := surrounds_inside (hinside inner q.id)
    (hfills.moves.arranged (hbefore.moves.arranged harranged₀))
    (lasting_standsAt _ _ _ _ _ hkept₃ hstands₁) hwithin hhand
  have hend := hafter.woven.same _ _ hfilled rfl
  refine ⟨?_, (adds_add s.graph p (.pattern k)).keep
    (hbefore.moves.trans (hfills.moves.trans hafter.woven.moves)).kept⟩
  refine .node harranged hsuits (fun id hid hne => absurd hid.symm hne) hbefore hfills
    hafter.woven fun c hc => ?_
  obtain rfl := Option.some.inj (hend.symm.trans hc)
  exact finished_of_parts (k := { k with source := reference })
    (childIds_add_nextId harranged hknows.inRule.nearest.le_size) hbound harranged₁.toSound
    hsourced hdrawn hfills hafter

theorem weavesPattern_of_parts {site : Site} {objectType : String} {identifier : Option String}
    {source : Option Ast.Source} {constraints : List Ast.Element} {line : Nat}
    (hsource : ∀ depth q, WeavesSource site.rule site.pattern? q
      (match source with
        | none => []
        | some source => source.outlines site.rule.name)
      (lowerSource? limits { site with depth } q source))
    (hinside : ∀ (inner : Site) q, Weaves (inner.rule.StandsAt inner.pattern? q) (some q)
      (lowerElements limits inner q constraints)) :
    WeavesPattern site.rule site.pattern? p
      (lowerPattern limits site p (.mk objectType identifier source constraints line)) := by
  intro s id s' harranged₀ hknows₀ hrun
  obtain ⟨depth, factClass, k, t, hclass, rfl, hrule, hruleName, rfl, rfl, rfl, hnone, hsteps⟩ :=
    patternSteps_of_ok hrun
  obtain ⟨hfound, hname⟩ : Woven (some p) _ _ ∧ _ := woven_classFor harranged₀ hclass
  have harranged := hfound.moves.arranged harranged₀
  have hknows := lasting_knows _ _ _ _ _ hfound.moves.kept hknows₀
  have hsuits := suits_pattern hknows.inRule hrule hruleName hname
  obtain ⟨hwoven, hadds⟩ :=
    hsteps.woven (hsource depth) hinside harranged hknows hsuits hname hnone
  exact ⟨hfound.trans hwoven, Nat.lt_of_le_of_lt hfound.moves.kept.size_le hadds.size_lt,
    hadds.parentOf?_eq, hadds.leads⟩

/-! ## Sources -/

theorem isPlain_of_isSource {type : ComponentType} (h : type.IsSource) : type.isPlain = false := by
  obtain rfl | rfl | rfl := h <;> rfl

theorem weavesSource_none {rule : RuleSite} {pattern? : Option PatternSite} :
    WeavesSource rule pattern? p [] (pure none) := by
  intro s reference s' _ _ _ hrun
  cases hrun
  exact ⟨.refl _, Nat.zero_le 1, fun _ => rfl, nofun⟩

theorem weavesSource_descend_bind {site : Site} {ts : List Outline}
    {k : Site → Walk (Option Reference)}
    (hk : ∀ depth, WeavesSource site.rule site.pattern? p ts (k { site with depth })) :
    WeavesSource site.rule site.pattern? p ts (descend limits site >>= k) := by
  intro s reference s' harranged hknows hp hrun
  obtain ⟨site', s₁, hdescend, hrest⟩ := bind_eq_ok hrun
  obtain ⟨⟨depth, rfl⟩, rfl⟩ := descend_eq_ok hdescend
  exact hk depth _ reference s' harranged hknows hp hrest

section Source

variable {rule : RuleSite} {pattern? : Option PatternSite} {kind : Kind}

theorem knows_source {g : Graph} (hkind : kind.type.IsSource) (h : rule.Knows pattern? p g) :
    rule.Knows pattern? g.nextId (g.add (some p) kind) ∧
      (g.add (some p) kind).IsInner g.nextId := by
  have hmade := made_add g (some p) kind
  have hknows := lasting_knows _ _ _ _ _ (kept_add g (some p) kind) h
  have hne : ∀ type : ComponentType, ¬type.IsSource → kind.type ≠ type := by
    rintro _ hnot rfl
    exact hnot hkind
  refine ⟨⟨hmade.inRule hknows.inRule (hne _ ?_), hknows.known⟩,
    isInner_of_typeOf? hmade.typeOf? (hne _ ?_) (hne _ ?_) (hne _ ?_)⟩
  all_goals simp [ComponentType.IsSource]

/-- **A source is woven in** if it is filled in with what has come about below it. -/
theorem sourced_of_filled {g g₁ g₂ : Graph} {ts : List Outline} (hkind : kind.type.IsSource)
    (harranged : g.Arranged) (hp : g.typeOf? p = some .pattern) (hts : ts.length = 1)
    (hwoven : Woven (some g.nextId) (g.add (some p) kind) g₁) (hfills : Fills g.nextId g₁ g₂)
    (hdone : g₂.FinishedAt g.nextId) : Sourced p ts g g₂ (some ⟨g.nextId, kind.type⟩) where
  woven := .node harranged (suits_source hkind hp) (fun id hid hne => absurd hid.symm hne) hwoven
    hfills (.refl _) hdone
  length_le := Nat.le_of_eq hts
  eq_nil := nofun
  adds := by
    rintro _ ⟨⟩
    exact ⟨(adds_add g p kind).keep (hwoven.moves.trans hfills.moves).kept, hkind⟩

theorem weavesSource_of_input {t : Outline} {ts : List Outline} {x : ComponentId → Walk ComponentId}
    (hkind : kind.type.IsSource)
    (hfinished : ∀ (g : Graph) id input, g.childIds (some id) = [input] →
      g.typeOf? input = some .pattern → (withInput input kind).Finished g id)
    (hweaves : ∀ id, WeavesPattern rule pattern? id (x id))
    (hdraws : ∀ id, Draws id (classesOf pattern?) (x id) [t]) (hts : ts.length = 1) :
    WeavesSource rule pattern? p ts (do
      let id ← add (some p) kind
      modify id (withInput (← x id))
      return some ⟨id, kind.type⟩) := by
  intro s reference s' harranged hknows hp hrun
  obtain ⟨id, s₁, hadd, hrun₁⟩ := bind_eq_ok hrun
  obtain ⟨rfl, rfl⟩ := add_eq_ok hadd
  obtain ⟨input, s₂, hpattern, hrun₂⟩ := bind_eq_ok hrun₁
  obtain ⟨u, s₃, hmodify, hdone⟩ := bind_eq_ok hrun₂
  cases hmodify
  cases hdone
  have hle : p ≤ s.graph.size := hknows.inRule.nearest.le_size
  have harranged₁ := harranged.add kind (suits_source hkind hp).parent_le
  obtain ⟨hknows₁, hinner₁⟩ := knows_source hkind hknows
  obtain ⟨hwoven, hadds⟩ := hweaves _ _ _ _ harranged₁ hknows₁ hpattern
  have hgrows := hdraws _ _ _ _ (hknows₁.ready harranged₁ hinner₁) hpattern
  have hreference : ∀ r, some ⟨input, .pattern⟩ = some r →
      Adds s.graph.nextId (s.graph.add (some p) kind) s₂.graph r := by
    rintro _ ⟨⟩
    exact hadds
  have hchildren := childIds_of_adds hgrows harranged₁.toSound (Nat.le_refl 1)
    (by rintro ⟨⟩) hreference
  rw [childIds_add_nextId harranged hle] at hchildren
  have hchange := Change.withInput input
  have hnew := hwoven.same _ _ (get?_add_nextId s.graph (some p) kind) (isPlain_of_isSource hkind)
  refine sourced_of_filled hkind harranged hp hts hwoven (.inr ⟨_, hchange, rfl⟩) fun c hc => ?_
  rw [get?_modify_of_some hnew, if_pos rfl] at hc
  obtain rfl := Option.some.inj hc
  refine hfinished _ _ input ?_ ((kept_modify _ _ hchange.essence_eq).typeOf? hadds.leads)
  rw [childIds_modify]
  exact hchildren

theorem weavesSource_of_invoker (site : Site) {dataSource : Ast.Invoker} {ts : List Outline}
    (hts : ts.length = 1) :
    WeavesSource site.rule pattern? p ts (do
      let id ← add (some p) (.supply none)
      attach id withDataSource (← lowerInvoker limits site id dataSource)
      return some ⟨id, .supply⟩) := by
  have hkind : (Kind.supply none).type.IsSource := .inr (.inr rfl)
  intro s reference s' harranged hknows hp hrun
  obtain ⟨id, s₁, hadd, hrun₁⟩ := bind_eq_ok hrun
  obtain ⟨rfl, rfl⟩ := add_eq_ok hadd
  obtain ⟨invoker, s₂, hinvoker, hrun₂⟩ := bind_eq_ok hrun₁
  obtain ⟨u, s₃, hattach, hdone⟩ := bind_eq_ok hrun₂
  cases hdone
  have hle : p ≤ s.graph.size := hknows.inRule.nearest.le_size
  have harranged₁ := harranged.add (.supply none) (suits_source hkind hp).parent_le
  obtain ⟨hknows₁, hinner₁⟩ := knows_source hkind hknows
  have hinRule := hknows₁.inRule.nearest
  have hwoven := weaves_lowerInvoker limits site _ dataSource _ _ _ harranged₁ ⟨_, hinRule⟩ hinvoker
  obtain ⟨hnone, hsome⟩ := adds_lowerInvoker harranged₁ ⟨_, hinRule⟩ hinvoker
  have hgrows := draws_lowerInvoker limits site _ dataSource _ _ _
    (hknows₁.ready harranged₁ hinner₁) hinvoker
  have hchildren := childIds_of_adds hgrows harranged₁.toSound (length_outlines_invoker dataSource)
    hnone hsome
  rw [childIds_add_nextId harranged hle] at hchildren
  have hnew := hwoven.same _ _ (get?_add_nextId s.graph (some p) (.supply none)) rfl
  obtain ⟨hfills, hfilled⟩ := fills_attach Change.withDataSource hnew rfl hattach
  refine sourced_of_filled hkind harranged hp hts hwoven hfills fun c hc => ?_
  obtain rfl := Option.some.inj (hfilled.symm.trans hc)
  refine ⟨?_, fun r hr => hfills.moves.kept.typeOf? (hsome r hr).leads⟩
  rw [hfills.childIds_eq, hchildren]
  rfl

end Source

mutual
/-- **Elements are woven in** below the component that they stand in. -/
theorem weaves_lowerElement (limits : Limits) (site : Site) (p : ComponentId) (e : Ast.Element) :
    Weaves (site.rule.StandsAt site.pattern? p) (some p) (lowerElement limits site p e) := by
  have hlasting := lasting_standsAt site.rule site.pattern? p
  cases e with
  | pattern pattern =>
    rw [lowerElement]
    refine weaves_bind hlasting ?_ fun _ => weaves_pure ()
    intro s id s' harranged h hrun
    exact (weaves_lowerPattern limits site p pattern s id s' harranged h.toKnows hrun).1
  | group connective elements =>
    rw [lowerElement]
    refine weaves_descend_bind fun depth => weaves_node_bind rfl hlasting (fun g _ h => ⟨?_, h⟩) ?_
    · exact suits_in_rule h.inRule.nearest rfl nofun nofun fun _ _ _ hrule => hrule
    · intro id
      have hinside := weaves_lowerElements limits { site with depth } id elements
      exact weaves_bind (hlasting.and (lasting_made _ _ _))
        (weaves_within (hinside.below nofun nofun)) fun _ => weaves_pure ()
  | quantified q elements =>
    rw [lowerElement]
    refine weaves_descend_bind fun depth => ?_
    have hinside := weaves_lowerElements limits { site with depth } p elements
    exact weaves_bind hlasting (weaves_within hinside) fun _ => weaves_pure ()
  | eval content method =>
    rw [lowerElement]
    refine weaves_node_bind rfl hlasting (fun g _ h => ⟨suits_eval h.inRule, h⟩) fun _ => ?_
    exact weaves_pure ()
  | predicate content method =>
    rw [lowerElement]
    refine weaves_orFail_bind fun q hq => ?_
    refine weaves_node_bind rfl hlasting (fun g _ h => ⟨?_, h⟩) fun _ => weaves_pure ()
    exact suits_predicate (hq ▸ h)
  | constraint fieldName restrictions line =>
    rw [lowerElement]
    exact weaves_lowerConstraint limits site p fieldName restrictions line
  | binding identifier fieldName line =>
    rw [lowerElement]
    exact weaves_lowerBinding site p identifier fieldName line
  | unknown =>
    rw [lowerElement]
    exact weaves_pure ()

theorem weaves_lowerElements (limits : Limits) (site : Site) (p : ComponentId)
    (es : List Ast.Element) :
    Weaves (site.rule.StandsAt site.pattern? p) (some p) (lowerElements limits site p es) := by
  cases es with
  | nil =>
    rw [lowerElements]
    exact weaves_pure ()
  | cons e rest =>
    rw [lowerElements]
    exact weaves_bind (lasting_standsAt site.rule site.pattern? p)
      (weaves_lowerElement limits site p e) fun _ => weaves_lowerElements limits site p rest

theorem weaves_lowerPattern (limits : Limits) (site : Site) (p : ComponentId)
    (pattern : Ast.Pattern) :
    WeavesPattern site.rule site.pattern? p (lowerPattern limits site p pattern) := by
  cases pattern with
  | mk objectType identifier source constraints line =>
    exact weavesPattern_of_parts
      (fun depth q => weaves_lowerSource? limits { site with depth } q source)
      fun inner q => weaves_lowerElements limits inner q constraints

theorem weaves_lowerSource? (limits : Limits) (site : Site) (p : ComponentId)
    (source : Option Ast.Source) :
    WeavesSource site.rule site.pattern? p
      (match source with
        | none => []
        | some source => source.outlines site.rule.name)
      (lowerSource? limits site p source) := by
  cases source with
  | none =>
    rw [lowerSource?]
    exact weavesSource_none
  | some source =>
    rw [lowerSource?]
    exact weaves_lowerSource limits site p source

theorem weaves_lowerSource (limits : Limits) (site : Site) (p : ComponentId)
    (source : Ast.Source) :
    WeavesSource site.rule site.pattern? p (source.outlines site.rule.name)
      (lowerSource limits site p source) := by
  cases source with
  | accumulate input code =>
    rw [lowerSource]
    refine weavesSource_descend_bind fun depth => ?_
    have hsource : (Kind.accumulate none code).type.IsSource := .inl rfl
    exact weavesSource_of_input hsource
      (fun g id input hchildren htype => ⟨input, rfl, hchildren, htype⟩)
      (fun id => weaves_lowerPattern limits { site with depth } id input)
      (fun id => draws_lowerPattern limits { site with depth } id _ (sharesIn_classesOf site) input)
      (by rw [Ast.Source.outlines]; rfl)
  | collect input method =>
    rw [lowerSource]
    refine weavesSource_descend_bind fun depth => ?_
    have hsource : (Kind.collect none method).type.IsSource := .inr (.inl rfl)
    exact weavesSource_of_input hsource
      (fun g id input hchildren htype => ⟨input, rfl, hchildren, htype⟩)
      (fun id => weaves_lowerPattern limits { site with depth } id input)
      (fun id => draws_lowerPattern limits { site with depth } id _ (sharesIn_classesOf site) input)
      (by rw [Ast.Source.outlines]; rfl)
  | supplied dataSource =>
    rw [lowerSource]
    refine weavesSource_descend_bind fun depth => ?_
    exact weavesSource_of_invoker { site with depth } (by rw [Ast.Source.outlines]; rfl)
  | unknown =>
    rw [lowerSource, Ast.Source.outlines]
    refine weavesSource_descend_bind fun _ => ?_
    exact weavesSource_none
end

/-! ## Rules -/

theorem weaves_keepPossibilities {F : Graph → Prop} {p? : Option ComponentId} (closed : Closed) :
    Weaves F p? (keepPossibilities closed) := by
  cases closed with
  | rule id possibilities => exact weaves_keepRulePossibilities id possibilities
  | _ => exact weaves_pure ()

theorem standsAt_rule {g : Graph} {package : ComponentId} {k : Graph.Rule} {line : Nat} :
    RuleSite.StandsAt ⟨g.nextId, k.name, line⟩ none g.nextId
      (g.add (some package) (.rule k)) where
  inRule := by
    refine ⟨.here (made_add g (some package) (.rule k)).typeOf?, ?_⟩
    rw [ofKind?, get?_add_nextId]
    rfl
  known := nofun
  nearest := nofun

theorem suits_consequence {g : Graph} {rule : RuleSite} {text : String}
    (h : g.InRule rule.id rule.id rule.name) :
    Suits g (some rule.id) (.consequence { rule := rule.id, ruleName := rule.name, text }) :=
  suits_of_fits h.nearest.le_size rfl nofun
    ⟨rfl, (made_add g (some rule.id) _).inRule (h.keep (kept_add _ _ _)) nofun⟩

/-- A rule is finished once its consequence has come about as its last child. -/
theorem finished_rule {g : Graph} {id : ComponentId} {k : Graph.Rule} {q : Graph.Consequence}
    (hrule : q.rule = id) :
    (Kind.rule { k with consequence := some g.nextId }).Finished
      ((g.add (some id) (.consequence q)).modify id (withConsequence g.nextId)) id := by
  have hkept := kept_modify (g.add (some id) (.consequence q)) id
    (Change.withConsequence g.nextId).essence_eq
  have hmade := (made_add g (some id) (.consequence q)).keep hkept
  refine ⟨g.nextId, q, rfl, ?_, hmade.ofKind? fun k => by cases k <;> rfl, hrule⟩
  rw [childIds_modify, childIds_add, if_pos rfl, List.getLast?_append]
  rfl

/-- **A rule is woven in** with its condition and, as its last child, its consequence. -/
theorem woven_lowerRule {package : ComponentId} {r : Ast.Rule} (harranged : s.graph.Arranged)
    (hpackage : s.graph.typeOf? package = some .package)
    (hrun : lowerRule limits package r s = .ok () s') : Woven none s.graph s'.graph := by
  obtain ⟨id, s₁, hadd, hrun₁⟩ := bind_eq_ok hrun
  obtain ⟨rfl, rfl⟩ := add_eq_ok hadd
  obtain ⟨closed, s₂, hcondition, hrun₂⟩ := bind_eq_ok hrun₁
  obtain ⟨u, s₃, hkeep, hrun₃⟩ := bind_eq_ok hrun₂
  obtain ⟨consequence, s₄, hadd', hmodify⟩ := bind_eq_ok hrun₃
  obtain ⟨rfl, rfl⟩ := add_eq_ok hadd'
  cases hmodify
  obtain ⟨c, hc, htype⟩ := Option.map_eq_some_iff.mp hpackage
  let k : Graph.Rule :=
    { name := r.name, salience := r.salience, line := r.line, package, consequence := none }
  let rule : RuleSite := ⟨s.graph.nextId, r.name, r.line⟩
  have hsuits : Suits s.graph (some package) (.rule k) :=
    suits_of_fits (le_size_of_get? hc) rfl nofun ⟨rfl, (kept_add _ _ _).typeOf? hpackage⟩
  have harranged₁ := harranged.add (.rule k) hsuits.parent_le
  -- the condition
  have hstands₁ : rule.StandsAt none rule.id (s.graph.add (some package) (.rule k)) :=
    standsAt_rule (k := k)
  have hwoven₁ := weaves_within (weaves_lowerElements limits { rule } rule.id r.lhs) _ _ _
    harranged₁ hstands₁ hcondition
  have harranged₂ := hwoven₁.moves.arranged harranged₁
  have hwoven₂ := hwoven₁.trans (weaves_keepPossibilities (F := fun _ => True) closed _ _ _
    harranged₂ trivial hkeep)
  have harranged₃ := hwoven₂.moves.arranged harranged₁
  -- the consequence
  let q : Graph.Consequence :=
    { rule := rule.id, ruleName := rule.name, text := Consequence.normalize r.consequence }
  have hsuits₃ : Suits s₃.graph (some rule.id) (.consequence q) :=
    suits_consequence (hstands₁.inRule.keep hwoven₂.moves.kept)
  have hwoven₃ := hwoven₂.trans (.plain_node harranged₃ hsuits₃ rfl
    (fun id hid hne => absurd hid.symm hne) (.refl _))
  have hchange := Change.withConsequence s₃.graph.nextId
  have hnew := hwoven₃.same _ _ (get?_add_nextId s.graph (some package) (.rule k)) rfl
  refine .node harranged hsuits ?_ hwoven₃ (.inr ⟨_, hchange, rfl⟩) (.refl _) fun c' hc' => ?_
  · rintro id ⟨⟩ -
    exact ⟨c, hc, by rw [htype]; rfl⟩
  · rw [get?_modify_of_some hnew, if_pos rfl] at hc'
    obtain rfl := Option.some.inj hc'
    exact finished_rule rfl

theorem woven_lowerRules {package : ComponentId} {rs : List Ast.Rule}
    (harranged : s.graph.Arranged) (hpackage : s.graph.typeOf? package = some .package)
    (hrun : lowerRules limits package rs s = .ok () s') : Woven none s.graph s'.graph := by
  refine lowerRules_induction (I := fun _ s' => Woven none s.graph s'.graph) hrun (.refl _) ?_
  intro before r s₁ s₂ hbefore hrule
  have hpackage₁ := hbefore.moves.kept.typeOf? hpackage
  exact hbefore.trans (woven_lowerRule (hbefore.moves.arranged harranged) hpackage₁ hrule)

theorem woven_load {ast : Ast.Package} {g g' : Graph} {id : ComponentId} (harranged : g.Arranged)
    (hrun : load limits ast g = .ok id g') : Woven none g g' := by
  obtain ⟨s, s', hfind, hrules, rfl⟩ := load_eq_ok hrun
  obtain ⟨hwoven, hpackage⟩ := woven_packageFor harranged hfind
  have htype : s.graph.typeOf? id = some .package := by
    obtain ⟨c, hc, hkind⟩ := Option.bind_eq_some_iff.mp hpackage
    obtain ⟨cid, parent, place, kind⟩ := c
    cases kind <;> cases hkind
    exact congrArg _ hc
  exact hwoven.trans (woven_lowerRules (hwoven.moves.arranged harranged) htype hrules)

/-- **Packages that are loaded are woven in**, and nothing is left to be filled in. -/
theorem woven_loadAll {ps : List Ast.Package} {g g' : Graph} {ids : List ComponentId}
    (harranged : g.Arranged) (hrun : loadAll limits ps g = .ok ids g') : Woven none g g' := by
  refine loadAll_induction (I := fun _ g' => Woven none g g') hrun (.refl _) ?_
  intro before p g₁ id g₂ hbefore hload
  exact hbefore.trans (woven_load (hbefore.moves.arranged harranged) hload)

end RuleBase.Analysis

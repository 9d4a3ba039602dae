import RuleBase.Proofs.Analysis.Plain
import RuleBase.Proofs.Analysis.Verdict
import RuleBase.Proofs.Condition.Open
import RuleBase.Proofs.Graph.Sound

/-!
# Walks and judgements

A walk mirrors a judgement if it succeeds exactly when the judgement does, and otherwise fails with
the same fault. What links a state of a walk to the findings of a judgement are the variables of the
rule that the graph knows, and the sizes of the children that the innermost group has got.

* **`mirrors_bind`**, `mirrors_descend_bind`, `mirrors_varFor`, …: parts of walks;
* **`mirrors_within_group`**, `mirrors_within_quantifier`, `mirrors_within_pattern`: scopes.
-/

namespace RuleBase.Analysis

open RuleBase.Graph Condition

variable {α β : Type} {rule : RuleSite} {level : Level} {limits : Limits}

/-! ## States and findings -/

/-- A walk at a level knows the variables that have been declared. -/
structure Reflects (rule : RuleSite) (level : Level) (s : State) (f : Findings) : Prop where
  isSome_iff : ∀ name, (s.graph.findVar? rule.id name).isSome ↔ name ∈ f.declared
  openAt : OpenAt level s.scopes

/-- A walk has gone on, and the innermost group has got children of the new sizes. -/
structure Advanced (rule : RuleSite) (level : Level) (s s' : State) (f f' : Findings) : Prop where
  isSome_iff : ∀ name, (s'.graph.findVar? rule.id name).isSome ↔ name ∈ f'.declared
  pushed : ∃ children, pushAll (pushTo? level) children s.scopes = some s'.scopes ∧
    f'.sizes = f.sizes ++ children.map List.length

/-- A walk does what a judgement tells. -/
structure Mirrors (rule : RuleSite) (level : Level) (x : Walk α) (judge : Judging) : Prop where
  ok : ∀ {s f f'}, Reflects rule level s f → judge f = .ok f' →
    ∃ a s', x s = .ok a s' ∧ Advanced rule level s s' f f'
  error : ∀ {s f fault}, Reflects rule level s f → judge f = .error fault →
    ∃ s', x s = .error (rule.error fault) s'

/-- A walk that only adds to the graph, and no variables of the rule. -/
def Calm (rule : RuleSite) (x : Walk α) : Prop :=
  ∀ s, ∃ a s', x s = .ok a s' ∧ s'.scopes = s.scopes ∧
    ∀ name, s'.graph.findVar? rule.id name = s.graph.findVar? rule.id name

theorem Advanced.reflects {s s' : State} {f f' : Findings} (h : Advanced rule level s s' f f')
    (hs : Reflects rule level s f) : Reflects rule level s' f' := by
  obtain ⟨children, hpush, -⟩ := h.pushed
  exact ⟨h.isSome_iff, (hs.openAt.of_pushAll hpush).1⟩

theorem Advanced.trans {s s' s'' : State} {f f' f'' : Findings}
    (h : Advanced rule level s s' f f') (h' : Advanced rule level s' s'' f' f'') :
    Advanced rule level s s'' f f'' := by
  obtain ⟨children, hpush, hsizes⟩ := h.pushed
  obtain ⟨children', hpush', hsizes'⟩ := h'.pushed
  refine ⟨h'.isSome_iff, children ++ children', ?_, ?_⟩
  · rw [pushAll_append, hpush]
    exact hpush'
  · rw [hsizes', hsizes, List.map_append, List.append_assoc]

/-! ## Sequences -/

theorem mirrors_pure (a : α) : Mirrors rule level (pure a) pure where
  ok hs hjudge := by
    cases hjudge
    exact ⟨a, _, rfl, hs.isSome_iff, [], rfl, by simp⟩
  error _ hjudge := by cases hjudge

/-- **One part after another.** -/
theorem mirrors_bind {x : Walk α} {k : α → Walk β} {judge judge' : Judging}
    (hx : Mirrors rule level x judge) (hk : ∀ a, Mirrors rule level (k a) judge') :
    Mirrors rule level (x >>= k) (judge >=> judge') where
  ok {s f f''} hs hjudge := by
    obtain ⟨f', hfirst, hsecond⟩ := andThen_eq_ok.mp hjudge
    obtain ⟨a, s', hrun, hadvanced⟩ := hx.ok hs hfirst
    obtain ⟨b, s'', hrun', hadvanced'⟩ := (hk a).ok (hadvanced.reflects hs) hsecond
    exact ⟨b, s'', (bind_of_ok hrun).trans hrun', hadvanced.trans hadvanced'⟩
  error {s f fault} hs hjudge := by
    rcases andThen_eq_error.mp hjudge with hfirst | ⟨f', hfirst, hsecond⟩
    · obtain ⟨s', hrun⟩ := hx.error hs hfirst
      exact ⟨s', bind_of_error hrun⟩
    · obtain ⟨a, s', hrun, hadvanced⟩ := hx.ok hs hfirst
      obtain ⟨s'', hrun'⟩ := (hk a).error (hadvanced.reflects hs) hsecond
      exact ⟨s'', (bind_of_ok hrun).trans hrun'⟩

theorem mirrors_of_calm {x : Walk α} (h : Calm rule x) : Mirrors rule level x pure where
  ok {s f f'} hs hjudge := by
    cases hjudge
    obtain ⟨a, s', hrun, hscopes, hvars⟩ := h s
    refine ⟨a, s', hrun, fun name => ?_, [], congrArg some hscopes.symm, by simp⟩
    rw [hvars]
    exact hs.isSome_iff name
  error _ hjudge := by cases hjudge

theorem mirrors_calm_bind {x : Walk α} {k : α → Walk β} {judge : Judging} (hx : Calm rule x)
    (hk : ∀ a, Mirrors rule level (k a) judge) : Mirrors rule level (x >>= k) judge :=
  mirrors_bind (mirrors_of_calm hx) hk

theorem mirrors_bind_calm {x : Walk α} {k : α → Walk β} {judge : Judging}
    (hx : Mirrors rule level x judge) (hk : ∀ a, Calm rule (k a)) :
    Mirrors rule level (x >>= k) judge := by
  rw [← andThen_pure judge]
  exact mirrors_bind hx fun a => mirrors_of_calm (hk a)

/-! ## Parts that a judgement does not notice -/

theorem calm_pure (a : α) : Calm rule (pure a) := fun s => ⟨a, s, rfl, rfl, fun _ => rfl⟩

theorem calm_bind {x : Walk α} {k : α → Walk β} (hx : Calm rule x) (hk : ∀ a, Calm rule (k a)) :
    Calm rule (x >>= k) := by
  intro s
  obtain ⟨a, s', hrun, hscopes, hvars⟩ := hx s
  obtain ⟨b, s'', hrun', hscopes', hvars'⟩ := hk a s'
  exact ⟨b, s'', (bind_of_ok hrun).trans hrun', hscopes'.trans hscopes,
    fun name => (hvars' name).trans (hvars name)⟩

theorem calm_look (f : Graph → α) : Calm rule (look f) := fun s => ⟨_, s, rfl, rfl, fun _ => rfl⟩

theorem calm_underQuantifier (q : Quantifier) : Calm rule (underQuantifier q) :=
  fun s => ⟨_, s, rfl, rfl, fun _ => rfl⟩

theorem findVar?_add {g : Graph} {parent : Option ComponentId} {kind : Kind} {r : ComponentId}
    {name : String} (h : kind.key? ≠ some (.var r name)) :
    (g.add parent kind).findVar? r name = g.findVar? r name := by
  cases hkey : kind.key? with
  | none => simp [findVar?, Graph.add, hkey]
  | some key =>
    have hne : Key.var r name ≠ key := fun heq => h (hkey.trans (congrArg some heq.symm))
    simp [findVar?, Graph.add, hkey, Table.find?_alter, hne]

theorem calm_add {parent : Option ComponentId} {kind : Kind}
    (h : ∀ name, kind.key? ≠ some (.var rule.id name)) : Calm rule (add parent kind) :=
  fun _ => ⟨_, _, rfl, rfl, fun name => findVar?_add (h name)⟩

theorem calm_modify (id : ComponentId) (change : Kind → Kind) : Calm rule (modify id change) :=
  fun s => ⟨_, _, rfl, rfl, fun name => findVar?_modify s.graph id change rule.id name⟩

theorem calm_attach (id : ComponentId) (change : Option Reference → Kind → Kind)
    (reference : Option Reference) : Calm rule (attach id change reference) := by
  cases reference with
  | none => exact calm_pure _
  | some reference => exact calm_modify id _

theorem calm_settleType (field : ComponentId) (type : Option FieldType) :
    Calm rule (settleType field type) := by
  cases type with
  | none => exact calm_pure _
  | some t => exact calm_modify field _

theorem calm_classFor (name : String) : Calm rule (classFor name) := by
  refine calm_bind (calm_look _) fun found => ?_
  cases found with
  | none => exact calm_add (by rintro _ ⟨⟩)
  | some id => exact calm_pure id

theorem calm_fieldFor (pattern : PatternSite) (name : String) (line : Nat) :
    Calm rule (fieldFor pattern name line) := by
  refine calm_bind (calm_look _) fun found => ?_
  cases found with
  | none => exact calm_add (by rintro _ ⟨⟩)
  | some id =>
    change Calm rule (if line ≠ 0 then modify id (onField (Field.mention line)) >>= fun _ => pure id
      else pure id)
    split
    · exact calm_bind (calm_modify id _) fun _ => calm_pure id
    · exact calm_pure id

theorem calm_addTyped (parent : ComponentId) {kind : Kind}
    (h : ∀ name, kind.key? ≠ some (.var rule.id name)) : Calm rule (addTyped parent kind) :=
  calm_bind (calm_add h) fun _ => calm_pure _

theorem calm_site_constraint {site : Site} (hpattern : site.pattern?.isSome)
    (hconstraint : site.constraint?.isSome) (node : Inner) : Calm rule (site.constraint node) := by
  obtain ⟨pattern, hpattern⟩ := Option.isSome_iff_exists.mp hpattern
  obtain ⟨constraint, hconstraint⟩ := Option.isSome_iff_exists.mp hconstraint
  rw [Site.constraint, Site.pattern, hpattern, hconstraint]
  exact calm_pure _

/-! ## Parts that a judgement notices -/

theorem demand_congr {p q : Prop} [Decidable p] [Decidable q] (h : p ↔ q) (fault : Fault) :
    demand p fault = demand q fault := by
  funext f
  by_cases hp : p
  · rw [demand, demand, if_pos hp, if_pos (h.mp hp)]
  · rw [demand, demand, if_neg hp, if_neg (mt h.mpr hp)]

theorem mirrors_orFail_bind {fault : Fault} {o : Option α} {k : α → Walk β} {judge : Judging}
    (hk : ∀ a, o = some a → Mirrors rule level (k a) judge) :
    Mirrors rule level (orFail rule fault o >>= k) (demand o.isSome fault >=> judge) := by
  cases o with
  | some a => exact hk a rfl
  | none =>
    refine ⟨fun _ hjudge => ?_, fun {s f fault'} _ hjudge => ?_⟩
    · obtain ⟨f₁, hdemand, -⟩ := andThen_eq_ok.mp hjudge
      exact absurd (demand_eq_ok.mp hdemand).1 (by simp)
    · cases hjudge
      exact ⟨s, rfl⟩

/-- The place one level deeper. -/
abbrev Site.deeper (site : Site) : Site := { site with depth := site.depth + 1 }

/-- A walk is inside a pattern exactly if it is at the level of patterns. -/
def Site.IsAt (site : Site) (level : Level) : Prop := site.pattern?.isSome ↔ level = .pattern

theorem mirrors_site_pattern_bind {site : Site} (hsite : site.IsAt level) {node : Inner}
    {k : PatternSite → Walk β} {judge : Judging}
    (hk : ∀ pattern, site.pattern? = some pattern → Mirrors site.rule level (k pattern) judge) :
    Mirrors site.rule level (site.pattern node >>= k) (insidePattern level node >=> judge) := by
  rw [insidePattern, ← demand_congr hsite]
  exact mirrors_orFail_bind hk

theorem mirrors_descend_bind {site : Site} {k : Site → Walk β} {judge : Judging}
    (hk : Mirrors site.rule level (k site.deeper) judge) :
    Mirrors site.rule level (descend limits site >>= k)
      (descending limits site.depth >=> judge) := by
  by_cases hdepth : site.depth + 1 ≤ limits.maxNestingDepth
  · have hdescend : descend limits site = pure site.deeper := by
      rw [descend, if_neg (Nat.not_lt.mpr hdepth)]
    have hdescending : descending limits site.depth = pure := by
      funext f
      rw [descending, demand, if_pos hdepth]
      rfl
    rw [hdescend, hdescending]
    exact hk
  · have hdescend : descend limits site =
        fail site.rule (.limitExceeded .nestingDepth limits.maxNestingDepth (site.depth + 1)) := by
      rw [descend, if_pos (Nat.lt_of_not_le hdepth)]
    refine ⟨fun _ hjudge => ?_, fun {s f fault} _ hjudge => ?_⟩
    · obtain ⟨f₁, hdeeper, -⟩ := andThen_eq_ok.mp hjudge
      exact absurd (demand_eq_ok.mp hdeeper).1 hdepth
    · rcases andThen_eq_error.mp hjudge with hdeeper | ⟨f₁, hdeeper, -⟩
      · obtain ⟨-, rfl⟩ := demand_eq_error.mp hdeeper
        exact ⟨s, bind_of_error (by rw [hdescend]; rfl)⟩
      · exact absurd (demand_eq_ok.mp hdeeper).1 hdepth

theorem mirrors_varFor (name : String) :
    Mirrors rule level (varFor rule name) (resolving name) where
  ok {s f f'} hs hjudge := by
    have hrun : varFor rule name s =
        orFail rule (.unresolvedVariable name) (s.graph.findVar? rule.id name) s := rfl
    obtain ⟨hmem, rfl⟩ := demand_eq_ok.mp hjudge
    obtain ⟨id, hid⟩ := Option.isSome_iff_exists.mp ((hs.isSome_iff name).mpr hmem)
    rw [hid] at hrun
    exact ⟨id, s, hrun, hs.isSome_iff, [], rfl, by simp⟩
  error {s f fault} hs hjudge := by
    have hrun : varFor rule name s =
        orFail rule (.unresolvedVariable name) (s.graph.findVar? rule.id name) s := rfl
    obtain ⟨hmem, rfl⟩ := demand_eq_error.mp hjudge
    have hnone : s.graph.findVar? rule.id name = none := by
      rw [← Option.not_isSome_iff_eq_none, hs.isSome_iff]
      exact hmem
    rw [hnone] at hrun
    exact ⟨s, hrun⟩

theorem findVar?_add_var (g : Graph) (parent : Option ComponentId) (v : Variable) (name : String) :
    (g.add parent (.var v)).findVar? v.rule name =
      if name = v.name then some g.nextId else g.findVar? v.rule name := by
  have hkey : (Kind.var v).key? = some (.var v.rule v.name) := rfl
  simp [findVar?, Graph.add, hkey, Table.find?_alter, foundWith, Key.isShadowing]

theorem mirrors_addVar (parent : ComponentId) (name : String) (objectType : ComponentType)
    (object : ComponentId) (objectName : String) :
    Mirrors rule level (addVar rule parent name objectType object objectName) (declaring name) where
  ok {s f f'} hs hjudge := by
    cases hjudge
    refine ⟨(), _, rfl, fun other => ?_, [], rfl, by simp⟩
    have hfound := findVar?_add_var s.graph (some parent)
      { rule := rule.id, ruleName := rule.name, name, objectType, objectId := some object
        objectName } other
    simp only at hfound
    rw [hfound, List.mem_append, List.mem_singleton, ← hs.isSome_iff]
    by_cases hother : other = name <;> simp [hother]
  error _ hjudge := by cases hjudge

theorem mirrors_bindPattern (id factClass : ComponentId) (objectType : String)
    (identifier : Option String) :
    Mirrors rule level (bindPattern rule id factClass objectType identifier)
      (judgeIdentifier identifier) := by
  cases identifier with
  | none => exact mirrors_pure ()
  | some name => exact mirrors_addVar id name .factClass factClass objectType

/-! ## Scopes -/

theorem Reflects.inside {s : State} {f : Findings} (hs : Reflects rule level s f) {frame : Frame}
    {level' : Level} (hopen : OpenAt level' (frame :: s.scopes)) (sizes : List Nat) :
    Reflects rule level' { s with scopes := frame :: s.scopes } { f with sizes } :=
  ⟨hs.isSome_iff, hopen⟩

theorem mirrors_within_quantifier {body : Walk Unit} {judge : Judging} (q : Quantifier)
    (hbody : Mirrors rule level body judge) :
    Mirrors rule level (within limits rule (.quantifier q) body) judge where
  ok {s f f'} hs hjudge := by
    have hframe := newFrame_quantifier_eq hs.openAt q
    obtain ⟨u, s', hrun, hadvanced⟩ :=
      hbody.ok (hs.inside (.quantifier q hs.openAt) f.sizes) hjudge
    obtain ⟨children, hpush, hsizes⟩ := hadvanced.pushed
    rw [pushAll_pushTo_quantifier] at hpush
    obtain ⟨scopes', hpush', hscopes⟩ := Option.map_eq_some_iff.mp hpush
    have hleave : leave limits ⟨s.scopes.length, .quantifier q⟩ s'.scopes =
        .ok .quantifier scopes' := by
      rw [← hscopes, leave_eq (hs.openAt.of_pushAll hpush').2.symm]
      rfl
    refine ⟨_, _, (within_of_ok hframe hrun).trans (inScopes_of_ok hleave), hadvanced.isSome_iff,
      children, hpush', hsizes⟩
  error {s f fault} hs hjudge := by
    have hframe := newFrame_quantifier_eq hs.openAt q
    obtain ⟨s', hrun⟩ := hbody.error (hs.inside (.quantifier q hs.openAt) f.sizes) hjudge
    exact ⟨_, within_of_error hframe hrun⟩

/-- What is inside a frame that collects ends with the frame around its children. -/
theorem Mirrors.collected {body : Walk Unit} {judge : Judging} (frame : Condition.Group Nat → Frame)
    {connective : Connective} (hbody : Mirrors rule level body judge) {s : State}
    {f inner : Findings}
    (hs : Reflects rule level { s with scopes := frame ⟨connective, []⟩ :: s.scopes } f)
    (hempty : f.sizes = []) (hinside : judge f = .ok inner)
    (hframe : ∀ children, pushAll (pushTo? level) children (frame ⟨connective, []⟩ :: s.scopes) =
      some (frame ⟨connective, children⟩ :: s.scopes)) :
    ∃ s' group, body { s with scopes := frame ⟨connective, []⟩ :: s.scopes } = .ok () s' ∧
      s'.scopes = frame group :: s.scopes ∧
      (∀ name, (s'.graph.findVar? rule.id name).isSome ↔ name ∈ inner.declared) ∧
      group.count = min (ways connective inner.sizes) countCeiling ∧
      group.combined.length = ways connective inner.sizes := by
  obtain ⟨u, s', hrun, hadvanced⟩ := hbody.ok hs hinside
  obtain ⟨children, hpush, hsizes⟩ := hadvanced.pushed
  rw [hframe] at hpush
  rw [hempty, List.nil_append] at hsizes
  refine ⟨s', ⟨connective, children⟩, hrun, (Option.some.inj hpush).symm, hadvanced.isSome_iff,
    ?_, ?_⟩
  · rw [count_group, hsizes]
  · rw [length_combined, hsizes]

theorem mirrors_within_group {body : Walk Unit} {judge : Judging} (connective : Connective)
    (hbody : Mirrors rule level body judge) :
    Mirrors rule level (within limits rule (.operator connective) body)
      (grouping limits level connective judge) where
  ok {s f f'} hs hjudge := by
    have hframe := newFrame_groupFrame hs.openAt connective
    obtain ⟨inner, hinside, hlimit, rfl⟩ := grouping_eq_ok.mp hjudge
    obtain ⟨s', group, hrun, hscopes, hvars, hcount, hlength⟩ :=
      hbody.collected (groupFrame level) (hs.inside (hs.openAt.group _) []) rfl hinside
        fun children => pushAll_groupFrame children connective _
    obtain ⟨scopes', hpush, -⟩ := hs.openAt.push group.combined
    have hleave : leave limits ⟨s.scopes.length, .operator connective⟩ s'.scopes =
        .ok .operator scopes' := by
      rw [hscopes, leave_eq rfl]
      exact close_groupFrame_of_le (hcount ▸ hlimit) hpush
    refine ⟨_, _, (within_of_ok hframe hrun).trans (inScopes_of_ok hleave), hvars,
      [group.combined], ?_, ?_⟩
    · rw [pushAll, hpush]
      rfl
    · simp [hlength]
  error {s f fault} hs hjudge := by
    have hframe := newFrame_groupFrame hs.openAt connective
    rcases grouping_eq_error.mp hjudge with hinside | ⟨inner, hinside, hlimit, rfl⟩
    · obtain ⟨s', hrun⟩ := hbody.error (hs.inside (hs.openAt.group _) []) hinside
      exact ⟨_, within_of_error hframe hrun⟩
    · obtain ⟨s', group, hrun, hscopes, -, hcount, -⟩ :=
        hbody.collected (groupFrame level) (hs.inside (hs.openAt.group _) []) rfl hinside
          fun children => pushAll_groupFrame children connective _
      have hleave : leave limits ⟨s.scopes.length, .operator connective⟩ s'.scopes =
          .error (.possibilityLimit level (level.limit limits)
            (min (ways connective inner.sizes) countCeiling)) s.scopes := by
        rw [hscopes, leave_eq rfl, ← hcount]
        exact close_groupFrame_of_lt (hcount ▸ hlimit)
      exact ⟨_, (within_of_ok hframe hrun).trans (inScopes_of_error hleave)⟩

/-- **The scope of a pattern**, up to the possibilities that the rule gets. -/
theorem mirrors_within_pattern {body : Walk Unit} {judge : Judging} (id : ComponentId)
    (hbody : Mirrors rule .pattern body judge) :
    Mirrors rule level (within limits rule (.pattern id) body >>= handOver rule)
      (demand (level = .rule) (.scope (.nested .pattern)) >=>
        grouping limits .pattern .and judge) where
  ok {s f f'} hs hjudge := by
    obtain ⟨f₁, hnested, hgroup⟩ := andThen_eq_ok.mp hjudge
    obtain ⟨rfl, rfl⟩ := demand_eq_ok.mp hnested
    have hframe := newFrame_pattern_eq hs.openAt id
    rw [if_pos rfl] at hframe
    obtain ⟨inner, hinside, hlimit, rfl⟩ := grouping_eq_ok.mp hgroup
    obtain ⟨s', group, hrun, hscopes, hvars, hcount, hlength⟩ :=
      hbody.collected (.pattern id) (hs.inside (.pattern id ⟨.and, []⟩ hs.openAt) []) rfl hinside
        fun children => pushAll_pattern children id .and _
    have hleave : leave limits ⟨s.scopes.length, .pattern id⟩ s'.scopes =
        .ok (.pattern id group.combined) s.scopes := by
      rw [hscopes, leave_eq rfl]
      exact close_pattern_of_le (hcount ▸ hlimit)
    obtain ⟨scopes', hpush, -⟩ := hs.openAt.push
      ((s'.graph.nextPossibilities group.combined.length).map ([·]))
    have hadd : Condition.addPatternPossibilities (s'.graph.nextPossibilities group.combined.length)
        s.scopes = .ok () scopes' := by
      rw [Condition.addPatternPossibilities, addToRule, show pushToRule? _ _ = _ from hpush]
    refine ⟨(), _, (bind_of_ok ((within_of_ok hframe hrun).trans (inScopes_of_ok hleave))).trans
      ((bind_of_ok rfl).trans (inScopes_of_ok hadd)), hvars,
      [(s'.graph.nextPossibilities group.combined.length).map ([·])], ?_, ?_⟩
    · rw [pushAll, hpush]
      rfl
    · simp [nextPossibilities, hlength]
  error {s f fault} hs hjudge := by
    have hframe := newFrame_pattern_eq hs.openAt id
    rcases andThen_eq_error.mp hjudge with hnested | ⟨f₁, hnested, hgroup⟩
    · obtain ⟨hlevel, rfl⟩ := demand_eq_error.mp hnested
      rw [if_neg hlevel] at hframe
      exact ⟨_, bind_of_error (within_of_newFrame_error hframe)⟩
    · obtain ⟨rfl, rfl⟩ := demand_eq_ok.mp hnested
      rw [if_pos rfl] at hframe
      rcases grouping_eq_error.mp hgroup with hinside | ⟨inner, hinside, hlimit, rfl⟩
      · obtain ⟨s', hrun⟩ :=
          hbody.error (hs.inside (.pattern id ⟨.and, []⟩ hs.openAt) []) hinside
        exact ⟨_, bind_of_error (within_of_error hframe hrun)⟩
      · obtain ⟨s', group, hrun, hscopes, -, hcount, -⟩ :=
          hbody.collected (.pattern id) (hs.inside (.pattern id ⟨.and, []⟩ hs.openAt) []) rfl
            hinside fun children => pushAll_pattern children id .and _
        have hleave : leave limits ⟨s.scopes.length, .pattern id⟩ s'.scopes =
            .error (.possibilityLimit .pattern limits.maxPatternPossibilities
              (min (ways .and inner.sizes) countCeiling)) s.scopes := by
          rw [hscopes, leave_eq rfl, ← hcount]
          exact close_pattern_of_lt (hcount ▸ hlimit)
        exact ⟨_, bind_of_error ((within_of_ok hframe hrun).trans (inScopes_of_error hleave))⟩

end RuleBase.Analysis

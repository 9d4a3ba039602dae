import RuleBase.Proofs.Analysis.Weaving

/-!
# Where the parts of a rule fit

A walk knows the rule, the pattern and the constraint that it is in. As long as it tells the truth
about them, everything that it adds fits where it is put: what a new component refers to is what is
nearest above it.

* `woven_fieldFor`, `weaves_addVar`, `weaves_lowerInvoker`, **`weaves_lowerRestriction`**: parts of
  patterns and sources.
-/

namespace RuleBase

namespace Analysis

open RuleBase.Graph Condition

/-! ## Where a walk is -/

/-- A walk knows a pattern. -/
structure PatternSite.KnownIn (q : PatternSite) (g : Graph) : Prop where
  pattern : ∃ p, g.ofKind? Kind.pattern? q.id = some p ∧ p.factClass = q.factClass ∧
    p.name = q.className ∧ p.isNot = q.isNot
  className_eq : g.ofKind? Kind.className? q.factClass = some q.className

/-- A walk that works below a component knows the rule that it is in, and some pattern. -/
structure RuleSite.Knows (rule : RuleSite) (pattern? : Option PatternSite) (p : ComponentId)
    (g : Graph) : Prop where
  inRule : g.InRule p rule.id rule.name
  known : ∀ q, pattern? = some q → q.KnownIn g

/-- It knows the pattern that it is in. -/
structure RuleSite.StandsAt (rule : RuleSite) (pattern? : Option PatternSite) (p : ComponentId)
    (g : Graph) : Prop extends rule.Knows pattern? p g where
  nearest : ∀ q, pattern? = some q → g.Nearest .pattern p q.id

/-- A walk that works below a constraint knows it. -/
structure RuleSite.StandsIn (rule : RuleSite) (q : PatternSite) (k : ConstraintSite)
    (p : ComponentId) (g : Graph) : Prop where
  id_eq : k.id = p
  inRule : g.InRule p rule.id rule.name
  constraint : ∃ c, g.ofKind? Kind.constraint? p = some c ∧ rule.id = c.rule ∧ q.id = c.pattern ∧
    k.field = c.field ∧ q.isNot = c.patternIsNot

theorem lasting_inSomeRule (p : ComponentId) : Lasting fun g => ∃ rule, g.Nearest .rule p rule := by
  rintro g g' hkept ⟨rule, hrule⟩
  exact ⟨rule, hrule.keep hkept⟩

theorem lasting_knownIn (q : PatternSite) : Lasting q.KnownIn := by
  rintro g g' hkept ⟨⟨p, hp, hclass, hname, hnot⟩, hclassName⟩
  obtain ⟨p', hp', hclass', hname', hnot'⟩ := hkept.pattern? hp
  exact ⟨⟨p', hp', hclass'.trans hclass, hname'.trans hname, hnot'.trans hnot⟩,
    hkept.className? hclassName⟩

theorem lasting_knows (rule : RuleSite) (pattern? : Option PatternSite) (p : ComponentId) :
    Lasting (rule.Knows pattern? p) := by
  intro g g' hkept h
  exact ⟨h.inRule.keep hkept, fun q hq => lasting_knownIn q g g' hkept (h.known q hq)⟩

theorem lasting_standsAt (rule : RuleSite) (pattern? : Option PatternSite) (p : ComponentId) :
    Lasting (rule.StandsAt pattern? p) := by
  intro g g' hkept h
  exact ⟨lasting_knows rule pattern? p g g' hkept h.toKnows,
    fun q hq => (h.nearest q hq).keep hkept⟩

theorem lasting_standsIn (rule : RuleSite) (q : PatternSite) (k : ConstraintSite)
    (p : ComponentId) : Lasting (rule.StandsIn q k p) := by
  rintro g g' hkept ⟨hid, hrule, c, hc, hsame⟩
  exact ⟨hid, hrule.keep hkept, c, hkept.ofKind? (fun k => by cases k <;> rfl) hc, hsame⟩

/-- Below a new component that is neither a rule nor a pattern, a walk is where it was. -/
theorem RuleSite.StandsAt.below {rule : RuleSite} {pattern? : Option PatternSite}
    {p id : ComponentId} {kind : Kind} {g : Graph} (h : rule.StandsAt pattern? p g)
    (hmade : Made id (some p) kind g) (hrule : kind.type ≠ .rule)
    (hpattern : kind.type ≠ .pattern) : rule.StandsAt pattern? id g where
  inRule := hmade.inRule h.inRule hrule
  known := h.known
  nearest q hq := hmade.nearest (h.nearest q hq) hpattern

section Suits

variable {g : Graph} {p : ComponentId} {kind : Kind}

/-- A component that is neither shared nor a variable nor a restriction may come about where it
fits. -/
theorem suits_of_fits (hp : p ≤ g.size) (hkey : kind.key? = none)
    (hrestriction : kind.type ≠ .restriction)
    (hfits : (g.newComponent (some p) kind).FitsIn (g.add (some p) kind)) :
    Suits g (some p) kind where
  parent_le := by
    rintro _ ⟨⟩
    exact hp
  fresh key hsome := by
    rw [hkey] at hsome
    cases hsome
  fits := hfits
  resolved r _ _ hr := absurd (congrArg Kind.type hr) hrestriction
  typed := by
    rintro v rfl
    cases hkey

theorem suits_in_rule {rule : ComponentId} (h : g.Nearest .rule p rule)
    (hkey : kind.key? = none) (hrestriction : kind.type ≠ .restriction) (hrule : kind.type ≠ .rule)
    (hfits : ∀ (g : Graph) id parent, (∃ rule, g.Nearest .rule id rule) → kind.Fits g id parent) :
    Suits g (some p) kind :=
  suits_of_fits h.le_size hkey hrestriction
    (hfits _ _ _ ⟨rule, (made_add g (some p) kind).nearest (h.keep (kept_add _ _ _)) hrule⟩)

end Suits

section Invokers

variable {F : Graph → Prop} {p : ComponentId}

theorem weaves_addTyped {kind : Kind} (hkind : kind.type.isPlain = true)
    (hsuits : ∀ g, g.Arranged → F g → Suits g (some p) kind) :
    Weaves F (some p) (addTyped p kind) :=
  weaves_node_bind hkind lasting_true (fun g harranged hF => ⟨hsuits g harranged hF, trivial⟩)
    fun _ => weaves_pure _

mutual
theorem weaves_lowerInvoker (limits : Limits) (site : Site) (p : ComponentId) (i : Ast.Invoker) :
    Weaves (fun g => ∃ rule, g.Nearest .rule p rule) (some p) (lowerInvoker limits site p i) := by
  cases i with
  | fieldAccess name argument =>
    rw [lowerInvoker]
    exact weaves_addTyped rfl fun g _ ⟨_, hrule⟩ =>
      suits_in_rule hrule rfl nofun nofun fun _ _ _ h => h
  | methodAccess name arguments =>
    rw [lowerInvoker]
    exact weaves_addTyped rfl fun g _ ⟨_, hrule⟩ =>
      suits_in_rule hrule rfl nofun nofun fun _ _ _ h => h
  | functionCall name arguments =>
    rw [lowerInvoker]
    exact weaves_addTyped rfl fun g _ ⟨_, hrule⟩ =>
      suits_in_rule hrule rfl nofun nofun fun _ _ _ h => h
  | accessor name invokers =>
    rw [lowerInvoker]
    refine weaves_descend_bind fun depth => ?_
    refine weaves_node_bind rfl (lasting_inSomeRule p) (fun g _ hrule => ⟨?_, hrule⟩) fun id => ?_
    · obtain ⟨rule, hrule⟩ := hrule
      exact suits_in_rule hrule rfl nofun nofun fun _ _ _ h => h
    · refine weaves_bind ((lasting_inSomeRule p).and (lasting_made _ _ _)) ?_ fun _ => weaves_pure _
      refine (weaves_lowerInvokers limits _ id invokers).of_imp ?_
      rintro g ⟨⟨rule, hrule⟩, hmade⟩
      exact ⟨rule, hmade.nearest hrule nofun⟩
  | unknown =>
    rw [lowerInvoker]
    exact weaves_pure none

theorem weaves_lowerInvokers (limits : Limits) (site : Site) (p : ComponentId)
    (is : List Ast.Invoker) :
    Weaves (fun g => ∃ rule, g.Nearest .rule p rule) (some p)
      (lowerInvokers limits site p is) := by
  cases is with
  | nil =>
    rw [lowerInvokers]
    exact weaves_pure ()
  | cons i rest =>
    rw [lowerInvokers]
    exact weaves_bind (lasting_inSomeRule p) (weaves_lowerInvoker limits site p i) fun _ =>
      weaves_lowerInvokers limits site p rest
end

end Invokers

section Restrictions

/-- A variable that an operand refers to is the one that is found. -/
def ResolvedIn (rule : ComponentId) (operand : Operand) (g : Graph) : Prop :=
  ∀ id name, operand.var? = some (id, name) → g.findVar? rule name = some id

theorem varFor_eq_ok {rule : RuleSite} {name : String} {id : ComponentId} {s s' : State}
    (hrun : varFor rule name s = .ok id s') : s.graph.findVar? rule.id name = some id ∧ s' = s := by
  obtain ⟨found, s₁, hlook, hfound⟩ := bind_eq_ok hrun
  cases hlook
  exact orFail_eq_ok hfound

theorem resolvedIn_of_lowerOperand {rule : RuleSite} {operand : Ast.Operand} {operand' : Operand}
    {s s' : State} (hrun : lowerOperand rule operand s = .ok operand' s') :
    ResolvedIn rule.id operand' s'.graph := by
  intro id name hvar
  cases operand with
  | literal text =>
    cases hrun
    cases hvar
  | returnValue content declarations method =>
    cases hrun
    cases hvar
  | var identifier =>
    obtain ⟨found, s₁, hfind, hdone⟩ := bind_eq_ok hrun
    obtain ⟨hfound, rfl⟩ := varFor_eq_ok hfind
    cases hdone
    cases hvar
    exact hfound
  | qualified text =>
    obtain ⟨⟨base, path⟩, s₁, hsplit, hrun₁⟩ := bind_eq_ok hrun
    obtain ⟨-, rfl⟩ := orFail_eq_ok hsplit
    obtain ⟨found, s₂, hfind, hrun₂⟩ := bind_eq_ok hrun₁
    obtain ⟨hfound, rfl⟩ := varFor_eq_ok hfind
    obtain ⟨u, s₃, hmodify, hdone⟩ := bind_eq_ok hrun₂
    cases hmodify
    cases hdone
    cases hvar
    exact (findVar?_modify _ _ _ _ _).trans hfound

variable {F : Graph → Prop} {p? : Option ComponentId}

theorem weaves_varFor (rule : RuleSite) (name : String) : Weaves F p? (varFor rule name) :=
  weaves_of_graph_eq fun _ _ _ hrun => by rw [(varFor_eq_ok hrun).2]

theorem weaves_lowerOperand (rule : RuleSite) (operand : Ast.Operand) :
    Weaves (fun _ => True) p? (lowerOperand rule operand) := by
  cases operand with
  | literal text => exact weaves_pure _
  | returnValue content declarations method => exact weaves_pure _
  | var identifier =>
    exact weaves_bind lasting_true (weaves_varFor rule identifier) fun _ => weaves_pure _
  | qualified text =>
    refine weaves_orFail_bind fun split _ => ?_
    refine weaves_bind lasting_true (weaves_varFor rule split.1) fun id => ?_
    have hplain : ∀ k : Kind, k.type.isPlain = false → onVar asField k = k := fun k hk => by
      cases k <;> trivial
    exact weaves_bind lasting_true (weaves_modify id .asField hplain) fun _ => weaves_pure _

theorem weaves_settleType (field : ComponentId) (type : Option FieldType) :
    Weaves F p? (settleType field type) := by
  cases type with
  | none => exact weaves_pure ()
  | some t => exact weaves_modify field (.refine t) fun k hk => by cases k <;> trivial

theorem suits_restriction {rule : RuleSite} {q : PatternSite} {k : ConstraintSite} {p : ComponentId}
    {operator : Operator} {operand : Operand} {g : Graph} (hsound : g.Sound)
    (h : rule.StandsIn q k p g) (hoperand : ResolvedIn rule.id operand g) :
    Suits g (some p) (.restriction
      { rule := rule.id, ruleName := rule.name, pattern := q.id, patternIsNot := q.isNot
        constraint := k.id, field := k.field, operator, operand }) where
  parent_le := by
    rintro _ ⟨⟩
    exact h.inRule.nearest.le_size
  fresh := nofun
  fits := by
    have hmade := made_add g (some p) (.restriction
      { rule := rule.id, ruleName := rule.name, pattern := q.id, patternIsNot := q.isNot
        constraint := k.id, field := k.field, operator, operand })
    have hkept := kept_add g (some p) (.restriction
      { rule := rule.id, ruleName := rule.name, pattern := q.id, patternIsNot := q.isNot
        constraint := k.id, field := k.field, operator, operand })
    refine ⟨hmade.inRule (h.inRule.keep hkept) nofun, congrArg some h.id_eq.symm, ?_, ?_⟩
    · obtain ⟨c, hc, hrule, hpattern, hfield, hnot⟩ := h.constraint
      refine ⟨c, hkept.ofKind? (fun k => by cases k <;> rfl) ?_, hrule, hpattern, hfield, hnot⟩
      exact (congrArg _ h.id_eq).trans hc
    · intro other name hother
      obtain ⟨v, hv, hrule, hname⟩ := hsound.var?_of_findVar? (hoperand other name hother)
      obtain ⟨v', hv', hrule', hname'⟩ := hkept.var? hv
      exact ⟨v', hv', hrule'.trans hrule, hname'.trans hname⟩
  resolved r id name hr hvar := by
    cases hr
    exact hoperand id name hvar
  typed := by rintro _ ⟨⟩

theorem weaves_lowerComparison {rule : RuleSite} {q : PatternSite} {k : ConstraintSite}
    {p : ComponentId} (symbol : String) (negated : Bool) (operand : Ast.Operand) :
    Weaves (rule.StandsIn q k p) (some p)
      (lowerComparison rule q k p symbol negated operand) := by
  refine weaves_orFail_bind fun operator _ => ?_
  refine weaves_value_bind (lasting_standsIn rule q k p)
    ((weaves_lowerOperand rule operand).of_imp fun _ _ => trivial)
    (fun _ _ _ _ _ hrun => resolvedIn_of_lowerOperand hrun) fun operand' => ?_
  refine weaves_node_bind rfl lasting_true
    (fun g harranged ⟨h, hoperand⟩ => ⟨suits_restriction harranged.toSound h hoperand, trivial⟩)
    fun id => ?_
  exact weaves_bind (lasting_true.and (lasting_made _ _ _)) (weaves_settleType _ _)
    fun _ => weaves_inScopes _ _

theorem weaves_site_constraint_bind {site : Site} {q : PatternSite} {k : ConstraintSite}
    {node : Inner} {α : Type} {next : PatternSite × ConstraintSite → Walk α}
    (hpattern : site.pattern? = some q) (hconstraint : site.constraint? = some k)
    (hnext : Weaves F p? (next (q, k))) : Weaves F p? (site.constraint node >>= next) := by
  rw [Site.constraint, Site.pattern, hpattern, hconstraint]
  exact hnext

mutual
/-- **Restrictions are woven in below their constraint.** -/
theorem weaves_lowerRestriction {q : PatternSite} {k : ConstraintSite} (limits : Limits)
    (site : Site) (hpattern : site.pattern? = some q) (hconstraint : site.constraint? = some k)
    (p : ComponentId) (r : Ast.Restriction) :
    Weaves (site.rule.StandsIn q k p) (some p) (lowerRestriction limits site p r) := by
  cases r with
  | comparison symbol negated operand =>
    rw [lowerRestriction]
    refine weaves_site_constraint_bind hpattern hconstraint ?_
    exact weaves_lowerComparison symbol negated operand
  | group connective restrictions =>
    rw [lowerRestriction]
    refine weaves_site_constraint_bind hpattern hconstraint ?_
    refine weaves_descend_bind fun depth => ?_
    have hinside := weaves_lowerRestrictions limits { site with depth } hpattern hconstraint p
      restrictions
    exact weaves_bind (lasting_standsIn site.rule q k p) (weaves_within hinside)
      fun _ => weaves_pure ()
  | unknown =>
    rw [lowerRestriction]
    exact weaves_site_constraint_bind hpattern hconstraint (weaves_pure ())

theorem weaves_lowerRestrictions {q : PatternSite} {k : ConstraintSite} (limits : Limits)
    (site : Site) (hpattern : site.pattern? = some q) (hconstraint : site.constraint? = some k)
    (p : ComponentId) (rs : List Ast.Restriction) :
    Weaves (site.rule.StandsIn q k p) (some p) (lowerRestrictions limits site p rs) := by
  cases rs with
  | nil =>
    rw [lowerRestrictions]
    exact weaves_pure ()
  | cons r rest =>
    rw [lowerRestrictions]
    exact weaves_bind (lasting_standsIn site.rule q k p)
      (weaves_lowerRestriction limits site hpattern hconstraint p r) fun _ =>
        weaves_lowerRestrictions limits site hpattern hconstraint p rest
end

end Restrictions

section Shared

variable {p? : Option ComponentId} {s s' : State} {id : ComponentId}

/-- What is found by its name, or is new, is found by its name from then on. -/
theorem woven_findOrAdd {key : Key} {kind : Kind} (harranged : s.graph.Arranged)
    (hkey : kind.key? = some key) (hshadowing : key.isShadowing = false)
    (hkind : kind.type.isPlain = true)
    (hfits : (s.graph.newComponent none kind).FitsIn (s.graph.add none kind))
    (hrun : findOrAdd (·.keyTable.find? key) none kind s = .ok id s') :
    Woven p? s.graph s'.graph ∧ s'.graph.keyTable.find? key = some id := by
  obtain ⟨hfind, rfl⟩ | ⟨hfind, rfl, rfl⟩ := findOrAdd_eq_ok hrun
  · exact ⟨.refl _, hfind⟩
  · have hsuits : Suits s.graph none kind := by
      refine ⟨by rintro _ ⟨⟩, fun other hother _ => ?_, hfits, ?_, ?_⟩
      · obtain rfl := Option.some.inj (hkey.symm.trans hother)
        exact hfind
      · rintro r _ _ rfl
        cases hkey
      · rintro v rfl
        cases hkey
        cases hshadowing
    refine ⟨.plain_node harranged hsuits hkind (by rintro _ ⟨⟩) (.refl _), ?_⟩
    simp only [Graph.add, hkey, Table.find?_alter, if_pos, hfind, foundWith, hshadowing]
    rfl

theorem woven_classFor {name : String} (harranged : s.graph.Arranged)
    (hrun : classFor name s = .ok id s') :
    Woven p? s.graph s'.graph ∧ s'.graph.ofKind? Kind.className? id = some name := by
  have hfits : (s.graph.newComponent none (.factClass name)).FitsIn
      (s.graph.add none (.factClass name)) := rfl
  obtain ⟨hwoven, hfind⟩ := woven_findOrAdd harranged rfl rfl rfl hfits hrun
  exact ⟨hwoven, (hwoven.moves.arranged harranged).toSound.className?_of_findClass? hfind⟩

theorem woven_packageFor {name : String} (harranged : s.graph.Arranged)
    (hrun : packageFor name s = .ok id s') :
    Woven p? s.graph s'.graph ∧ s'.graph.ofKind? Kind.package? id = some ⟨name⟩ := by
  have hfits : (s.graph.newComponent none (.package ⟨name⟩)).FitsIn
      (s.graph.add none (.package ⟨name⟩)) := rfl
  obtain ⟨hwoven, hfind⟩ := woven_findOrAdd harranged rfl rfl rfl hfits hrun
  exact ⟨hwoven, (hwoven.moves.arranged harranged).toSound.package?_of_findPackage? hfind⟩

/-- A field of the class of a pattern. -/
def IsFieldOf (q : PatternSite) (name : String) (id : ComponentId) (g : Graph) : Prop :=
  ∃ f, g.ofKind? Kind.field? id = some f ∧ f.factClass = q.factClass ∧ f.name = name

theorem lasting_isFieldOf (q : PatternSite) (name : String) (id : ComponentId) :
    Lasting (IsFieldOf q name id) := by
  rintro g g' hkept ⟨f, hf, hclass, hname⟩
  obtain ⟨f', hf', hclass', hname'⟩ := hkept.field? hf
  exact ⟨f', hf', hclass'.trans hclass, hname'.trans hname⟩

theorem suits_field {g : Graph} {q : PatternSite} {name : String} {line : Nat} {type : FieldType}
    (hclass : g.ofKind? Kind.className? q.factClass = some q.className)
    (hfind : g.findField? q.factClass name = none) :
    Suits g (some q.factClass) (.field ⟨q.factClass, q.className, name, line, type⟩) where
  parent_le := by
    rintro _ ⟨⟩
    obtain ⟨c, hc, -⟩ := Option.bind_eq_some_iff.mp hclass
    exact le_size_of_get? hc
  fresh := by
    rintro _ ⟨⟩ -
    exact hfind
  fits := ⟨rfl, (kept_add _ _ _).className? hclass⟩
  resolved := by rintro _ _ _ ⟨⟩
  typed := by rintro _ ⟨⟩

theorem woven_fieldFor {q : PatternSite} {name : String} {line : Nat}
    (harranged : s.graph.Arranged) (hq : q.KnownIn s.graph)
    (hrun : fieldFor q name line s = .ok id s') :
    Woven p? s.graph s'.graph ∧ IsFieldOf q name id s'.graph := by
  obtain ⟨found, s₁, hlook, hrest⟩ := bind_eq_ok hrun
  cases hlook
  cases hfind : s.graph.findField? q.factClass name with
  | some other =>
    have hfield := harranged.toSound.field?_of_findField? hfind
    simp only [hfind] at hrest
    by_cases hline : line ≠ 0
    · rw [if_pos hline] at hrest
      cases hrest
      have hwoven : Woven p? s.graph (s.graph.modify id (onField (Field.mention line))) :=
        .modify harranged.toSound id (.mention line) fun k hk => by cases k <;> trivial
      exact ⟨hwoven, lasting_isFieldOf q name id _ _ hwoven.moves.kept hfield⟩
    · rw [if_neg hline] at hrest
      cases hrest
      exact ⟨.refl _, hfield⟩
  | none =>
    simp only [hfind] at hrest
    cases hrest
    have hsuits : Suits s.graph (some q.factClass)
        (.field ⟨q.factClass, q.className, name, line, .unknown⟩) :=
      suits_field hq.className_eq hfind
    refine ⟨.plain_node harranged hsuits rfl (fun id hid _ => ?_) (.refl _), ?_⟩
    · cases hid
      obtain ⟨c, hc, hname⟩ := Option.bind_eq_some_iff.mp hq.className_eq
      refine ⟨c, hc, ?_⟩
      obtain ⟨cid, parent, place, kind⟩ := c
      cases kind <;> first | rfl | cases hname
    · exact ⟨_, by rw [ofKind?, get?_add_nextId]; rfl, rfl, rfl⟩

/-! ## Variables -/

theorem suits_var {g : Graph} {p pattern : ComponentId} {v : Variable} {k : Graph.Pattern}
    (hrule : g.InRule p v.rule v.ruleName) (hnear : g.Nearest .pattern p pattern)
    (hpattern : g.ofKind? Kind.pattern? pattern = some k)
    (hobject : (p = pattern ∧ v.objectId = some k.factClass ∧ v.objectName = k.name) ∨
      ∃ field f, v.objectId = some field ∧ g.ofKind? Kind.field? field = some f ∧
        f.factClass = k.factClass ∧ f.name = v.objectName)
    (htells : v.TellsTypeIn g) : Suits g (some p) (.var v) := by
  have hmade := made_add g (some p) (.var v)
  have hkept := kept_add g (some p) (.var v)
  refine ⟨?_, by rintro _ ⟨⟩ ⟨⟩, ⟨?_, ?_⟩, by rintro _ _ _ ⟨⟩,
    by rintro _ ⟨⟩; exact htells⟩
  · rintro _ ⟨⟩
    exact hrule.nearest.le_size
  · exact hmade.inRule (hrule.keep hkept) nofun
  · obtain ⟨k', hk', hclass, hname, -⟩ := hkept.pattern? hpattern
    refine ⟨pattern, k', hmade.nearest (hnear.keep hkept) nofun, hk', ?_⟩
    obtain ⟨rfl, hid, hshown⟩ | ⟨field, f, hid, hf, hclass', hshown⟩ := hobject
    · exact .inl ⟨rfl, hid.trans (congrArg some hclass.symm), hshown.trans hname.symm⟩
    · obtain ⟨f', hf', hclass'', hname'⟩ := hkept.field? hf
      exact .inr ⟨field, f', hid, hf', (hclass''.trans hclass').trans hclass.symm,
        hname'.trans hshown⟩

theorem weaves_addVar {F : Graph → Prop} {rule : RuleSite} {p : ComponentId} {name : String}
    {objectType : ComponentType} {object : ComponentId} {objectName : String}
    (hsuits : ∀ g, g.Arranged → F g → Suits g (some p) (.var
      { rule := rule.id, ruleName := rule.name, name, objectType, objectId := some object
        objectName })) :
    Weaves F (some p) (addVar rule p name objectType object objectName) :=
  weaves_node_bind rfl lasting_true (fun g harranged hF => ⟨hsuits g harranged hF, trivial⟩)
    fun _ => weaves_pure ()

end Shared

end Analysis

end RuleBase

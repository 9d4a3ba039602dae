import RuleBase.Proofs.Analysis.Compositional

/-!
# Walks node by node

A walk is at a component: what it adds comes below it, and what it does once it has added a
component happens at the new one. A property of walks at components holds of a whole walk if it
holds of what the walk does at one component, and goes from a new component to the one above it.
Parts of a walk need less of a property than the walk as a whole.

* `Branching`, `Restricting`, `Placing`, `Nodewise`: what is asked of a property of walks;
* `Branching.lowerInvoker`, `Restricting.lowerRestrictions`, **`Nodewise.lowerElement`**: such a
  property holds of walks;
* **`Branching.nodewise`**: relations between graphs along walks at components;
* `Modular.nodewise`, **`Modular.lowerBody`**: properties for which components make no difference.
-/

namespace RuleBase.Analysis

open RuleBase.Graph Condition

/-! ## Properties of walks at components -/

/-- A property of walks at components holds of walks that do nothing, of sequences, and of failures,
and goes from a new component to the one above it. -/
structure Branching (rule : RuleSite) (Q : ComponentId → {α : Type} → Walk α → Prop) : Prop where
  pure : ∀ p {α : Type} (a : α), Q p (pure a)
  bind : ∀ p {α β : Type} {x : Walk α} {f : α → Walk β}, Q p x → (∀ a, Q p (f a)) → Q p (x >>= f)
  fail : ∀ p {α : Type} (fault : Fault), Q p (fail rule fault : Walk α)
  /-- Apart from comparisons and what is found by a key. -/
  node : ∀ p {α : Type} {kind : Kind} {k : ComponentId → Walk α}, kind.key? = none →
    kind.restriction? = none → (∀ id, Q id (k id)) → Q p (add (some p) kind >>= k)

/-- A property of walks at components also holds of scopes and of comparisons. -/
structure Restricting (rule : RuleSite) (Q : ComponentId → {α : Type} → Walk α → Prop) : Prop
    extends Branching rule Q where
  within : ∀ p limits scope {body}, Q p body → Q p (within limits rule scope body)
  compare : ∀ p pattern constraint symbol negated operand,
    Q p (lowerComparison rule pattern constraint p symbol negated operand)

/-- A property of walks at components also holds of scopes and of all else that the condition of a
rule consists of, apart from comparisons. -/
structure Placing (rule : RuleSite) (Q : ComponentId → {α : Type} → Walk α → Prop) : Prop
    extends Branching rule Q where
  within : ∀ p limits scope {body}, Q p body → Q p (within limits rule scope body)
  quantifier : ∀ p q, Q p (underQuantifier q)
  classFor : ∀ p name, Q p (classFor name)
  fieldFor : ∀ p pattern name line, Q p (fieldFor pattern name line)
  /-- The variable of a pattern. -/
  bound : ∀ p name factClass objectType, Q p (addVar rule p name .factClass factClass objectType)
  /-- The variable of a field. -/
  binding : ∀ p pattern name fieldName line, Q p do
    let field ← Analysis.fieldFor pattern fieldName line
    addVar rule p name .field field fieldName
  fill : ∀ p id change, Fill change → Q p (modify id change)
  handOver : ∀ p closed, Q p (handOver rule closed)
  keep : ∀ p closed, Q p (keepPossibilities closed)

/-- A property of walks at components holds of all that the condition of a rule consists of. -/
structure Nodewise (rule : RuleSite) (Q : ComponentId → {α : Type} → Walk α → Prop) : Prop
    extends Placing rule Q, Restricting rule Q

variable {rule : RuleSite} {Q : ComponentId → {α : Type} → Walk α → Prop} {α : Type}

namespace Branching

theorem orFail (h : Branching rule Q) (p : ComponentId) (fault : Fault) (o : Option α) :
    Q p (orFail rule fault o) := by
  cases o with
  | none => exact h.fail p fault
  | some a => exact h.pure p a

theorem site_pattern {site : Site} (h : Branching site.rule Q) (p : ComponentId) (node : Inner) :
    Q p (site.pattern node) := h.orFail p _ _

theorem site_constraint {site : Site} (h : Branching site.rule Q) (p : ComponentId)
    (node : Inner) : Q p (site.constraint node) :=
  h.bind p (h.site_pattern p node) fun _ => h.bind p (h.orFail p _ _) fun _ => h.pure p _

theorem descend_bind {limits : Limits} {site : Site} (h : Branching site.rule Q) (p : ComponentId)
    {f : Site → Walk α} (hf : ∀ depth, Q p (f { site with depth })) :
    Q p (descend limits site >>= f) := by
  by_cases hdeep : limits.maxNestingDepth < site.depth + 1
  · rw [descend, if_pos hdeep]
    exact h.fail p _
  · rw [descend, if_neg hdeep]
    exact hf _

/-! ### Invokers -/

theorem addTyped (h : Branching rule Q) (p : ComponentId) {kind : Kind} (hkey : kind.key? = none)
    (hrestriction : kind.restriction? = none) : Q p (addTyped p kind) :=
  h.node p hkey hrestriction fun id => h.pure id _

mutual
theorem lowerInvoker (limits : Limits) (site : Site) (h : Branching site.rule Q) (p : ComponentId)
    (i : Ast.Invoker) : Q p (lowerInvoker limits site p i) := by
  cases i with
  | fieldAccess name argument =>
    rw [Analysis.lowerInvoker]
    exact h.addTyped p rfl rfl
  | methodAccess name arguments =>
    rw [Analysis.lowerInvoker]
    exact h.addTyped p rfl rfl
  | functionCall name arguments =>
    rw [Analysis.lowerInvoker]
    exact h.addTyped p rfl rfl
  | accessor name invokers =>
    rw [Analysis.lowerInvoker]
    refine h.descend_bind p fun depth => h.node p rfl rfl fun id => ?_
    exact h.bind id (lowerInvokers limits { site with depth } h id invokers) fun _ => h.pure id _
  | unknown =>
    rw [Analysis.lowerInvoker]
    exact h.pure p _

theorem lowerInvokers (limits : Limits) (site : Site) (h : Branching site.rule Q) (p : ComponentId)
    (is : List Ast.Invoker) : Q p (lowerInvokers limits site p is) := by
  cases is with
  | nil =>
    rw [Analysis.lowerInvokers]
    exact h.pure p _
  | cons i rest =>
    rw [Analysis.lowerInvokers]
    exact h.bind p (lowerInvoker limits site h p i) fun _ => lowerInvokers limits site h p rest
end

/-! ### Comparisons -/

theorem settleType (h : Branching rule Q)
    (hsettle : ∀ p field t, Q p (modify field (onField (Field.refine t)))) (p : ComponentId)
    (field : ComponentId) (type : Option FieldType) : Q p (settleType field type) := by
  cases type with
  | none => exact h.pure p _
  | some t => exact hsettle p field t

theorem lowerOperand (h : Branching rule Q) (hvar : ∀ p name, Q p (varFor rule name))
    (hstart : ∀ p id, Q p (modify id (onVar asField))) (p : ComponentId)
    (operand : Ast.Operand) : Q p (lowerOperand rule operand) := by
  cases operand with
  | literal text => exact h.pure p _
  | var identifier => exact h.bind p (hvar p identifier) fun _ => h.pure p _
  | returnValue content declarations method => exact h.pure p _
  | qualified text =>
    refine h.bind p (h.orFail p _ _) fun split => h.bind p (hvar p split.1) fun id => ?_
    exact h.bind p (hstart p id) fun _ => h.pure p _

theorem lowerComparison (h : Branching rule Q) (hvar : ∀ p name, Q p (varFor rule name))
    (hstart : ∀ p id, Q p (modify id (onVar asField)))
    (hadd : ∀ p r, Q p (add (some p) (.restriction r)))
    (hsettle : ∀ p field t, Q p (modify field (onField (Field.refine t))))
    (hscopes : ∀ p id, Q p (inScopes rule (addRestriction id))) (p : ComponentId)
    (pattern : PatternSite) (constraint : ConstraintSite) (symbol : String) (negated : Bool)
    (operand : Ast.Operand) :
    Q p (lowerComparison rule pattern constraint p symbol negated operand) := by
  refine h.bind p (h.orFail p _ _) fun operator => ?_
  refine h.bind p (h.lowerOperand hvar hstart p operand) fun operand' => ?_
  refine h.bind p (hadd p _) fun id => ?_
  exact h.bind p (h.settleType hsettle p _ _) fun _ => hscopes p id

end Branching

namespace Restricting

mutual
theorem lowerRestriction (limits : Limits) (site : Site) (h : Restricting site.rule Q)
    (p : ComponentId) (r : Ast.Restriction) : Q p (lowerRestriction limits site p r) := by
  cases r with
  | comparison symbol negated operand =>
    rw [Analysis.lowerRestriction]
    exact h.bind p (h.site_constraint p _) fun place => h.compare p _ _ _ _ _
  | group connective restrictions =>
    rw [Analysis.lowerRestriction]
    refine h.bind p (h.site_constraint p _) fun _ => h.descend_bind p fun depth => ?_
    have hinside : Q p (Analysis.lowerRestrictions limits { site with depth } p restrictions) :=
      lowerRestrictions limits { site with depth } h p restrictions
    exact h.bind p (h.within p _ _ hinside) fun _ => h.pure p _
  | unknown =>
    rw [Analysis.lowerRestriction]
    exact h.bind p (h.site_constraint p _) fun _ => h.pure p _

theorem lowerRestrictions (limits : Limits) (site : Site) (h : Restricting site.rule Q)
    (p : ComponentId) (rs : List Ast.Restriction) :
    Q p (Analysis.lowerRestrictions limits site p rs) := by
  cases rs with
  | nil =>
    rw [Analysis.lowerRestrictions]
    exact h.pure p _
  | cons r rest =>
    rw [Analysis.lowerRestrictions]
    exact h.bind p (lowerRestriction limits site h p r) fun _ =>
      lowerRestrictions limits site h p rest
end

end Restricting

namespace Placing

theorem bindPattern (h : Placing rule Q) (p factClass : ComponentId) (objectType : String)
    (identifier : Option String) : Q p (bindPattern rule p factClass objectType identifier) := by
  cases identifier with
  | none => exact h.pure p _
  | some name => exact h.bound p name factClass objectType

theorem attach (h : Placing rule Q) (p : ComponentId)
    {change : Option Reference → Kind → Kind} (hchange : ∀ reference, Fill (change reference))
    (reference : Option Reference) : Q p (attach p change reference) := by
  cases reference with
  | none => exact h.pure p _
  | some reference => exact h.fill p p _ (hchange _)

end Placing

namespace Nodewise

mutual
/-- **A property of walks at components holds of the walk through an element** if it holds of its
parts. -/
theorem lowerElement (limits : Limits) (site : Site) (h : Nodewise site.rule Q) (p : ComponentId)
    (e : Ast.Element) : Q p (lowerElement limits site p e) := by
  cases e with
  | pattern pattern =>
    rw [Analysis.lowerElement]
    exact h.bind p (lowerPattern limits site h p pattern) fun _ => h.pure p _
  | group connective elements =>
    rw [Analysis.lowerElement]
    refine h.descend_bind p fun depth => h.node p rfl rfl fun id => ?_
    have hinside : Q id (Analysis.lowerElements limits { site with depth } id elements) :=
      lowerElements limits { site with depth } h id elements
    exact h.bind id (h.within id _ _ hinside) fun _ => h.pure id _
  | quantified q elements =>
    rw [Analysis.lowerElement]
    refine h.descend_bind p fun depth => ?_
    have hinside : Q p (Analysis.lowerElements limits { site with depth } p elements) :=
      lowerElements limits { site with depth } h p elements
    exact h.bind p (h.within p _ _ hinside) fun _ => h.pure p _
  | eval content method =>
    rw [Analysis.lowerElement]
    exact h.node p rfl rfl fun id => h.pure id _
  | predicate content method =>
    rw [Analysis.lowerElement]
    exact h.bind p (h.site_pattern p _) fun _ => h.node p rfl rfl fun id => h.pure id _
  | constraint fieldName restrictions line =>
    rw [Analysis.lowerElement]
    refine h.bind p (h.site_pattern p _) fun pattern => ?_
    refine h.bind p (h.fieldFor p pattern fieldName line) fun field => h.node p rfl rfl fun id => ?_
    exact h.toRestricting.lowerRestrictions limits { site with constraint? := some ⟨id, field⟩ } id
      restrictions
  | binding identifier fieldName line =>
    rw [Analysis.lowerElement]
    exact h.bind p (h.site_pattern p _) fun pattern =>
      h.binding p pattern identifier fieldName line
  | unknown =>
    rw [Analysis.lowerElement]
    exact h.pure p _

theorem lowerElements (limits : Limits) (site : Site) (h : Nodewise site.rule Q) (p : ComponentId)
    (es : List Ast.Element) : Q p (Analysis.lowerElements limits site p es) := by
  cases es with
  | nil =>
    rw [Analysis.lowerElements]
    exact h.pure p _
  | cons e rest =>
    rw [Analysis.lowerElements]
    exact h.bind p (lowerElement limits site h p e) fun _ => lowerElements limits site h p rest

theorem lowerPattern (limits : Limits) (site : Site) (h : Nodewise site.rule Q) (p : ComponentId)
    (pattern : Ast.Pattern) : Q p (Analysis.lowerPattern limits site p pattern) := by
  obtain ⟨objectType, identifier, source, constraints, line⟩ := pattern
  rw [Analysis.lowerPattern]
  refine h.descend_bind p fun depth => ?_
  refine h.bind p (h.classFor p objectType) fun factClass => ?_
  refine h.bind p (h.quantifier p _) fun isNot => ?_
  refine h.bind p (h.quantifier p _) fun isExists => ?_
  refine h.bind p (h.quantifier p _) fun isForall => ?_
  refine h.node p rfl rfl fun id => ?_
  refine h.bind id (h.bindPattern id factClass objectType identifier) fun _ => ?_
  have hsource : Q id (Analysis.lowerSource? limits { site with depth } id source) :=
    lowerSource? limits { site with depth } h id source
  refine h.bind id hsource fun reference => ?_
  refine h.bind id (h.attach id .source reference) fun _ => ?_
  let inner : Site :=
    { site with
      depth, pattern? := some ⟨id, factClass, objectType, isNot⟩, constraint? := none }
  have hinside : Q id (Analysis.lowerElements limits inner id constraints) :=
    lowerElements limits inner h id constraints
  refine h.bind id (h.within id _ _ hinside) fun closed => ?_
  exact h.bind id (h.handOver id closed) fun _ => h.pure id _

theorem lowerSource? (limits : Limits) (site : Site) (h : Nodewise site.rule Q) (p : ComponentId)
    (source : Option Ast.Source) : Q p (Analysis.lowerSource? limits site p source) := by
  cases source with
  | none =>
    rw [Analysis.lowerSource?]
    exact h.pure p _
  | some source =>
    rw [Analysis.lowerSource?]
    exact lowerSource limits site h p source

theorem lowerSource (limits : Limits) (site : Site) (h : Nodewise site.rule Q) (p : ComponentId)
    (source : Ast.Source) : Q p (lowerSource limits site p source) := by
  cases source with
  | accumulate input code =>
    rw [Analysis.lowerSource]
    refine h.descend_bind p fun depth => h.node p rfl rfl fun id => ?_
    have hinput : Q id (Analysis.lowerPattern limits { site with depth } id input) :=
      lowerPattern limits { site with depth } h id input
    refine h.bind id hinput fun pattern => ?_
    exact h.bind id (h.fill id id _ (.input pattern)) fun _ => h.pure id _
  | collect input method =>
    rw [Analysis.lowerSource]
    refine h.descend_bind p fun depth => h.node p rfl rfl fun id => ?_
    have hinput : Q id (Analysis.lowerPattern limits { site with depth } id input) :=
      lowerPattern limits { site with depth } h id input
    refine h.bind id hinput fun pattern => ?_
    exact h.bind id (h.fill id id _ (.input pattern)) fun _ => h.pure id _
  | supplied dataSource =>
    rw [Analysis.lowerSource]
    refine h.descend_bind p fun depth => h.node p rfl rfl fun id => ?_
    have hinvoker : Q id (Analysis.lowerInvoker limits { site with depth } id dataSource) :=
      h.toBranching.lowerInvoker limits { site with depth } id dataSource
    refine h.bind id hinvoker fun reference => ?_
    exact h.bind id (h.attach id .dataSource reference) fun _ => h.pure id _
  | unknown =>
    rw [Analysis.lowerSource]
    exact h.descend_bind p fun _ => h.pure p _
end

/-- **So it holds of the walk through a rule**, at the component of the rule. -/
theorem lowerBody (h : Nodewise rule Q) (limits : Limits) (r : Ast.Rule) :
    Q rule.id (lowerBody limits rule r) := by
  have hlhs : Q rule.id (Analysis.lowerElements limits { rule } rule.id r.lhs) :=
    lowerElements limits { rule } h rule.id r.lhs
  refine h.bind _ (h.within _ _ _ hlhs) fun closed => h.bind _ (h.keep _ closed) fun _ => ?_
  -- what is filled in is in the rule, whichever component the walk is at
  exact h.node _ rfl rfl fun consequence => h.fill _ _ _ (.consequence consequence)

end Nodewise

/-! ## Relations between graphs -/

theorem always_fieldFor {R : Graph → Graph → Prop} [Std.Refl R]
    (hadd : ∀ g parent f, R g (g.add parent (.field f)))
    (hmention : ∀ g field line, R g (g.modify field (onField (Field.mention line))))
    (pattern : PatternSite) (name : String) (line : Nat) :
    Always (OnGraph R) (fieldFor pattern name line) := by
  intro s
  cases hfind : s.graph.findField? pattern.factClass name with
  | none =>
    rw [fieldFor_of_none hfind]
    exact hadd s.graph _ _
  | some field =>
    rw [fieldFor_of_some hfind]
    change R s.graph (if line ≠ 0 then _ else _)
    split
    · exact hmention s.graph field line
    · exact Std.Refl.refl s.graph

/-- **A relation between graphs holds of walks at components** if it goes from new components to
those above them, and holds of all other components that come about, of changes and of further
possibilities. -/
theorem Branching.nodewise {R : ComponentId → Graph → Graph → Prop} [∀ p, Std.Refl (R p)]
    [∀ p, IsTrans Graph (R p)] (h : Branching rule fun p {_} x => Always (OnGraph (R p)) x)
    (hrestriction : ∀ p g r, R p g (g.add (some p) (.restriction r)))
    (hvar : ∀ p g v, R p g (g.add (some p) (.var v)))
    (hclass : ∀ p g name, R p g (g.add none (.factClass name)))
    (hfield : ∀ p g parent f, R p g (g.add parent (.field f)))
    (hchange : ∀ p g id change, Change change → R p g (g.modify id change))
    (hpattern : ∀ p g pattern possibilities,
      R p g (g.addPatternPossibilities rule.id pattern possibilities))
    (hrule : ∀ p g r possibilities, R p g (g.addRulePossibilities r possibilities)) :
    Nodewise rule fun p {_} x => Always (OnGraph (R p)) x where
  toBranching := h
  within _ _ _ _ := always_within
  compare :=
    h.lowerComparison (fun _ _ => always_bind (always_look _) fun _ => always_orFail _ _ _)
      (fun p id s => hchange p s.graph id _ .asField)
      (fun p _ => always_add fun g => hrestriction p g _)
      (fun p field t s => hchange p s.graph field _ (.refine t))
      fun _ _ => always_inScopes rule _
  quantifier _ := always_underQuantifier
  classFor p _ := always_findOrAdd (always_add fun g => hclass p g _)
  fieldFor p := always_fieldFor (hfield p) fun g field line => hchange p g field _ (.mention line)
  bound p _ _ _ := always_bind (always_add fun g => hvar p g _) fun _ => always_pure _
  binding p pattern _ fieldName line :=
    always_bind
      (always_fieldFor (hfield p) (fun g field line => hchange p g field _ (.mention line))
        pattern fieldName line)
      fun _ => always_bind (always_add fun g => hvar p g _) fun _ => always_pure _
  fill p id _ hfill s := hchange p s.graph id _ hfill.change
  handOver p := always_handOver (hpattern p)
  keep p := always_keepPossibilities fun s => hrule p s.graph

/-! ## Properties for which components make no difference -/

/-- A property of walks that holds of the parts holds wherever the walk is. -/
theorem Piecewise.placing {Q : {α : Type} → Walk α → Prop} (h : Piecewise rule Q) :
    Placing rule fun _ {_} x => Q x where
  pure _ _ a := h.pure a
  bind _ _ _ _ _ hx hf := h.bind hx hf
  fail _ _ fault := h.fail fault
  node p _ _ _ hkey hrestriction hk := h.bind (h.node (some p) hkey hrestriction) hk
  within _ limits scope _ hbody := h.within limits scope hbody
  quantifier _ q := h.quantifier q
  classFor _ name := h.classFor name
  fieldFor _ pattern name line := h.fieldFor pattern name line
  bound p name factClass objectType := h.addVar p name .factClass factClass objectType
  binding p pattern name fieldName line :=
    h.bind (h.fieldFor pattern fieldName line) fun field => h.addVar p name .field field fieldName
  fill _ id change hfill := h.fill id change hfill
  handOver _ closed := h.handOver closed
  keep _ closed := h.keep closed

theorem Modular.nodewise {Q : {α : Type} → Walk α → Prop} (h : Modular rule Q) :
    Nodewise rule fun _ {_} x => Q x where
  toPlacing := h.placing
  compare p pattern constraint symbol negated operand :=
    h.lowerComparison pattern constraint p symbol negated operand

/-- **So it holds of the walk through a rule**, after the component of the rule. -/
theorem Modular.lowerBody {Q : {α : Type} → Walk α → Prop} (h : Modular rule Q) (limits : Limits)
    (r : Ast.Rule) : Q (lowerBody limits rule r) :=
  h.nodewise.lowerBody limits r

end RuleBase.Analysis

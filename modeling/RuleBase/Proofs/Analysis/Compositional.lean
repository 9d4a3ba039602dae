import RuleBase.Proofs.Analysis.Moves
import RuleBase.Proofs.Analysis.Run
import RuleBase.Proofs.Graph.Typing

/-!
# What holds of whole walks

Wherever the walk through a rule goes and wherever it ends, it consists of the same few parts: it
looks for something by a key, updates the graph, hands something over to the scopes, or walks on
inside one. A property of walks that holds of these parts, and of sequences, holds of the whole.

* `compositional_always`, **`compositional_onGraph`**: relations that hold along walks.
-/

namespace RuleBase.Analysis

open RuleBase.Graph Condition

/-! ## Updates -/

/-- What is filled in once something below a component has come about. -/
inductive Fill : (Kind → Kind) → Prop where
  | source (source : Option Reference) : Fill (withSource source)
  | input (input : ComponentId) : Fill (withInput input)
  | dataSource (dataSource : Option Reference) : Fill (withDataSource dataSource)
  | consequence (id : ComponentId) : Fill (withConsequence id)

theorem Fill.change {change : Kind → Kind} (h : Fill change) : Change change := by
  cases h with
  | source source => exact .withSource source
  | input input => exact .withInput input
  | dataSource dataSource => exact .withDataSource dataSource
  | consequence id => exact .withConsequence id

/-- One update of a graph by the walk through a rule. -/
inductive Update (rule : ComponentId) (g : Graph) : Graph → Prop where
  /-- New variables are variables of the rule. -/
  | add (parent : Option ComponentId) (kind : Kind)
      (h : ∀ r name, kind.key? = some (.var r name) → r = rule) : Update rule g (g.add parent kind)
  | fill (id : ComponentId) (change : Kind → Kind) (h : Fill change) :
      Update rule g (g.modify id change)
  | mention (field : ComponentId) (line : Nat) (h : line ≠ 0) :
      Update rule g (g.modify field (onField (Field.mention line)))
  | settle (field : ComponentId) (type : FieldType) (h : type ≠ .unknown) :
      Update rule g (g.modify field (onField (Field.refine type)))
  /-- A path starts from a variable of the rule. -/
  | startPath (id : ComponentId) (name : String) (h : g.findVar? rule name = some id) :
      Update rule g (g.modify id (onVar asField))
  | patternPossibilities (pattern : ComponentId) (possibilities : List (List ComponentId)) :
      Update rule g (g.addPatternPossibilities rule pattern possibilities)
  | rulePossibilities (r : ComponentId) (possibilities : List (List PossibilityId)) :
      Update rule g (g.addRulePossibilities r possibilities)

/-! ## Properties of walks -/

/-- A component that comes about apart from comparisons: a variable is one of the rule, and of the
type of a field nothing is known. -/
structure Fresh (rule : ComponentId) (kind : Kind) : Prop where
  variable_rule : ∀ r name, kind.key? = some (.var r name) → r = rule
  restriction?_eq : kind.restriction? = none
  fieldType_eq : ∀ f, kind.field? = some f → f.fieldType = .unknown

theorem fresh_of_key?_eq_none {kind : Kind} (hkey : kind.key? = none)
    (hrestriction : kind.restriction? = none) (rule : ComponentId) : Fresh rule kind := by
  refine ⟨by simp [hkey], hrestriction, fun f hf => ?_⟩
  cases kind <;> cases hf
  cases hkey

/-- A property of walks holds of all that a walk through a rule consists of, apart from
comparisons. -/
structure Piecewise (rule : RuleSite) (Q : {α : Type} → Walk α → Prop) : Prop where
  pure : ∀ {α : Type} (a : α), Q (pure a)
  bind : ∀ {α β : Type} {x : Walk α} {f : α → Walk β}, Q x → (∀ a, Q (f a)) → Q (x >>= f)
  fail : ∀ {α : Type} (fault : Fault), Q (fail rule fault : Walk α)
  find : ∀ key, Q (look (·.keyTable.find? key))
  quantifier : ∀ q, Q (underQuantifier q)
  add : ∀ parent kind, Fresh rule.id kind → Q (add parent kind)
  fill : ∀ id change, Fill change → Q (modify id change)
  mention : ∀ field line, line ≠ 0 → Q (modify field (onField (Field.mention line)))
  /-- A path starts from the variable that is found. -/
  startPath : ∀ {α : Type} (name : String) (f : ComponentId → α), Q do
    let id ← varFor rule name
    modify id (onVar asField)
    return f id
  within : ∀ limits scope {body}, Q body → Q (within limits rule scope body)
  handOver : ∀ closed, Q (handOver rule closed)
  keep : ∀ closed, Q (keepPossibilities closed)

/-- A property of walks also holds of comparisons, which count as one part: a new restriction, what
that tells of its field, and a step on the scopes. -/
structure Modular (rule : RuleSite) (Q : {α : Type} → Walk α → Prop) : Prop
    extends Piecewise rule Q where
  restrict : ∀ parent (r : Graph.Restriction), Q do
    let id ← Analysis.add parent (.restriction r)
    settleType r.field r.operand.comparedType?
    inScopes rule (addRestriction id)

/-- A property of walks holds of all that a walk through a rule consists of, and of what consists of
such parts. -/
structure Compositional (rule : RuleSite) (Q : {α : Type} → Walk α → Prop) : Prop where
  pure : ∀ {α : Type} (a : α), Q (pure a)
  bind : ∀ {α β : Type} {x : Walk α} {f : α → Walk β}, Q x → (∀ a, Q (f a)) → Q (x >>= f)
  fail : ∀ {α : Type} (fault : Fault), Q (fail rule fault : Walk α)
  find : ∀ key, Q (look (·.keyTable.find? key))
  quantifier : ∀ q, Q (underQuantifier q)
  /-- New variables are variables of the rule. -/
  add : ∀ parent kind, (∀ r name, kind.key? = some (.var r name) → r = rule.id) →
    Q (add parent kind)
  fill : ∀ id change, Fill change → Q (modify id change)
  mention : ∀ field line, line ≠ 0 → Q (modify field (onField (Field.mention line)))
  settle : ∀ field type, type ≠ .unknown → Q (modify field (onField (Field.refine type)))
  /-- A path starts from the variable that is found. -/
  startPath : ∀ {α : Type} (name : String) (f : ComponentId → α), Q do
    let id ← varFor rule name
    modify id (onVar asField)
    return f id
  restriction : ∀ id, Q (inScopes rule (addRestriction id))
  within : ∀ limits scope {body}, Q body → Q (within limits rule scope body)
  handOver : ∀ closed, Q (handOver rule closed)
  keep : ∀ closed, Q (keepPossibilities closed)

namespace Compositional

variable {rule : RuleSite} {Q : {α : Type} → Walk α → Prop}

theorem settleType (h : Compositional rule Q) (field : ComponentId) (operand : Operand) :
    Q (settleType field operand.comparedType?) := by
  cases htype : operand.comparedType? with
  | none => exact h.pure _
  | some type => exact h.settle field type (Operand.comparedType?_ne_unknown htype)

theorem modular (h : Compositional rule Q) : Modular rule Q where
  pure := h.pure
  bind := h.bind
  fail := h.fail
  find := h.find
  quantifier := h.quantifier
  add parent kind hfresh := h.add parent kind hfresh.variable_rule
  fill := h.fill
  mention := h.mention
  startPath := h.startPath
  restrict parent r := by
    refine h.bind (h.add parent (.restriction r) (by rintro _ _ ⟨⟩)) fun id => ?_
    exact h.bind (h.settleType r.field r.operand) fun _ => h.restriction id
  within := h.within
  handOver := h.handOver
  keep := h.keep

end Compositional

/-! ## Small walks as their parts -/

namespace Piecewise

variable {rule : RuleSite} {Q : {α : Type} → Walk α → Prop} {α : Type}

theorem orFail (h : Piecewise rule Q) (fault : Fault) (o : Option α) :
    Q (orFail rule fault o) := by
  cases o with
  | none => exact h.fail fault
  | some a => exact h.pure a

theorem varFor (h : Piecewise rule Q) (name : String) : Q (varFor rule name) :=
  h.bind (h.find (.var rule.id name)) fun _ => h.orFail _ _

theorem node (h : Piecewise rule Q) (parent : Option ComponentId) {kind : Kind}
    (hkey : kind.key? = none) (hrestriction : kind.restriction? = none) :
    Q (Analysis.add parent kind) :=
  h.add parent kind (fresh_of_key?_eq_none hkey hrestriction rule.id)

theorem findOrAdd (h : Piecewise rule Q) {find? : Graph → Option ComponentId} (key : Key)
    (hfind : find? = (·.keyTable.find? key)) {parent : Option ComponentId} {kind : Kind}
    (hadd : Q (Analysis.add parent kind)) : Q (findOrAdd find? parent kind) := by
  subst hfind
  refine h.bind (h.find key) fun found => ?_
  cases found with
  | none => exact hadd
  | some id => exact h.pure id

/-! ## What is added for one node -/

theorem classFor (h : Piecewise rule Q) (name : String) : Q (classFor name) :=
  h.findOrAdd (.factClass name) rfl
    (h.add _ _ ⟨by rintro _ _ ⟨⟩, rfl, by rintro _ ⟨⟩⟩)

theorem fieldFor (h : Piecewise rule Q) (pattern : PatternSite) (name : String) (line : Nat) :
    Q (fieldFor pattern name line) := by
  refine h.bind (h.find (.field pattern.factClass name)) fun found => ?_
  cases found with
  | none => exact h.add _ _ ⟨by rintro _ _ ⟨⟩, rfl, by rintro _ ⟨⟩; rfl⟩
  | some id =>
    by_cases hline : line ≠ 0
    · simp only [if_pos hline]
      exact h.bind (h.mention id line hline) fun _ => h.pure id
    · simp only [if_neg hline]
      exact h.pure id

theorem lowerOperand (h : Piecewise rule Q) (operand : Ast.Operand) :
    Q (lowerOperand rule operand) := by
  cases operand with
  | literal text => exact h.pure _
  | var identifier =>
    exact h.bind (h.varFor identifier) fun _ => h.pure _
  | returnValue content declarations method => exact h.pure _
  | qualified text =>
    refine h.bind (h.orFail _ _) fun split => ?_
    obtain ⟨name, path⟩ := split
    exact h.startPath name fun id => Graph.Operand.qualified id name path

theorem addVar (h : Piecewise rule Q) (parent : ComponentId) (name : String)
    (objectType : ComponentType) (object : ComponentId) (objectName : String) :
    Q (addVar rule parent name objectType object objectName) := by
  refine h.bind (h.add _ _ ⟨?_, rfl, by rintro _ ⟨⟩⟩) fun _ => h.pure _
  intro r name' hkey
  cases hkey
  rfl

end Piecewise

theorem Modular.lowerComparison {rule : RuleSite} {Q : {α : Type} → Walk α → Prop}
    (h : Modular rule Q) (pattern : PatternSite) (constraint : ConstraintSite)
    (parent : ComponentId) (symbol : String) (negated : Bool) (operand : Ast.Operand) :
    Q (lowerComparison rule pattern constraint parent symbol negated operand) := by
  refine h.bind (h.orFail _ _) fun operator => ?_
  exact h.bind (h.lowerOperand operand) fun _ => h.restrict _ _

section Relation

variable {rule : RuleSite}

theorem always_startPath {R : State → State → Prop} [Std.Refl R]
    (h : ∀ s name id, s.graph.findVar? rule.id name = some id →
      R s { s with graph := s.graph.modify id (onVar asField) })
    {α : Type} (name : String) (f : ComponentId → α) :
    Always R do
      let id ← varFor rule name
      modify id (onVar asField)
      return f id := by
  intro s
  cases hfind : s.graph.findVar? rule.id name with
  | none =>
    rw [bind_of_error (varFor_of_none hfind)]
    exact Std.Refl.refl s
  | some id =>
    rw [bind_of_ok (varFor_of_some hfind)]
    exact h s name id hfind

theorem always_keepPossibilities {R : State → State → Prop} [Std.Refl R]
    (h : ∀ s r possibilities,
      R s { s with graph := s.graph.addRulePossibilities r possibilities })
    (closed : Closed) : Always R (keepPossibilities closed) := by
  cases closed with
  | rule id possibilities => exact fun s => h s id possibilities
  | _ => exact always_pure _

theorem always_handOver {R : Graph → Graph → Prop} [Std.Refl R] [IsTrans Graph R]
    (h : ∀ g pattern possibilities, R g (g.addPatternPossibilities rule.id pattern possibilities))
    (closed : Closed) : Always (OnGraph R) (handOver rule closed) := by
  cases closed with
  | pattern id possibilities =>
    have hkeep : Always (OnGraph R) (keepPatternPossibilities rule.id id possibilities) :=
      fun s => h s.graph id possibilities
    exact always_bind hkeep fun ids => always_inScopes _ _
  | _ => exact always_pure _

/-- A relation between states holds along walks if it holds along the updates of the graph, what is
handed over to scopes, and scopes. -/
theorem compositional_always {R : State → State → Prop} [Std.Refl R] [IsTrans State R]
    (hupdate : ∀ s g, Update rule.id s.graph g → R s { s with graph := g })
    (hrestriction : ∀ id, Always R (inScopes rule (addRestriction id)))
    (hwithin : ∀ limits scope body, Always R body → Always R (within limits rule scope body))
    (hhand : ∀ closed, Always R (handOver rule closed)) : Compositional rule (Always R) where
  pure := always_pure
  bind := always_bind
  fail _ := always_throw _
  find _ := always_look _
  quantifier q := always_underQuantifier q
  add parent kind h s := hupdate s _ (.add parent kind h)
  fill id change h s := hupdate s _ (.fill id change h)
  mention field line h s := hupdate s _ (.mention field line h)
  settle field type h s := hupdate s _ (.settle field type h)
  startPath := always_startPath fun s name id hfind => hupdate s _ (.startPath id name hfind)
  restriction := hrestriction
  within limits scope {body} := hwithin limits scope body
  handOver := hhand
  keep := always_keepPossibilities fun s r possibilities =>
    hupdate s _ (.rulePossibilities r possibilities)

/-- **A relation between graphs holds along walks** if it holds along updates; it need not care for
scopes. -/
theorem compositional_onGraph {R : Graph → Graph → Prop} [Std.Refl R] [IsTrans Graph R]
    (h : ∀ g g', Update rule.id g g' → R g g') : Compositional rule (Always (OnGraph R)) := by
  refine compositional_always (fun s g => h s.graph g) (fun _ => always_inScopes _ _)
    (fun _ _ _ => always_within) ?_
  exact always_handOver fun g pattern possibilities =>
    h g _ (.patternPossibilities pattern possibilities)

end Relation

section Packages

variable {R : Graph → Graph → Prop} [Std.Refl R] [IsTrans Graph R] {limits : Limits}

theorem always_lowerPackage (hpackage : ∀ g p, R g (g.add none (.package p)))
    (hrule : ∀ package r, Always (OnGraph R) (lowerRule limits package r)) (p : Ast.Package) :
    Always (OnGraph R) (lowerPackage limits p) := by
  refine always_bind (always_findOrAdd (always_add fun g => hpackage g _)) fun id => ?_
  exact always_bind (always_lowerRules (hrule id) p.rules) fun _ => always_pure _

/-- **A relation between graphs holds along packages** if it holds along their rules. -/
theorem always_loadAll (hpackage : ∀ g p, R g (g.add none (.package p)))
    (hrule : ∀ package r, Always (OnGraph R) (lowerRule limits package r))
    (ps : List Ast.Package) : Always R (loadAll limits ps) := by
  have hload : ∀ p, Always R (load limits p) := by
    intro p g
    have hfinal := always_lowerPackage hpackage hrule p ⟨g, []⟩
    rw [load]
    cases hrun : lowerPackage limits p ⟨g, []⟩ <;> (rw [hrun] at hfinal; exact hfinal)
  induction ps with
  | nil => exact always_pure _
  | cons p rest ih =>
    exact always_bind (hload p) fun _ => always_bind ih fun _ => always_pure _

end Packages

end RuleBase.Analysis

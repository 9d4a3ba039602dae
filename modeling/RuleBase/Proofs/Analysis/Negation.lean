import RuleBase.Proofs.Analysis.Nodewise
import RuleBase.Proofs.Graph.Operators

/-!
# Walks with and without negation

A walk puts the operator of a comparison into its restriction and never looks at it again. So it
goes the same way through rules of which some comparisons are negated: it fails with the same error,
or it ends in the same state, but for the operators of these comparisons.

* `SideBySide`, `Parallel`: runs and computations that agree but for chosen operators;
  **`parallel_bind`**: one after another;
* **`parallel_lowerElement`**, `parallel_lowerRule`, `parallel_loadAll`: elements, rules and
  packages.
-/

namespace RuleBase.Analysis

open RuleBase.Graph Condition Ast

variable {σ α β : Type}

/-! ## Runs side by side -/

/-- A state without operators and without a journal. -/
def State.neutral (s : State) : State := { s with graph := s.graph.neutral }

/-- Two runs agree: both fail with the same error, or both end with the same result, in states that
agree but for the operators. These are the ones that some comparisons denote, and in the second run
the chosen ones are turned round. -/
inductive SideBySide (view : σ → State) (cs : List Comparison) (chosen : Choice) (s s' : σ) :
    EStateM.Result Error σ α → EStateM.Result Error σ α → Prop
  | ok {a : α} {t t' : σ} (new : List (ComponentId × Operator))
      (hneutral : (view t).neutral = (view t').neutral)
      (hnew : new.map (fun e => some e.2) = cs.map Comparison.operator?)
      (hoperators : (view t).graph.operators = (view s).graph.operators ++ new)
      (hoperators' : (view t').graph.operators =
        (view s').graph.operators ++ negateChosen chosen new) :
      SideBySide view cs chosen s s' (.ok a t) (.ok a t')
  | error {e : Error} {t t' : σ} : SideBySide view cs chosen s s' (.error e t) (.error e t')

/-- Two computations that meet some comparisons agree from states that do, but for the operators of
the chosen comparisons. -/
def Parallel (view : σ → State) (cs : List Comparison) (chosen : Choice)
    (x x' : EStateM Error σ α) : Prop :=
  ∀ s s', (view s).neutral = (view s').neutral → SideBySide view cs chosen s s' (x s) (x' s')

section Sequence

variable {view : σ → State} {cs cs' : List Comparison} {chosen : Choice}
  {x x' : EStateM Error σ α} {k k' : α → EStateM Error σ β}

theorem negateChosen_append {cs : List Comparison} {new : List (ComponentId × Operator)}
    (h : new.map (fun e => some e.2) = cs.map Comparison.operator?)
    (later : List (ComponentId × Operator)) :
    negateChosen chosen (new ++ later) =
      negateChosen chosen new ++ negateChosen (chosen.skip cs) later := by
  have hlength : new.length = cs.length := by simpa using congrArg List.length h
  rw [negateChosen, List.mapIdx_append, hlength]
  rfl

theorem SideBySide.trans {s s' t t' : σ} {a : α} {r r' : EStateM.Result Error σ β}
    (h : SideBySide view cs chosen s s' (.ok a t) (.ok a t'))
    (h' : SideBySide view cs' (chosen.skip cs) t t' r r') :
    SideBySide view (cs ++ cs') chosen s s' r r' := by
  cases h with
  | ok new _ hnew hoperators hoperators' =>
    cases h' with
    | error => exact .error
    | ok later hneutral hlater hlast hlast' =>
      refine .ok (new ++ later) hneutral ?_ ?_ ?_
      · rw [List.map_append, List.map_append, hnew, hlater]
      · rw [hlast, hoperators, List.append_assoc]
      · rw [hlast', hoperators', List.append_assoc, negateChosen_append hnew]

theorem SideBySide.of_ok {s s' t : σ} {a : α} {r : EStateM.Result Error σ α}
    (h : SideBySide view cs chosen s s' (.ok a t) r) :
    ∃ t', r = .ok a t' ∧ (view t).neutral = (view t').neutral := by
  cases h with
  | ok _ hneutral => exact ⟨_, rfl, hneutral⟩

theorem SideBySide.of_error {s s' t : σ} {e : Error} {r : EStateM.Result Error σ α}
    (h : SideBySide view cs chosen s s' (.error e t) r) : ∃ t', r = .error e t' := by
  cases h with
  | error => exact ⟨_, rfl⟩

theorem parallel_pure (a : α) : Parallel view [] chosen (pure a) (pure a) := fun _ _ h =>
  .ok [] h rfl (List.append_nil _).symm (List.append_nil _).symm

theorem parallel_throw (e : Error) :
    Parallel view cs chosen (throw e : EStateM Error σ α) (throw e) := fun _ _ _ => .error

/-- **Sequences go in parallel if their parts do**; what comes behind counts on. -/
theorem parallel_bind (hx : Parallel view cs chosen x x')
    (hk : ∀ a, Parallel view cs' (chosen.skip cs) (k a) (k' a)) :
    Parallel view (cs ++ cs') chosen (x >>= k) (x' >>= k') := by
  intro s s' hs
  have hfirst := hx s s' hs
  cases hrun : x s with
  | error e t =>
    rw [hrun] at hfirst
    obtain ⟨t', hrun'⟩ := hfirst.of_error
    rw [bind_of_error hrun, bind_of_error hrun']
    exact .error
  | ok a t =>
    rw [hrun] at hfirst
    obtain ⟨t', hrun', hneutral⟩ := hfirst.of_ok
    rw [hrun'] at hfirst
    rw [bind_of_ok hrun, bind_of_ok hrun']
    exact hfirst.trans (hk a t t' hneutral)

/-- What meets no comparison comes first. -/
theorem parallel_bind_right (hx : Parallel view [] chosen x x')
    (hk : ∀ a, Parallel view cs chosen (k a) (k' a)) :
    Parallel view cs chosen (x >>= k) (x' >>= k') :=
  parallel_bind hx hk

theorem parallel_bind_left (hx : Parallel view cs chosen x x')
    (hk : ∀ a, Parallel view [] (chosen.skip cs) (k a) (k' a)) :
    Parallel view cs chosen (x >>= k) (x' >>= k') := by
  have hboth := parallel_bind hx hk
  rwa [List.append_nil] at hboth

end Sequence

section Steady

variable {cs : List Comparison} {chosen : Choice} {rule : RuleSite}

/-- A walk meets no comparison and does not look at operators. -/
def Steady (x : Walk α) : Prop := ∀ chosen, Parallel id [] chosen x x

theorem steady_pure (a : α) : Steady (pure a) := fun _ => parallel_pure a

theorem steady_bind {x : Walk α} {k : α → Walk β} (hx : Steady x) (hk : ∀ a, Steady (k a)) :
    Steady (x >>= k) := fun chosen => parallel_bind_right (hx chosen) fun a => hk a chosen

/-- A step on the graph that does not look at operators, and leaves them as they are. -/
theorem steady_extend {f : Graph → α × Graph} (h : ∀ g, f g.neutral = ((f g).1, (f g).2.neutral))
    (hoperators : ∀ g, (f g).2.operators = g.operators) : Steady (extend f) := by
  intro chosen s s' hs
  obtain ⟨g, scopes⟩ := s
  obtain ⟨g', scopes'⟩ := s'
  simp only [id, State.neutral, State.mk.injEq] at hs
  obtain ⟨hgraph, rfl⟩ := hs
  have hsame : ((f g).1, (f g).2.neutral) = ((f g').1, (f g').2.neutral) := by
    rw [← h, ← h, hgraph]
  obtain ⟨hresult, hneutral⟩ := Prod.mk.inj hsame
  have hrun : extend f ⟨g', scopes⟩ = .ok (f g).1 ⟨(f g').2, scopes⟩ := by rw [hresult]; rfl
  rw [hrun]
  refine .ok [] (by simp only [id, State.neutral, hneutral]) rfl ?_ ?_
  · exact (hoperators g).trans (List.append_nil _).symm
  · exact (hoperators g').trans (List.append_nil _).symm

theorem steady_look {f : Graph → α} (h : ∀ g, f g.neutral = f g) : Steady (look f) :=
  steady_extend (f := fun g => (f g, g)) (fun g => by rw [h]) fun _ => rfl

theorem steady_add (parent : Option ComponentId) {kind : Kind} (h : kind.operator? = none) :
    Steady (add parent kind) := by
  refine steady_extend (fun g => ?_) fun g => operators_add g parent h
  have hneutral := neutral_add g parent kind
  rw [Kind.neutral, Kind.mapOperator_of_none h] at hneutral
  rw [hneutral]
  simp [nextId, neutral, mapOperators, commit]

theorem steady_modify (id : ComponentId) {change : Kind → Kind} (h : Change change) :
    Steady (modify id change) := by
  refine steady_extend (fun g => ?_) fun g => ofKind_modify g id fun k => ?_
  · rw [neutral_modify g id fun k => ?_]
    cases h <;> cases k <;> rfl
  · rw [Kind.operator?, h.restriction?_eq, Kind.operator?]

theorem steady_inScopes (rule : RuleSite) (step : Scoping α) : Steady (inScopes rule step) := by
  intro chosen s s' hs
  obtain ⟨g, scopes⟩ := s
  obtain ⟨g', scopes'⟩ := s'
  simp only [id, State.neutral, State.mk.injEq] at hs
  obtain ⟨hgraph, rfl⟩ := hs
  rw [inScopes, inScopes]
  cases step scopes with
  | error e rest => exact .error
  | ok a rest =>
    exact .ok [] (by simp only [id, State.neutral, hgraph]) rfl (List.append_nil _).symm
      (List.append_nil _).symm

/-- **A scope.** -/
theorem parallel_within (limits : Limits) (rule : RuleSite) (scope : Scope) {body body' : Walk Unit}
    (h : Parallel id cs chosen body body') :
    Parallel id cs chosen (within limits rule scope body) (within limits rule scope body') := by
  refine parallel_bind_right (steady_inScopes rule _ chosen) fun token s s' hs => ?_
  have hinside := h s s' hs
  cases hrun : body s with
  | error e t =>
    rw [hrun] at hinside
    obtain ⟨t', hrun'⟩ := hinside.of_error
    simp only [hrun']
    exact .error
  | ok u t =>
    rw [hrun] at hinside
    obtain ⟨t', hrun', hneutral⟩ := hinside.of_ok
    rw [hrun'] at hinside
    simp only [hrun']
    have hboth := hinside.trans (steady_inScopes rule (leave limits token) _ t t' hneutral)
    rwa [List.append_nil] at hboth

theorem parallel_descend_bind {limits : Limits} {site : Site} {k k' : Site → Walk α}
    (hk : ∀ depth, Parallel id cs chosen (k { site with depth }) (k' { site with depth })) :
    Parallel id cs chosen (descend limits site >>= k) (descend limits site >>= k') := by
  by_cases hdeep : limits.maxNestingDepth < site.depth + 1
  · rw [descend, if_pos hdeep]
    exact parallel_throw _
  · rw [descend, if_neg hdeep]
    exact hk _

theorem steady_varFor (rule : RuleSite) (name : String) : Steady (varFor rule name) := by
  refine steady_bind (steady_look fun _ => rfl) fun found => ?_
  cases found with
  | none => exact fun _ => parallel_throw _
  | some id => exact steady_pure id

/-- **All walks without comparisons.** -/
theorem piecewise_steady (rule : RuleSite) : Piecewise rule Steady where
  pure := steady_pure
  bind := steady_bind
  fail _ _ := parallel_throw _
  find key := steady_look fun _ => rfl
  quantifier q chosen s s' hs := by
    have hscopes : s.neutral.scopes = s'.neutral.scopes := congrArg State.scopes hs
    have hsame : s.scopes = s'.scopes := hscopes
    have hrun : underQuantifier q s' = .ok (quantifiedBy q s.scopes) s' := by rw [hsame]; rfl
    rw [hrun]
    exact .ok [] hs rfl (List.append_nil _).symm (List.append_nil _).symm
  add parent kind h := steady_add parent (by rw [Kind.operator?, h.restriction?_eq]; rfl)
  fill id change h := steady_modify id h.change
  mention field line _ := steady_modify field (.mention line)
  startPath name f :=
    steady_bind (steady_varFor rule name) fun id =>
      steady_bind (steady_modify id .asField) fun _ => steady_pure _
  within limits scope {body} h chosen := parallel_within limits rule scope (h chosen)
  handOver closed := by
    cases closed with
    | pattern id possibilities =>
      have hkeep : Steady (keepPatternPossibilities rule.id id possibilities) :=
        steady_extend (fun _ => rfl) fun _ => rfl
      exact steady_bind hkeep fun _ => steady_inScopes rule _
    | _ => exact steady_pure _
  keep closed := by
    cases closed with
    | rule id possibilities =>
      have hkeep : Steady (keepRulePossibilities id possibilities) :=
        steady_extend (fun _ => rfl) fun _ => rfl
      exact hkeep
    | _ => exact steady_pure _

end Steady

section Comparisons

variable {chosen : Choice} {limits : Limits}

theorem parallel_add_restriction (p : ComponentId) {c : Comparison} {r : Graph.Restriction}
    {o : Operator} (hr : c.operator? = some r.operator)
    (ho : o = if chosen 0 then r.operator.negate else r.operator) :
    Parallel id [c] chosen (add (some p) (.restriction r))
      (add (some p) (.restriction { r with operator := o })) := by
  intro s s' hs
  obtain ⟨g, scopes⟩ := s
  obtain ⟨g', scopes'⟩ := s'
  simp only [id, State.neutral, State.mk.injEq] at hs
  obtain ⟨hgraph, rfl⟩ := hs
  have hnext : g.nextId = g'.nextId := by
    simpa [neutral, mapOperators, commit, nextId] using congrArg nextId hgraph
  have hrun : add (some p) (.restriction { r with operator := o }) ⟨g', scopes⟩ =
      .ok g.nextId ⟨g'.add (some p) (.restriction { r with operator := o }), scopes⟩ := by
    rw [hnext]
    rfl
  rw [hrun]
  refine .ok [(g.nextId, r.operator)] ?_ (by simp [hr]) (ofKind_add ..) ?_
  · simp only [id, State.neutral, neutral_add, hgraph]
    rfl
  · have hadded : (g'.add (some p) (.restriction { r with operator := o })).operators =
        g'.operators ++ [(g'.nextId, o)] := ofKind_add ..
    refine hadded.trans (congrArg (g'.operators ++ ·) ?_)
    rw [ho, hnext, negateChosen, List.mapIdx_cons, List.mapIdx_nil]
    cases chosen 0 <;> rfl

/-- **A comparison, perhaps negated.** -/
theorem parallel_lowerComparison (rule : RuleSite) (pattern : PatternSite)
    (constraint : ConstraintSite) (p : ComponentId) (symbol : String) (negated : Bool)
    (operand : Ast.Operand) :
    Parallel id [⟨symbol, negated⟩] chosen
      (lowerComparison rule pattern constraint p symbol negated operand)
      (lowerComparison rule pattern constraint p symbol (negated ^^ chosen 0) operand) := by
  have hsteady := piecewise_steady rule
  have hother : Operator.determine? symbol (negated ^^ chosen 0) =
      (Operator.determine? symbol negated).map fun o => if chosen 0 then o.negate else o := by
    cases chosen 0 <;> simp [Operator.determine?_not]
  rw [lowerComparison, lowerComparison, operatorFor, operatorFor, hother]
  cases hoperator : Operator.determine? symbol negated with
  | none => exact fun _ _ _ => .error
  | some o =>
    change Parallel id _ chosen (lowerOperand rule operand >>= _) (lowerOperand rule operand >>= _)
    refine parallel_bind_right (hsteady.lowerOperand operand chosen) fun operand' => ?_
    refine parallel_bind_left (parallel_add_restriction p hoperator rfl) fun id => ?_
    refine steady_bind ?_ (fun _ => steady_inScopes rule _) _
    exact hsteady.placing.toBranching.settleType (fun _ _ t => steady_modify _ (.refine t)) p _ _

mutual
theorem parallel_lowerRestriction (site : Site) (p : ComponentId) (chosen : Choice)
    (r : Ast.Restriction) :
    Parallel id r.comparisons chosen (lowerRestriction limits site p r)
      (lowerRestriction limits site p (r.negateAt chosen)) := by
  have hsite : ∀ node, Steady (site.constraint node) :=
    (piecewise_steady site.rule).placing.site_constraint p
  cases r with
  | comparison symbol negated operand =>
    have hnegate : (Ast.Restriction.comparison symbol negated operand).negateAt chosen =
        .comparison symbol (negated ^^ chosen 0) operand := by
      rw [Ast.Restriction.negateAt]
      cases chosen 0 <;> simp [Ast.Restriction.negate]
    rw [hnegate, Ast.Restriction.comparisons, lowerRestriction, lowerRestriction]
    refine parallel_bind_right (hsite _ chosen) fun place => ?_
    exact parallel_lowerComparison site.rule _ _ p symbol negated operand
  | group connective restrictions =>
    rw [Ast.Restriction.negateAt, Ast.Restriction.comparisons, lowerRestriction, lowerRestriction]
    refine parallel_bind_right (hsite _ chosen) fun _ => parallel_descend_bind fun depth => ?_
    have hinside := parallel_lowerRestrictions { site with depth } p chosen restrictions
    exact parallel_bind_left (parallel_within limits _ _ hinside) fun _ => parallel_pure _
  | unknown =>
    rw [Ast.Restriction.negateAt, Ast.Restriction.comparisons, lowerRestriction]
    exact steady_bind (hsite _) (fun _ => steady_pure _) chosen

theorem parallel_lowerRestrictions (site : Site) (p : ComponentId) (chosen : Choice)
    (rs : List Ast.Restriction) :
    Parallel id (Ast.Restriction.comparisonsIn rs) chosen (lowerRestrictions limits site p rs)
      (lowerRestrictions limits site p (Ast.Restriction.negateIn chosen rs)) := by
  cases rs with
  | nil => exact parallel_pure _
  | cons r rest =>
    rw [Ast.Restriction.comparisonsIn, Ast.Restriction.negateIn, lowerRestrictions,
      lowerRestrictions]
    exact parallel_bind (parallel_lowerRestriction site p chosen r) fun _ =>
      parallel_lowerRestrictions site p _ rest
end

/-! ## Elements -/

mutual
/-- **An element with some comparisons negated.** -/
theorem parallel_lowerElement (site : Site) (p : ComponentId) (chosen : Choice)
    (e : Ast.Element) :
    Parallel id e.comparisons chosen (lowerElement limits site p e)
      (lowerElement limits site p (e.negateAt chosen)) := by
  have hsteady := piecewise_steady site.rule
  have hsite : ∀ node, Steady (site.pattern node) := hsteady.placing.site_pattern p
  cases e with
  | pattern pattern =>
    rw [Ast.Element.negateAt, Ast.Element.comparisons, lowerElement, lowerElement]
    exact parallel_bind_left (parallel_lowerPattern site p chosen pattern) fun _ =>
      parallel_pure _
  | group connective elements =>
    rw [Ast.Element.negateAt, Ast.Element.comparisons, lowerElement, lowerElement]
    refine parallel_descend_bind fun depth => ?_
    refine parallel_bind_right (hsteady.node (some p) rfl rfl chosen) fun id => ?_
    have hinside := parallel_lowerElements { site with depth } id chosen elements
    exact parallel_bind_left (parallel_within limits _ _ hinside) fun _ => parallel_pure _
  | quantified q elements =>
    rw [Ast.Element.negateAt, Ast.Element.comparisons, lowerElement, lowerElement]
    refine parallel_descend_bind fun depth => ?_
    have hinside := parallel_lowerElements { site with depth } p chosen elements
    exact parallel_bind_left (parallel_within limits _ _ hinside) fun _ => parallel_pure _
  | constraint fieldName restrictions line =>
    rw [Ast.Element.negateAt, Ast.Element.comparisons, lowerElement, lowerElement]
    refine parallel_bind_right (hsite _ chosen) fun pattern => ?_
    refine parallel_bind_right (hsteady.fieldFor pattern fieldName line chosen) fun field => ?_
    refine parallel_bind_right (hsteady.node (some p) rfl rfl chosen) fun id => ?_
    exact parallel_lowerRestrictions { site with constraint? := some ⟨id, field⟩ } id chosen
      restrictions
  | eval content method =>
    rw [Ast.Element.negateAt, Ast.Element.comparisons, lowerElement]
    exact steady_bind (hsteady.node (some p) rfl rfl) (fun _ => steady_pure _) chosen
  | predicate content method =>
    rw [Ast.Element.negateAt, Ast.Element.comparisons, lowerElement]
    refine steady_bind (hsite _) (fun _ => ?_) chosen
    exact steady_bind (hsteady.node (some p) rfl rfl) fun _ => steady_pure _
  | binding identifier fieldName line =>
    rw [Ast.Element.negateAt, Ast.Element.comparisons, lowerElement]
    exact steady_bind (hsite _)
      (fun pattern => hsteady.placing.binding p pattern identifier fieldName line) chosen
  | unknown =>
    rw [Ast.Element.negateAt, Ast.Element.comparisons, lowerElement]
    exact parallel_pure _

theorem parallel_lowerElements (site : Site) (p : ComponentId) (chosen : Choice)
    (es : List Ast.Element) :
    Parallel id (Ast.Element.comparisonsIn es) chosen (lowerElements limits site p es)
      (lowerElements limits site p (Ast.Element.negateIn chosen es)) := by
  cases es with
  | nil =>
    rw [Ast.Element.comparisonsIn, Ast.Element.negateIn, lowerElements]
    exact parallel_pure _
  | cons e rest =>
    rw [Ast.Element.comparisonsIn, Ast.Element.negateIn, lowerElements, lowerElements]
    exact parallel_bind (parallel_lowerElement site p chosen e) fun _ =>
      parallel_lowerElements site p _ rest

theorem parallel_lowerPattern (site : Site) (p : ComponentId) (chosen : Choice)
    (pattern : Ast.Pattern) :
    Parallel id pattern.comparisons chosen (lowerPattern limits site p pattern)
      (lowerPattern limits site p (pattern.negateAt chosen)) := by
  obtain ⟨objectType, identifier, source, constraints, line⟩ := pattern
  have hsteady := piecewise_steady site.rule
  rw [Ast.Pattern.negateAt, Ast.Pattern.comparisons, lowerPattern, lowerPattern]
  refine parallel_descend_bind fun depth => ?_
  refine parallel_bind_right (hsteady.classFor objectType chosen) fun factClass => ?_
  refine parallel_bind_right (hsteady.quantifier _ chosen) fun isNot => ?_
  refine parallel_bind_right (hsteady.quantifier _ chosen) fun isExists => ?_
  refine parallel_bind_right (hsteady.quantifier _ chosen) fun isForall => ?_
  refine parallel_bind_right (hsteady.node (some p) rfl rfl chosen) fun id => ?_
  refine parallel_bind_right (hsteady.placing.bindPattern id factClass objectType identifier chosen)
    fun _ => ?_
  -- the source comes first, and the constraints count on from it
  refine parallel_bind (parallel_lowerSource? { site with depth } id chosen source) fun reference =>
    parallel_bind_right (hsteady.placing.attach id .source reference _) fun _ => ?_
  let inner : Site :=
    { site with
      depth, pattern? := some ⟨id, factClass, objectType, isNot⟩, constraint? := none }
  have hinside := parallel_lowerElements inner id
    (chosen.skip (Ast.Source.comparisons? source)) constraints
  refine parallel_bind_left (parallel_within limits _ _ hinside) fun closed => ?_
  exact steady_bind (hsteady.handOver closed) (fun _ => steady_pure _) _

theorem parallel_lowerSource? (site : Site) (p : ComponentId) (chosen : Choice)
    (source : Option Ast.Source) :
    Parallel id (Ast.Source.comparisons? source) chosen (lowerSource? limits site p source)
      (lowerSource? limits site p (Ast.Source.negateAt? chosen source)) := by
  cases source with
  | none =>
    rw [Ast.Source.negateAt?, Ast.Source.comparisons?, lowerSource?]
    exact parallel_pure _
  | some source =>
    rw [Ast.Source.negateAt?, Ast.Source.comparisons?, lowerSource?, lowerSource?]
    exact parallel_lowerSource site p chosen source

theorem parallel_lowerSource (site : Site) (p : ComponentId) (chosen : Choice)
    (source : Ast.Source) :
    Parallel id source.comparisons chosen (lowerSource limits site p source)
      (lowerSource limits site p (source.negateAt chosen)) := by
  have hsteady := piecewise_steady site.rule
  cases source with
  | accumulate input code =>
    rw [Ast.Source.negateAt, Ast.Source.comparisons, lowerSource, lowerSource]
    refine parallel_descend_bind fun depth => ?_
    refine parallel_bind_right (hsteady.node (some p) rfl rfl chosen) fun id => ?_
    refine parallel_bind_left (parallel_lowerPattern { site with depth } id chosen input)
      fun pattern => ?_
    exact steady_bind (hsteady.fill id _ (.input pattern)) (fun _ => steady_pure _) _
  | collect input method =>
    rw [Ast.Source.negateAt, Ast.Source.comparisons, lowerSource, lowerSource]
    refine parallel_descend_bind fun depth => ?_
    refine parallel_bind_right (hsteady.node (some p) rfl rfl chosen) fun id => ?_
    refine parallel_bind_left (parallel_lowerPattern { site with depth } id chosen input)
      fun pattern => ?_
    exact steady_bind (hsteady.fill id _ (.input pattern)) (fun _ => steady_pure _) _
  | supplied dataSource =>
    rw [Ast.Source.negateAt, Ast.Source.comparisons, lowerSource]
    refine parallel_descend_bind fun depth => ?_
    refine steady_bind (hsteady.node (some p) rfl rfl) (fun id => ?_) chosen
    have hinvoker : Steady (lowerInvoker limits { site with depth } id dataSource) :=
      hsteady.placing.toBranching.lowerInvoker limits { site with depth } id dataSource
    refine steady_bind hinvoker fun reference => ?_
    exact steady_bind (hsteady.placing.attach id .dataSource reference) fun _ => steady_pure _
  | unknown =>
    rw [Ast.Source.negateAt, Ast.Source.comparisons, lowerSource]
    exact parallel_descend_bind fun _ => parallel_pure _
end

/-! ## Rules and packages -/

theorem parallel_lowerRule (package : ComponentId) (chosen : Choice) (r : Ast.Rule) :
    Parallel id r.comparisons chosen (lowerRule limits package r)
      (lowerRule limits package (r.negateAt chosen)) := by
  refine parallel_bind_right (steady_add (some package) rfl chosen) fun id => ?_
  have hsteady := piecewise_steady ⟨id, r.name, r.line⟩
  let site : Site := { rule := ⟨id, r.name, r.line⟩ }
  have hlhs : Parallel _ r.comparisons chosen (lowerElements limits site id r.lhs)
      (lowerElements limits site id (r.negateAt chosen).lhs) :=
    parallel_lowerElements site id chosen r.lhs
  refine parallel_bind_left (parallel_within limits _ _ hlhs) fun closed => ?_
  refine steady_bind (hsteady.keep closed) (fun _ => ?_) _
  exact steady_bind (hsteady.node (some id) rfl rfl) fun consequence =>
    hsteady.fill id _ (.consequence consequence)

theorem parallel_lowerRules (package : ComponentId) (chosen : Choice) (rs : List Ast.Rule) :
    Parallel id (rs.flatMap Ast.Rule.comparisons) chosen (lowerRules limits package rs)
      (lowerRules limits package (Ast.Rule.negateIn chosen rs)) := by
  induction rs generalizing chosen with
  | nil => exact parallel_pure _
  | cons r rest ih =>
    exact parallel_bind (parallel_lowerRule package chosen r) fun _ => ih _

theorem steady_packageFor (name : String) : Steady (packageFor name) := by
  refine steady_bind (steady_look fun _ => rfl) fun found => ?_
  cases found with
  | none => exact steady_add none rfl
  | some id => exact steady_pure id

/-- The state of a walk that loads a package. -/
abbrev loading (g : Graph) : State := ⟨g, []⟩

theorem parallel_load (chosen : Choice) (p : Ast.Package) :
    Parallel loading p.comparisons chosen (load limits p) (load limits (p.negateAt chosen)) := by
  have hpackage : Parallel id p.comparisons chosen (lowerPackage limits p)
      (lowerPackage limits (p.negateAt chosen)) :=
    parallel_bind_right (steady_packageFor p.name chosen) fun id =>
      parallel_bind_left (parallel_lowerRules id chosen p.rules) fun _ => parallel_pure _
  intro g g' hg
  have hruns := hpackage ⟨g, []⟩ ⟨g', []⟩ hg
  rw [load, load]
  cases hrun : lowerPackage limits p ⟨g, []⟩ with
  | error e s =>
    rw [hrun] at hruns
    obtain ⟨s', hrun'⟩ := hruns.of_error
    rw [hrun']
    exact .error
  | ok id s =>
    rw [hrun] at hruns
    obtain ⟨s', hrun', -⟩ := hruns.of_ok
    rw [hrun'] at hruns ⊢
    cases hruns with
    | ok new hneutral hnew hoperators hoperators' =>
      refine .ok new ?_ hnew hoperators hoperators'
      exact congrArg (fun s : State => (⟨s.graph, []⟩ : State)) hneutral

/-- **Packages with some comparisons negated.** -/
theorem parallel_loadAll (limits : Limits) (chosen : Choice) (ps : List Ast.Package) :
    Parallel loading (ps.flatMap Ast.Package.comparisons) chosen (loadAll limits ps)
      (loadAll limits (Ast.Package.negateIn chosen ps)) := by
  induction ps generalizing chosen with
  | nil => exact parallel_pure _
  | cons p rest ih =>
    refine parallel_bind (parallel_load chosen p) fun id => ?_
    exact parallel_bind_left (ih _) fun _ => parallel_pure _

end Comparisons

end RuleBase.Analysis

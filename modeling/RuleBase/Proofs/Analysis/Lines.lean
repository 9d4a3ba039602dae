import RuleBase.Proofs.Analysis.Nodewise
import RuleBase.Proofs.Graph.Lines

/-!
# Walks that mention fields

A walk that succeeds has mentioned fields in the order in which their constraints and bindings are
read. Most of its steps mention none; what mentions some finds the class of its pattern, which has
been found by its name before.

* `mentions_bind`, `mentions_classFor_bind`, **`mentions_fieldFor`**: sequences, classes and fields;
* **`mentions_lowerElement`**, `mentions_lowerPattern`, `mentions_lowerSource`: elements mention
  fields in reading order; `lined_loadAll`: so do packages.
-/

namespace RuleBase.Analysis

open RuleBase.Graph Condition

/-! ## Steps -/

/-- A walk that succeeds mentions fields, wherever the given classes are found by their names. -/
def Mentions {α : Type} (classes : List (String × ComponentId)) (x : Walk α)
    (ms : List Ast.Mention) : Prop :=
  ∀ before s a s', Lined classes before s.graph → x s = .ok a s' →
    Lined classes (before ++ ms) s'.graph

variable {α β : Type} {classes : List (String × ComponentId)} {ms ms' : List Ast.Mention}
  {x : Walk α} {k : α → Walk β}

/-- **A sequence mentions what its parts do**, one after the other. -/
theorem mentions_bind (hx : Mentions classes x ms) (hk : ∀ a, Mentions classes (k a) ms') :
    Mentions classes (x >>= k) (ms ++ ms') := by
  intro before s b s'' h hrun
  obtain ⟨a, s', hfirst, hrest⟩ := bind_eq_ok hrun
  rw [← List.append_assoc]
  exact hk a _ s' b s'' (hx before s a s' h hfirst) hrest

theorem mentions_silent_bind (hx : Mentions classes x []) (hk : ∀ a, Mentions classes (k a) ms) :
    Mentions classes (x >>= k) ms :=
  mentions_bind hx hk

theorem mentions_bind_silent (hx : Mentions classes x ms) (hk : ∀ a, Mentions classes (k a) []) :
    Mentions classes (x >>= k) ms := by
  have hboth := mentions_bind hx hk
  rwa [List.append_nil] at hboth

theorem mentions_nothing
    (h : ∀ ms s a s', Lined classes ms s.graph → x s = .ok a s' → Lined classes ms s'.graph) :
    Mentions classes x [] := by
  intro before s a s' hlined hrun
  rw [List.append_nil]
  exact h before s a s' hlined hrun

theorem mentions_of_graph_eq (h : ∀ s a s', x s = .ok a s' → s'.graph = s.graph) :
    Mentions classes x [] :=
  mentions_nothing fun _ s a s' hlined hrun => h s a s' hrun ▸ hlined

theorem mentions_pure (a : α) : Mentions classes (pure a) [] :=
  mentions_of_graph_eq fun _ _ _ hrun => by cases hrun; rfl

theorem mentions_orFail {rule : RuleSite} {fault : Fault} {o : Option α} :
    Mentions classes (orFail rule fault o) [] :=
  mentions_of_graph_eq fun _ _ _ hrun => by rw [(orFail_eq_ok hrun).2]

theorem mentions_orFail_bind {rule : RuleSite} {fault : Fault} {o : Option α}
    (hk : ∀ a, o = some a → Mentions classes (k a) ms) :
    Mentions classes (orFail rule fault o >>= k) ms := by
  intro before s b s' hlined hrun
  obtain ⟨a, s₁, hfirst, hrest⟩ := bind_eq_ok hrun
  obtain ⟨hvalue, rfl⟩ := orFail_eq_ok hfirst
  exact hk a hvalue before s₁ b s' hlined hrest

theorem mentions_descend_bind {limits : Limits} {site : Site} {k : Site → Walk β}
    (hk : ∀ depth, Mentions classes (k { site with depth }) ms) :
    Mentions classes (descend limits site >>= k) ms := by
  intro before s b s' hlined hrun
  obtain ⟨_, s₁, hfirst, hrest⟩ := bind_eq_ok hrun
  obtain ⟨⟨depth, rfl⟩, rfl⟩ := descend_eq_ok hfirst
  exact hk depth before s₁ b s' hlined hrest

theorem mentions_inScopes (rule : RuleSite) (step : Scoping α) :
    Mentions classes (inScopes rule step) [] :=
  mentions_of_graph_eq fun _ _ _ hrun => by
    obtain ⟨scopes, -, rfl⟩ := inScopes_eq_ok hrun
    rfl

theorem mentions_underQuantifier (q : Quantifier) : Mentions classes (underQuantifier q) [] :=
  mentions_of_graph_eq fun _ _ _ hrun => by rw [(underQuantifier_eq_ok hrun).2]

theorem mentions_within {limits : Limits} {rule : RuleSite} {scope : Scope} {body : Walk Unit}
    (hbody : Mentions classes body ms) : Mentions classes (within limits rule scope body) ms := by
  intro before s closed s' hlined hrun
  obtain ⟨frame, s₁, -, hinside, scopes, -, rfl⟩ := within_eq_ok hrun
  exact hbody before { s with scopes := frame :: s.scopes } () s₁ hlined hinside

theorem mentions_handOver (rule : RuleSite) (closed : Closed) :
    Mentions classes (handOver rule closed) [] := by
  cases closed with
  | pattern id possibilities =>
    refine mentions_silent_bind (mentions_nothing fun ms s a s' hlined hrun => ?_) fun ids =>
      mentions_inScopes rule _
    cases hrun
    exact hlined.of_eq rfl rfl rfl
  | _ => exact mentions_pure ()

theorem mentions_add (parent : Option ComponentId) {kind : Kind} (hfield : kind.field? = none) :
    Mentions classes (add parent kind) [] :=
  mentions_nothing fun ms s a s' hlined hrun => by
    cases hrun
    exact hlined.add parent hfield

theorem mentions_modify (id : ComponentId) {change : Kind → Kind}
    (hkey : ∀ k, (change k).key? = k.key?)
    (hfield : ∀ k, (change k).field?.map (fun f => (f.factClass, f.className, f.name, f.line)) =
      k.field?.map fun f => (f.factClass, f.className, f.name, f.line)) :
    Mentions classes (modify id change) [] :=
  mentions_nothing fun ms s a s' hlined hrun => by
    cases hrun
    exact hlined.modify id hkey hfield

theorem mentions_fill (id : ComponentId) {change : Kind → Kind} (hfill : Fill change) :
    Mentions classes (modify id change) [] :=
  mentions_modify id hfill.change.key?_eq fun k => by cases hfill <;> cases k <;> rfl

theorem mentions_attach (id : ComponentId) {change : Option Reference → Kind → Kind}
    (hchange : ∀ reference, Fill (change reference)) (reference : Option Reference) :
    Mentions classes (attach id change reference) [] := by
  cases reference with
  | none => exact mentions_pure ()
  | some reference => exact mentions_fill id (hchange _)

theorem mentions_classFor_bind {name : String} {k : ComponentId → Walk β}
    (hk : ∀ id, Mentions ((name, id) :: classes) (k id) ms) :
    Mentions classes (classFor name >>= k) ms := by
  intro before s b s' hlined hrun
  obtain ⟨id, s₁, hclass, hrest⟩ := bind_eq_ok hrun
  have hclasses : Lined ((name, id) :: classes) before s₁.graph := by
    obtain ⟨hfind, rfl⟩ | ⟨hnone, rfl, rfl⟩ := findOrAdd_eq_ok hclass
    · exact { hlined with
        classes_found := List.forall_mem_cons.mpr ⟨hfind, hlined.classes_found⟩ }
    · exact hlined.addClass hnone
  exact (hk id before s₁ b s' hclasses hrest).of_subset (List.subset_cons_self _ _)

/-- **A field is mentioned**, whether it is new or not. -/
theorem mentions_fieldFor {pattern : PatternSite}
    (hclass : (pattern.className, pattern.factClass) ∈ classes) (name : String) (line : Nat) :
    Mentions classes (fieldFor pattern name line) [⟨pattern.className, name, line⟩] := by
  intro before s field s' hlined hrun
  cases hfind : s.graph.findField? pattern.factClass name with
  | none =>
    rw [fieldFor_of_none hfind] at hrun
    cases hrun
    exact hlined.addField hclass hfind line .unknown
  | some other =>
    rw [fieldFor_of_some hfind] at hrun
    cases hrun
    by_cases hline : line = 0
    · subst hline
      exact hlined.mention_zero hclass hfind
    · simp only [ne_eq, hline, not_false_eq_true, if_true]
      exact hlined.mention hclass hfind line

/-! ## Comparisons and invokers -/

theorem mentions_varFor (rule : RuleSite) (name : String) :
    Mentions classes (varFor rule name) [] :=
  mentions_silent_bind (mentions_of_graph_eq fun _ _ _ hrun => by cases hrun; rfl) fun _ =>
    mentions_orFail

theorem branching_mentions (rule : RuleSite) (classes : List (String × ComponentId)) :
    Branching rule fun _ {_} x => Mentions classes x [] where
  pure _ _ := mentions_pure
  bind _ _ _ _ _ := mentions_silent_bind
  fail _ _ _ := fun _ _ _ _ _ hrun => by cases hrun
  node p _ kind _ hkey _ hk := by
    refine mentions_silent_bind (mentions_add (some p) ?_) hk
    cases kind <;> first | rfl | cases hkey

/-- **Comparisons and invokers mention no fields.** -/
theorem restricting_mentions (rule : RuleSite) (classes : List (String × ComponentId)) :
    Restricting rule fun _ {_} x => Mentions classes x [] where
  toBranching := branching_mentions rule classes
  within _ _ _ _ := mentions_within
  compare := by
    refine (branching_mentions rule classes).lowerComparison (fun _ => mentions_varFor rule)
      (fun _ id => ?_) (fun p _ => mentions_add (some p) rfl) (fun _ field t => ?_)
      fun _ _ => mentions_inScopes rule _
    · exact mentions_modify id Change.asField.key?_eq fun k => by cases k <;> rfl
    · exact mentions_modify field (Change.refine t).key?_eq fun k => by cases k <;> rfl

/-! ## Elements -/

theorem mentions_addVar (rule : RuleSite) (p : ComponentId) (name : String)
    (objectType : ComponentType) (object : ComponentId) (objectName : String) :
    Mentions classes (addVar rule p name objectType object objectName) [] :=
  mentions_silent_bind (mentions_add (some p) rfl) fun _ => mentions_pure ()

theorem mentions_bindPattern (rule : RuleSite) (p factClass : ComponentId) (objectType : String)
    (identifier : Option String) :
    Mentions classes (bindPattern rule p factClass objectType identifier) [] := by
  cases identifier with
  | none => exact mentions_pure ()
  | some name => exact mentions_addVar rule p name .factClass factClass objectType

/-- The class of the pattern that a walk is in is found by its name. -/
def Site.NamesClassIn (site : Site) (classes : List (String × ComponentId)) : Prop :=
  ∀ pattern, site.pattern? = some pattern → (pattern.className, pattern.factClass) ∈ classes

theorem Site.NamesClassIn.cons {site : Site} (h : site.NamesClassIn classes)
    (c : String × ComponentId) : site.NamesClassIn (c :: classes) :=
  fun pattern hpattern => List.mem_cons_of_mem c (h pattern hpattern)

theorem mentions_pattern_bind {site : Site} (hsite : site.NamesClassIn classes) {node : Inner}
    {name : String} {line : Nat} {k : PatternSite → ComponentId → Walk β}
    (hk : ∀ pattern field, Mentions classes (k pattern field) []) :
    Mentions classes (do
        let pattern ← site.pattern node
        let field ← fieldFor pattern name line
        k pattern field)
      ((site.pattern?.map (·.className)).toList.map (⟨·, name, line⟩)) := by
  refine mentions_orFail_bind fun pattern hpattern => ?_
  rw [hpattern]
  exact mentions_bind_silent (mentions_fieldFor (hsite pattern hpattern) name line) (hk pattern)

mutual
/-- **An element mentions its fields in reading order.** -/
theorem mentions_lowerElement (limits : Limits) (site : Site) (p : ComponentId)
    (classes : List (String × ComponentId)) (hsite : site.NamesClassIn classes)
    (e : Ast.Element) :
    Mentions classes (lowerElement limits site p e)
      (e.mentions (site.pattern?.map (·.className))) := by
  cases e with
  | pattern pattern =>
    rw [lowerElement, Ast.Element.mentions]
    exact mentions_bind_silent (mentions_lowerPattern limits site p classes hsite pattern)
      fun _ => mentions_pure ()
  | group connective elements =>
    rw [lowerElement, Ast.Element.mentions]
    refine mentions_descend_bind fun depth => ?_
    refine mentions_silent_bind (mentions_add (some p) rfl) fun id => ?_
    have hinside := mentions_lowerElements limits { site with depth } id classes hsite elements
    exact mentions_bind_silent (mentions_within hinside) fun _ => mentions_pure ()
  | quantified q elements =>
    rw [lowerElement, Ast.Element.mentions]
    refine mentions_descend_bind fun depth => ?_
    have hinside := mentions_lowerElements limits { site with depth } p classes hsite elements
    exact mentions_bind_silent (mentions_within hinside) fun _ => mentions_pure ()
  | eval content method =>
    rw [lowerElement, Ast.Element.mentions]
    exact mentions_silent_bind (mentions_add (some p) rfl) fun _ => mentions_pure ()
  | predicate content method =>
    rw [lowerElement, Ast.Element.mentions]
    refine mentions_orFail_bind fun _ _ => ?_
    exact mentions_silent_bind (mentions_add (some p) rfl) fun _ => mentions_pure ()
  | constraint fieldName restrictions line =>
    rw [lowerElement, Ast.Element.mentions]
    refine mentions_pattern_bind hsite fun pattern field => ?_
    refine mentions_silent_bind (mentions_add (some p) rfl) fun id => ?_
    exact (restricting_mentions site.rule classes).lowerRestrictions limits
      { site with constraint? := some ⟨id, field⟩ } id restrictions
  | binding identifier fieldName line =>
    rw [lowerElement, Ast.Element.mentions]
    exact mentions_pattern_bind hsite fun pattern field =>
      mentions_addVar site.rule p identifier .field field fieldName
  | unknown =>
    rw [lowerElement, Ast.Element.mentions]
    exact mentions_pure ()

theorem mentions_lowerElements (limits : Limits) (site : Site) (p : ComponentId)
    (classes : List (String × ComponentId)) (hsite : site.NamesClassIn classes)
    (es : List Ast.Element) :
    Mentions classes (lowerElements limits site p es)
      (es.map (Ast.Element.mentions (site.pattern?.map (·.className)))).flatten := by
  cases es with
  | nil =>
    rw [lowerElements]
    exact mentions_pure ()
  | cons e rest =>
    rw [lowerElements, List.map_cons, List.flatten_cons]
    exact mentions_bind (mentions_lowerElement limits site p classes hsite e) fun _ =>
      mentions_lowerElements limits site p classes hsite rest

/-- A pattern mentions the fields in its source, and then its own. -/
theorem mentions_lowerPattern (limits : Limits) (site : Site) (p : ComponentId)
    (classes : List (String × ComponentId)) (hsite : site.NamesClassIn classes)
    (pattern : Ast.Pattern) :
    Mentions classes (lowerPattern limits site p pattern) pattern.mentions := by
  cases pattern with
  | mk objectType identifier source constraints line =>
    rw [lowerPattern, Ast.Pattern.mentions.eq_def]
    refine mentions_descend_bind fun depth => mentions_classFor_bind fun factClass => ?_
    refine mentions_silent_bind (mentions_underQuantifier _) fun isNot => ?_
    refine mentions_silent_bind (mentions_underQuantifier _) fun isExists => ?_
    refine mentions_silent_bind (mentions_underQuantifier _) fun isForall => ?_
    refine mentions_silent_bind (mentions_add (some p) rfl) fun id => ?_
    refine mentions_silent_bind
      (mentions_bindPattern site.rule id factClass objectType identifier) fun _ => ?_
    have hsource := mentions_lowerSource? limits { site with depth } id
      ((objectType, factClass) :: classes) (hsite.cons _) source
    refine mentions_bind hsource fun reference => ?_
    refine mentions_silent_bind (mentions_attach id .source reference) fun _ => ?_
    refine mentions_bind_silent (mentions_within ?_) fun closed => ?_
    · -- the constraints are about the class that has just been found
      refine mentions_lowerElements limits _ id ((objectType, factClass) :: classes) ?_ constraints
      rintro _ ⟨⟩
      exact List.mem_cons_self
    · exact mentions_silent_bind (mentions_handOver _ closed) fun _ => mentions_pure id

theorem mentions_lowerSource? (limits : Limits) (site : Site) (p : ComponentId)
    (classes : List (String × ComponentId)) (hsite : site.NamesClassIn classes)
    (source : Option Ast.Source) :
    Mentions classes (lowerSource? limits site p source)
      (match source with
        | none => []
        | some source => source.mentions) := by
  cases source with
  | none =>
    rw [lowerSource?]
    exact mentions_pure none
  | some source =>
    rw [lowerSource?]
    exact mentions_lowerSource limits site p classes hsite source

theorem mentions_lowerSource (limits : Limits) (site : Site) (p : ComponentId)
    (classes : List (String × ComponentId)) (hsite : site.NamesClassIn classes)
    (source : Ast.Source) :
    Mentions classes (lowerSource limits site p source) source.mentions := by
  cases source with
  | accumulate input code =>
    rw [lowerSource, Ast.Source.mentions]
    refine mentions_descend_bind fun depth => ?_
    refine mentions_silent_bind (mentions_add (some p) rfl) fun id => ?_
    have hpattern := mentions_lowerPattern limits { site with depth } id classes hsite input
    refine mentions_bind_silent hpattern fun inputId => ?_
    exact mentions_silent_bind (mentions_fill id (.input inputId)) fun _ => mentions_pure _
  | collect input method =>
    rw [lowerSource, Ast.Source.mentions]
    refine mentions_descend_bind fun depth => ?_
    refine mentions_silent_bind (mentions_add (some p) rfl) fun id => ?_
    have hpattern := mentions_lowerPattern limits { site with depth } id classes hsite input
    refine mentions_bind_silent hpattern fun inputId => ?_
    exact mentions_silent_bind (mentions_fill id (.input inputId)) fun _ => mentions_pure _
  | supplied dataSource =>
    rw [lowerSource, Ast.Source.mentions]
    refine mentions_descend_bind fun depth => ?_
    refine mentions_silent_bind (mentions_add (some p) rfl) fun id => ?_
    have hinvoker := (restricting_mentions site.rule classes).lowerInvoker limits
      { site with depth } id dataSource
    refine mentions_silent_bind hinvoker fun reference => ?_
    exact mentions_silent_bind (mentions_attach id .dataSource reference) fun _ => mentions_pure _
  | unknown =>
    rw [lowerSource, Ast.Source.mentions]
    exact mentions_descend_bind fun _ => mentions_pure none
end

/-! ## Packages -/

theorem mentions_keepPossibilities (closed : Closed) :
    Mentions classes (keepPossibilities closed) [] := by
  cases closed with
  | rule id possibilities =>
    refine mentions_nothing fun ms s a s' hlined hrun => ?_
    cases hrun
    exact hlined.of_eq rfl rfl rfl
  | _ => exact mentions_pure ()

theorem mentions_lowerRule (limits : Limits) (package : ComponentId) (r : Ast.Rule) :
    Mentions [] (lowerRule limits package r) r.mentions := by
  refine mentions_silent_bind (mentions_add (some package) rfl) fun id => ?_
  have hcondition :=
    mentions_lowerElements limits { rule := ⟨id, r.name, r.line⟩ } id [] nofun r.lhs
  refine mentions_bind_silent (mentions_within hcondition) fun closed => ?_
  refine mentions_silent_bind (mentions_keepPossibilities closed) fun _ => ?_
  refine mentions_silent_bind (mentions_add (some id) rfl) fun consequence => ?_
  exact mentions_fill id (.consequence consequence)

theorem mentions_lowerRules (limits : Limits) (package : ComponentId) (rs : List Ast.Rule) :
    Mentions [] (lowerRules limits package rs) (rs.flatMap Ast.Rule.mentions) := by
  induction rs with
  | nil => exact mentions_pure ()
  | cons r rest ih => exact mentions_bind (mentions_lowerRule limits package r) fun _ => ih

variable {limits : Limits} {before : List Ast.Mention} {g g' : Graph}

theorem lined_load {ast : Ast.Package} {id : ComponentId} (h : Lined [] before g)
    (hrun : load limits ast g = .ok id g') :
    Lined [] (before ++ ast.rules.flatMap Ast.Rule.mentions) g' := by
  obtain ⟨s, s', hfind, hrules, rfl⟩ := load_eq_ok hrun
  refine mentions_lowerRules limits id ast.rules before s () s' ?_ hrules
  obtain ⟨-, rfl⟩ | ⟨-, -, rfl⟩ := findOrAdd_eq_ok hfind
  · exact h
  · exact h.add none rfl

/-- **Packages that are loaded have mentioned the fields in their rules**, one after another. -/
theorem lined_loadAll {ps : List Ast.Package} {ids : List ComponentId} (h : Lined [] before g)
    (hrun : loadAll limits ps g = .ok ids g') :
    Lined [] (before ++ (ps.flatMap (·.rules)).flatMap Ast.Rule.mentions) g' := by
  refine loadAll_induction (I := fun loaded g' =>
    Lined [] (before ++ (loaded.flatMap (·.rules)).flatMap Ast.Rule.mentions) g') hrun
    (by simpa using h) ?_
  intro loaded p g₁ id g₂ hloaded hload
  rw [List.flatMap_append, List.flatMap_append, List.flatMap_singleton, ← List.append_assoc]
  exact lined_load hloaded hload

end RuleBase.Analysis

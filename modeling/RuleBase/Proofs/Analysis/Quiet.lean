import RuleBase.Proofs.Analysis.Plain
import RuleBase.Proofs.Analysis.Reading

/-!
# Runs that succeed

The parts of a run through a pattern or a source that succeeds. What counts for the condition
happens in a few of them; the others are quiet.

* **`lowerPattern_ne_ok`**: no pattern stands inside the constraints of another one.
-/

namespace RuleBase.Analysis

open RuleBase.Graph Condition

/-! ## Nothing that counts -/

/-- Neither the scopes nor the log have changed, and the components are what they were. -/
structure Quiet (s s' : State) : Prop where
  scopes_eq : s'.scopes = s.scopes
  log_eq : s'.graph.log = s.graph.log
  size_le : s.graph.size ≤ s'.graph.size
  kept : Kept s.graph s'.graph

theorem quiet_refl (s : State) : Quiet s s := ⟨rfl, rfl, Nat.le_refl _, kept_refl _⟩

instance : Std.Refl Quiet := ⟨quiet_refl⟩

instance : IsTrans State Quiet :=
  ⟨fun _ _ _ h h' => ⟨h'.scopes_eq.trans h.scopes_eq, h'.log_eq.trans h.log_eq,
    Nat.le_trans h.size_le h'.size_le, h.kept.trans h'.kept⟩⟩

theorem quiet_add {parent : Option ComponentId} {kind : Kind} (h : kind.logged? = none) :
    Always Quiet (add parent kind) := by
  refine fun s => ⟨rfl, ?_, ?_, kept_add s.graph parent kind⟩
  · change (s.graph.add parent kind).log = s.graph.log
    rw [log_add, h]
    exact Log.append_empty _
  · change s.graph.size ≤ (s.graph.add parent kind).size
    rw [size_add]
    exact Nat.le_succ _

theorem quiet_modify {id : ComponentId} {change : Kind → Kind} (h : Keeping change) :
    Always Quiet (modify id change) := by
  refine fun s => ⟨rfl, log_modify s.graph id h.logged?_eq, ?_, kept_modify s.graph id h.essence_eq⟩
  exact Nat.le_of_eq (size_modify s.graph id change).symm

theorem admits_quiet (rule : ComponentId) : Admits rule Quiet where
  add _ _ h _ := quiet_add h
  modify _ _ h := quiet_modify h

variable {limits : Limits} {s s' : State}

/-- A component has been added, and nothing else has happened. -/
structure Added (id : ComponentId) (parent : Option ComponentId) (kind : Kind) (s s' : State) :
    Prop where
  lt : s.graph.size < id
  size_eq : s'.graph.size = id
  scopes_eq : s'.scopes = s.scopes
  log_eq : s'.graph.log = s.graph.log ++ Log.single id kind.logged?
  kept : Kept s.graph s'.graph
  made : Made id parent kind s'.graph

theorem added_of_add {parent : Option ComponentId} {kind : Kind} {id : ComponentId}
    (hrun : add parent kind s = .ok id s') : Added id parent kind s s' := by
  obtain ⟨rfl, rfl⟩ := add_eq_ok hrun
  exact ⟨Nat.lt_succ_self _, size_add _ _ _, rfl, log_add _ _ _, kept_add _ _ _, made_add _ _ _⟩

/-! ## Patterns and sources -/

/-- The parts of a run through a pattern that succeeds. The pattern keeps its name, and the
quantifiers that are open. -/
inductive PatternRun (limits : Limits) (site : Site) (objectType : String)
    (source : Option Ast.Source) (constraints : List Ast.Element) (s : State) (id : ComponentId)
    (s' : State) : Prop where
  | mk (depth : Nat) {parent : Option ComponentId} {p : Graph.Pattern} {inner : PatternSite}
      {s₁ s₂ s₃ s₄ s₅ s₆ : State} {reference : Option Reference} {closed : Closed}
      (before : Quiet s s₁)
      (rule_eq : p.rule = site.rule.id)
      (name_eq : p.name = objectType)
      (under_eq : ∀ q, p.isUnder q = quantifiedBy q s.scopes)
      (added : add parent (.pattern p) s₁ = .ok id s₂)
      (bound : Quiet s₂ s₃)
      (drawn : lowerSource? limits { site with depth } id source s₃ = .ok reference s₄)
      (attached : Quiet s₄ s₅)
      (id_eq : inner.id = id)
      (inside : within limits site.rule (.pattern id)
        (lowerElements limits { site with depth, pattern? := some inner, constraint? := none } id
          constraints) s₅ = .ok closed s₆)
      (handed : handOver site.rule closed s₆ = .ok () s')

theorem patternRun_of_ok {site : Site} {parent : ComponentId} {objectType : String}
    {identifier : Option String} {source : Option Ast.Source} {constraints : List Ast.Element}
    {line : Nat} {id : ComponentId}
    (hrun : lowerPattern limits site parent (.mk objectType identifier source constraints line) s =
      .ok id s') : PatternRun limits site objectType source constraints s id s' := by
  have hplain := admits_quiet site.rule.id
  rw [lowerPattern] at hrun
  obtain ⟨site', t₁, hdescend, hrun₁⟩ := bind_eq_ok hrun
  obtain ⟨⟨depth, rfl⟩, rfl⟩ := descend_eq_ok hdescend
  obtain ⟨factClass, t₂, hclass, hrun₂⟩ := bind_eq_ok hrun₁
  have hbefore : Quiet t₁ t₂ := (plain_classFor hplain objectType).of_ok hclass
  obtain ⟨isNot, t₃, hnot, hrun₃⟩ := bind_eq_ok hrun₂
  obtain ⟨rfl, rfl⟩ := underQuantifier_eq_ok hnot
  obtain ⟨isExists, t₄, hexists, hrun₄⟩ := bind_eq_ok hrun₃
  obtain ⟨rfl, rfl⟩ := underQuantifier_eq_ok hexists
  obtain ⟨isForall, t₅, hforall, hrun₅⟩ := bind_eq_ok hrun₄
  obtain ⟨rfl, rfl⟩ := underQuantifier_eq_ok hforall
  obtain ⟨id', t₆, hadd, hrun₆⟩ := bind_eq_ok hrun₅
  obtain ⟨u, t₇, hbind, hrun₇⟩ := bind_eq_ok hrun₆
  obtain ⟨reference, t₈, hsource, hrun₈⟩ := bind_eq_ok hrun₇
  obtain ⟨u', t₉, hattach, hrun₉⟩ := bind_eq_ok hrun₈
  obtain ⟨closed, t₁₀, hwithin, hrun₁₀⟩ := bind_eq_ok hrun₉
  obtain ⟨u'', t₁₁, hhand, hdone⟩ := bind_eq_ok hrun₁₀
  cases hdone
  refine .mk depth hbefore rfl rfl (fun q => ?_) hadd
    ((plain_bindPattern hplain id factClass objectType identifier).of_ok hbind) hsource
    ((plain_attach hplain reference keeping_withSource).of_ok hattach) rfl hwithin hhand
  cases q <;> simp [Pattern.isUnder, hbefore.scopes_eq]

/-- The run through a source that succeeds: one through its input pattern, or none that counts. -/
inductive SourceRun (limits : Limits) (site : Site) (s s' : State) : Ast.Source → Prop where
  | accumulate (depth : Nat) {parent id : ComponentId} {input : Ast.Pattern}
      {code : Ast.Accumulation} {s₁ s₂ : State} (before : Quiet s s₁)
      (inner : lowerPattern limits { site with depth } parent input s₁ = .ok id s₂)
      (after : Quiet s₂ s') : SourceRun limits site s s' (.accumulate input code)
  | collect (depth : Nat) {parent id : ComponentId} {input : Ast.Pattern} {method : Option String}
      {s₁ s₂ : State} (before : Quiet s s₁)
      (inner : lowerPattern limits { site with depth } parent input s₁ = .ok id s₂)
      (after : Quiet s₂ s') : SourceRun limits site s s' (.collect input method)
  | supplied {dataSource : Ast.Invoker} (quiet : Quiet s s') :
      SourceRun limits site s s' (.supplied dataSource)
  | unknown (quiet : Quiet s s') : SourceRun limits site s s' .unknown

theorem sourceRun_of_ok {site : Site} {parent : ComponentId} {source : Ast.Source}
    {reference : Option Reference}
    (hrun : lowerSource limits site parent source s = .ok reference s') :
    SourceRun limits site s s' source := by
  have hplain := admits_quiet site.rule.id
  cases source with
  | accumulate input code =>
    rw [lowerSource] at hrun
    obtain ⟨site', t₁, hdescend, hrun₁⟩ := bind_eq_ok hrun
    obtain ⟨⟨depth, rfl⟩, rfl⟩ := descend_eq_ok hdescend
    obtain ⟨id, t₂, hadd, hrun₂⟩ := bind_eq_ok hrun₁
    obtain ⟨inputId, t₃, hinput, hrun₃⟩ := bind_eq_ok hrun₂
    obtain ⟨u, t₄, hmodify, hdone⟩ := bind_eq_ok hrun₃
    cases hdone
    exact .accumulate depth ((plain_add hplain rfl rfl).of_ok hadd) hinput
      ((hplain.modify id _ (keeping_withInput inputId)).of_ok hmodify)
  | collect input method =>
    rw [lowerSource] at hrun
    obtain ⟨site', t₁, hdescend, hrun₁⟩ := bind_eq_ok hrun
    obtain ⟨⟨depth, rfl⟩, rfl⟩ := descend_eq_ok hdescend
    obtain ⟨id, t₂, hadd, hrun₂⟩ := bind_eq_ok hrun₁
    obtain ⟨inputId, t₃, hinput, hrun₃⟩ := bind_eq_ok hrun₂
    obtain ⟨u, t₄, hmodify, hdone⟩ := bind_eq_ok hrun₃
    cases hdone
    exact .collect depth ((plain_add hplain rfl rfl).of_ok hadd) hinput
      ((hplain.modify id _ (keeping_withInput inputId)).of_ok hmodify)
  | supplied dataSource =>
    rw [lowerSource] at hrun
    obtain ⟨site', t₁, hdescend, hrun₁⟩ := bind_eq_ok hrun
    obtain ⟨⟨depth, rfl⟩, rfl⟩ := descend_eq_ok hdescend
    obtain ⟨id, t₂, hadd, hrun₂⟩ := bind_eq_ok hrun₁
    obtain ⟨reference', t₃, hinvoker, hrun₃⟩ := bind_eq_ok hrun₂
    obtain ⟨u, t₄, hattach, hdone⟩ := bind_eq_ok hrun₃
    cases hdone
    have hadded : Quiet t₁ t₂ := (plain_add hplain rfl rfl).of_ok hadd
    have hinvoked : Quiet t₂ t₃ := (plain_lowerInvoker hplain limits _ id dataSource).of_ok hinvoker
    have hattached : Quiet t₃ s' :=
      (plain_attach hplain reference' keeping_withDataSource).of_ok hattach
    exact .supplied (IsTrans.trans _ _ _ hadded (IsTrans.trans _ _ _ hinvoked hattached))
  | unknown =>
    rw [lowerSource] at hrun
    obtain ⟨site', t₁, hdescend, hdone⟩ := bind_eq_ok hrun
    obtain ⟨-, rfl⟩ := descend_eq_ok hdescend
    cases hdone
    exact .unknown (quiet_refl _)

/-! ## Patterns do not nest -/

mutual
/-- Inside a pattern there is no other one. -/
theorem lowerPattern_ne_ok {site : Site} {parent : ComponentId} (p : Ast.Pattern) {s s' : State}
    {id : ComponentId} (hopen : patternIsOpen s.scopes = true) :
    lowerPattern limits site parent p s ≠ .ok id s' := by
  obtain ⟨objectType, identifier, source, constraints, line⟩ := p
  intro hrun
  obtain ⟨depth, before, -, -, -, added, bound, drawn, attached, -, inside, -⟩ :=
    patternRun_of_ok hrun
  obtain ⟨rfl, rfl⟩ := add_eq_ok added
  have hbefore := before.scopes_eq
  have hbound := bound.scopes_eq
  simp only [hbefore] at hbound
  have hsource := lowerSource?_keeps_open source (by rw [hbound]; exact hopen) drawn
  obtain ⟨frame, s₇, hframe, -⟩ := within_eq_ok inside
  have hclosed := (newFrame_pattern hframe).1
  rw [attached.scopes_eq, hsource] at hclosed
  cases hclosed

theorem lowerSource?_keeps_open {site : Site} {parent : ComponentId} (source : Option Ast.Source)
    {s s' : State} {reference : Option Reference} (hopen : patternIsOpen s.scopes = true)
    (hrun : lowerSource? limits site parent source s = .ok reference s') :
    patternIsOpen s'.scopes = true := by
  cases source with
  | none =>
    rw [lowerSource?] at hrun
    cases hrun
    exact hopen
  | some source =>
    rw [lowerSource?] at hrun
    exact lowerSource_keeps_open source hopen hrun

theorem lowerSource_keeps_open {site : Site} {parent : ComponentId} (source : Ast.Source)
    {s s' : State} {reference : Option Reference} (hopen : patternIsOpen s.scopes = true)
    (hrun : lowerSource limits site parent source s = .ok reference s') :
    patternIsOpen s'.scopes = true := by
  cases sourceRun_of_ok hrun with
  | accumulate depth before inner after =>
    exact absurd inner (lowerPattern_ne_ok _ (before.scopes_eq ▸ hopen))
  | collect depth before inner after =>
    exact absurd inner (lowerPattern_ne_ok _ (before.scopes_eq ▸ hopen))
  | supplied quiet => exact quiet.scopes_eq ▸ hopen
  | unknown quiet => exact quiet.scopes_eq ▸ hopen
end

end RuleBase.Analysis

import RuleBase.Proofs.Analysis.Nodewise

/-!
# Walks do not read the journal

The journal is written all along a walk, but nothing is decided by it. So a walk from a graph
without a journal goes the same way and ends in the same graph, but for the journal.

* **`compositional_ignores`**, `ignores_lowerRule`: walks through rules;
* **`ignores_loadAll`**: packages that are loaded.
-/

namespace RuleBase.Analysis

open RuleBase.Graph Condition

variable {ε σ α β : Type}

/-- What a computation has come to, with a part of the state dropped. -/
def mapState (drop : σ → σ) : EStateM.Result ε σ α → EStateM.Result ε σ α
  | .ok a s => .ok a (drop s)
  | .error e s => .error e (drop s)

/-- A computation goes the same way if a part of the state has been dropped before. -/
def Ignores (drop : σ → σ) (x : EStateM ε σ α) : Prop := ∀ s, x (drop s) = mapState drop (x s)

theorem ignores_pure (drop : σ → σ) (a : α) : Ignores drop (pure a : EStateM ε σ α) := fun _ => rfl

theorem ignores_bind {drop : σ → σ} {x : EStateM ε σ α} {k : α → EStateM ε σ β}
    (hx : Ignores drop x) (hk : ∀ a, Ignores drop (k a)) : Ignores drop (x >>= k) := by
  intro s
  have hfirst := hx s
  cases hrun : x s with
  | ok a s' =>
    rw [hrun] at hfirst
    rw [bind_of_ok hrun, bind_of_ok hfirst]
    exact hk a s'
  | error e s' =>
    rw [hrun] at hfirst
    rw [bind_of_error hrun, bind_of_error hfirst]
    rfl

/-- From a state where nothing has to be dropped, it leads to such a state. -/
theorem Ignores.drop_eq {drop : σ → σ} {x : EStateM ε σ α} (h : Ignores drop x) {s s' : σ} {a : α}
    (hs : drop s = s) (hrun : x s = .ok a s') : drop s' = s' := by
  have hsame : x (drop s) = .ok a (drop s') := by rw [h, hrun, mapState]
  rw [hs, hrun] at hsame
  injection hsame with _ hsame
  exact hsame.symm

/-! ## Walks -/

/-- A state with a graph that has no journal. -/
def State.unjournaled (s : State) : State := { s with graph := s.graph.commit }

theorem ignores_extend {f : Graph → α × Graph}
    (h : ∀ g : Graph, f g.commit = ((f g).1, (f g).2.commit)) :
    Ignores State.unjournaled (extend f) := by
  intro s
  have hstep : extend f s.unjournaled = .ok (f s.graph.commit).1 ⟨(f s.graph.commit).2, s.scopes⟩ :=
    rfl
  rw [hstep, h]
  rfl

theorem ignores_add (parent : Option ComponentId) (kind : Kind) :
    Ignores State.unjournaled (add parent kind) := ignores_extend fun _ => rfl

theorem commit_modify (g : Graph) (id : ComponentId) (change : Kind → Kind) :
    g.commit.modify id change = (g.modify id change).commit := by
  have hget : g.commit.get? id = g.get? id := by cases id <;> rfl
  rw [Graph.modify, Graph.modify, hget]
  cases g.get? id <;> rfl

theorem ignores_modify (id : ComponentId) (change : Kind → Kind) :
    Ignores State.unjournaled (modify id change) :=
  ignores_extend fun g => Prod.ext rfl (commit_modify g id change)

theorem ignores_inScopes (rule : RuleSite) (step : Scoping α) :
    Ignores State.unjournaled (inScopes rule step) := by
  intro s
  have hscopes : s.unjournaled.scopes = s.scopes := rfl
  rw [inScopes, inScopes, hscopes]
  cases step s.scopes <;> rfl

/-- **A walk inside a scope.** -/
theorem ignores_within (limits : Limits) (rule : RuleSite) (scope : Scope) {body : Walk Unit}
    (hbody : Ignores State.unjournaled body) :
    Ignores State.unjournaled (within limits rule scope body) := by
  refine ignores_bind (ignores_inScopes rule _) fun token s => ?_
  have hinside := hbody s
  cases hrun : body s with
  | ok u s' =>
    rw [hrun] at hinside
    simp only [hinside, mapState]
    exact ignores_inScopes rule _ s'
  | error e s' =>
    rw [hrun] at hinside
    simp only [hinside, mapState]
    rfl

theorem ignores_orFail (rule : RuleSite) (fault : Fault) (o : Option α) :
    Ignores State.unjournaled (orFail rule fault o) := by
  cases o <;> exact fun _ => rfl

/-- **No walk through a rule reads the journal.** -/
theorem compositional_ignores (rule : RuleSite) :
    Compositional rule (Ignores State.unjournaled) where
  pure := ignores_pure _
  bind := ignores_bind
  fail _ _ := rfl
  find _ _ := rfl
  quantifier _ _ := rfl
  add parent kind _ := ignores_add parent kind
  fill id change _ := ignores_modify id change
  mention field line _ := ignores_modify field _
  settle field type _ := ignores_modify field _
  startPath name f := by
    have hvar : Ignores State.unjournaled (varFor rule name) :=
      ignores_bind (fun _ => rfl) fun _ => ignores_orFail _ _ _
    exact ignores_bind hvar fun id => ignores_bind (ignores_modify id _) fun _ => ignores_pure _ _
  restriction _ := ignores_inScopes _ _
  within limits scope _ := ignores_within limits rule scope
  handOver closed := by
    cases closed with
    | pattern id possibilities =>
      have hkeep : Ignores State.unjournaled
          (keepPatternPossibilities rule.id id possibilities) := ignores_extend fun _ => rfl
      exact ignores_bind hkeep fun _ => ignores_inScopes _ _
    | _ => exact ignores_pure _ _
  keep closed := by
    cases closed with
    | rule id possibilities =>
      have hkeep : Ignores State.unjournaled (keepRulePossibilities id possibilities) :=
        ignores_extend fun _ => rfl
      exact hkeep
    | _ => exact ignores_pure _ _

theorem ignores_lowerRule (limits : Limits) (package : ComponentId) (r : Ast.Rule) :
    Ignores State.unjournaled (lowerRule limits package r) :=
  ignores_bind (ignores_add _ _) fun _ => (compositional_ignores _).modular.lowerBody limits r

theorem ignores_lowerRules (limits : Limits) (package : ComponentId) (rs : List Ast.Rule) :
    Ignores State.unjournaled (lowerRules limits package rs) := by
  induction rs with
  | nil => exact ignores_pure _ _
  | cons r rest ih => exact ignores_bind (ignores_lowerRule limits package r) fun _ => ih

theorem ignores_packageFor (name : String) : Ignores State.unjournaled (packageFor name) := by
  refine ignores_bind (fun _ => rfl) fun found => ?_
  cases found with
  | none => exact ignores_add _ _
  | some id => exact ignores_pure _ id

/-! ## Packages -/

theorem ignores_load (limits : Limits) (p : Ast.Package) : Ignores commit (load limits p) := by
  intro g
  have hpackage : Ignores State.unjournaled (lowerPackage limits p) :=
    ignores_bind (ignores_packageFor p.name) fun id =>
      ignores_bind (ignores_lowerRules limits id p.rules) fun _ => ignores_pure _ id
  have hsame := hpackage ⟨g, []⟩
  have hstart : State.unjournaled ⟨g, []⟩ = ⟨g.commit, []⟩ := rfl
  rw [load, load, ← hstart, hsame]
  cases lowerPackage limits p ⟨g, []⟩ <;> rfl

/-- **Packages are loaded the same way without a journal**, and into the same graph. -/
theorem ignores_loadAll (limits : Limits) (ps : List Ast.Package) :
    Ignores commit (loadAll limits ps) := by
  induction ps with
  | nil => exact ignores_pure _ _
  | cons p rest ih =>
    exact ignores_bind (ignores_load limits p) fun _ => ignores_bind ih fun _ => ignores_pure _ _

end RuleBase.Analysis

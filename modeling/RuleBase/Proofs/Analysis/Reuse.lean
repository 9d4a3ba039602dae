import RuleBase.Proofs.Analysis.Faults
import RuleBase.Proofs.Analysis.Outcome
import RuleBase.Proofs.Graph.Table

/-!
# Walks that are used again

A walk over a package opens scopes and closes all of them, also when it fails on the way, so it can
go on with further packages, and nothing tells it from a new walk. It fails only for what a rule of
the package has wrong, whatever graph it extends.

* `Blames`, `closes_lowerRule`, **`closes_lowerPackage`**: rules and packages;
* `attempts`, **`attempts_lowerPackage`**: one walk over package after package;
* **`reusable_lowerPackage`**: what a walk over a package leaves behind.
-/

namespace RuleBase

/-! ## Variables that a graph knows -/

namespace Graph

/-- The name in the key of a variable of a rule. -/
def Key.nameIn? (rule : ComponentId) : Key → Option String
  | .var r name => if r = rule then some name else none
  | _ => none

theorem Key.nameIn?_eq_some {rule : ComponentId} {key : Key} {name : String} :
    key.nameIn? rule = some name ↔ key = .var rule name := by
  cases key <;> simp [nameIn?]

theorem exists_declared (g : Graph) (rule : ComponentId) :
    ∃ declared : List String, ∀ name, (g.findVar? rule name).isSome ↔ name ∈ declared := by
  refine ⟨g.keyTable.entries.filterMap fun e => e.1.nameIn? rule, fun name => ?_⟩
  rw [Option.isSome_iff_exists, List.mem_filterMap]
  constructor
  · rintro ⟨id, hid⟩
    exact ⟨_, Table.mem_entries_iff.mpr hid, Key.nameIn?_eq_some.mpr rfl⟩
  · rintro ⟨⟨key, id⟩, hmem, hkey⟩
    obtain rfl := Key.nameIn?_eq_some.mp hkey
    exact ⟨id, Table.mem_entries_iff.mp hmem⟩

end Graph

namespace Analysis

open RuleBase.Graph Condition

variable {α β ε σ ι : Type}

/-! ## Walks that close all scopes -/

/-- The answer of a run. -/
def answer : EStateM.Result ε σ α → Except ε α
  | .ok a _ => .ok a
  | .error e _ => .error e

/-- A walk that starts without scopes ends without scopes, and perhaps with one of some errors. -/
def Closes (E : Error → Prop) (x : Walk α) : Prop :=
  ∀ s, s.scopes = [] → (final (x s)).scopes = [] ∧ ∀ e, answer (x s) = .error e → E e

section Closes

variable {E E' : Error → Prop}

theorem Closes.mono {x : Walk α} (h : Closes E x) (hE : ∀ e, E e → E' e) : Closes E' x :=
  fun s hs => ⟨(h s hs).1, fun e he => hE e ((h s hs).2 e he)⟩

theorem closes_pure (a : α) : Closes E (pure a : Walk α) := by
  intro s hs
  refine ⟨hs, fun e he => ?_⟩
  cases he

/-- **One walk after another** closes all scopes if both do. -/
theorem closes_bind {x : Walk α} {k : α → Walk β} (hx : Closes E x) (hk : ∀ a, Closes E (k a)) :
    Closes E (x >>= k) := by
  intro s hs
  obtain ⟨hscopes, herror⟩ := hx s hs
  cases hrun : x s with
  | ok a s' =>
    rw [hrun] at hscopes
    rw [bind_of_ok hrun]
    exact hk a s' hscopes
  | error e s' =>
    rw [hrun] at hscopes herror
    rw [bind_of_error hrun]
    refine ⟨hscopes, fun e' he' => herror e' ?_⟩
    cases he'
    rfl

theorem closes_packageFor (name : String) : Closes E (packageFor name) := by
  intro s hs
  cases hfound : s.graph.findPackage? name with
  | some id =>
    rw [packageFor, findOrAdd_of_some hfound]
    exact closes_pure id s hs
  | none =>
    rw [packageFor, findOrAdd_of_none hfound]
    refine ⟨hs, fun e he => ?_⟩
    cases he

end Closes

/-! ## Rules and packages -/

/-- An error names one of some rules, and says what may be wrong with it. -/
def Blames (rs : List Ast.Rule) (e : Error) : Prop :=
  ∃ r ∈ rs, e.rule = r.name ∧ e.line = r.line ∧ Tame (∃ p ∈ r.patterns, p.Crowded) e.fault

theorem closes_lowerRule (limits : Limits) (package : ComponentId) (r : Ast.Rule) :
    Closes (Blames [r]) (lowerRule limits package r) := by
  intro s hs
  -- The rule is new, but an arbitrary graph may know variables under its number.
  obtain ⟨declared, hdeclared⟩ := s.graph.exists_declared s.graph.nextId
  cases hjudge : judgeRuleAfter limits declared r with
  | ok f =>
    obtain ⟨s', hrun, hscopes⟩ := lowerRule_of_ok hs hdeclared package hjudge
    rw [hrun]
    refine ⟨hscopes, fun e he => ?_⟩
    cases he
  | error fault =>
    obtain ⟨s', hrun, hscopes⟩ := lowerRule_of_error hs hdeclared package hjudge
    rw [hrun]
    refine ⟨hscopes, fun e he => ?_⟩
    cases he
    exact ⟨r, List.mem_singleton_self r, rfl, rfl, tame_of_judgeRuleAfter hjudge⟩

theorem Blames.mono {rs rs' : List Ast.Rule} (h : ∀ r ∈ rs, r ∈ rs') (e : Error)
    (he : Blames rs e) : Blames rs' e := by
  obtain ⟨r, hr, hblames⟩ := he
  exact ⟨r, h r hr, hblames⟩

theorem closes_lowerRules (limits : Limits) (package : ComponentId) (rs : List Ast.Rule) :
    Closes (Blames rs) (lowerRules limits package rs) := by
  induction rs with
  | nil => exact closes_pure ()
  | cons r rest ih =>
    rw [lowerRules]
    refine closes_bind ((closes_lowerRule limits package r).mono ?_) fun _ => ih.mono ?_
    · exact Blames.mono (by simp)
    · exact Blames.mono fun r' hr' => List.mem_cons_of_mem r hr'

/-- **A walk over a package closes all scopes**, and fails only for what is wrong with a rule. -/
theorem closes_lowerPackage (limits : Limits) (p : Ast.Package) :
    Closes (Blames p.rules) (lowerPackage limits p) :=
  closes_bind (closes_packageFor p.name) fun id =>
    closes_bind (closes_lowerRules limits id p.rules) fun _ => closes_pure id

/-! ## Package after package -/

/-- A step for each of some inputs, one after another, also after steps that have failed: all
answers, and the state in the end. -/
def attempts (step : ι → EStateM ε σ α) : List ι → σ → List (Except ε α) × σ
  | [], s => ([], s)
  | i :: rest, s =>
    let later := attempts step rest (final (step i s))
    (answer (step i s) :: later.1, later.2)

theorem answer_load (limits : Limits) (p : Ast.Package) (g : Graph) :
    answer (load limits p g) = answer (lowerPackage limits p ⟨g, []⟩) := by
  rw [load]
  cases lowerPackage limits p ⟨g, []⟩ <;> rfl

/-- Of a walk over a package nothing stays but the graph. -/
theorem final_lowerPackage (limits : Limits) (p : Ast.Package) (g : Graph) :
    final (lowerPackage limits p ⟨g, []⟩) = ⟨final (load limits p g), []⟩ := by
  have hscopes := (closes_lowerPackage limits p ⟨g, []⟩ rfl).1
  rw [load]
  cases hrun : lowerPackage limits p ⟨g, []⟩ with
  | ok id s =>
    rw [hrun] at hscopes
    exact congrArg (State.mk s.graph) hscopes
  | error e s =>
    rw [hrun] at hscopes
    exact congrArg (State.mk s.graph) hscopes

/-- **One walk over package after package** does what a new walk for each of them does. -/
theorem attempts_lowerPackage (limits : Limits) (ps : List Ast.Package) (g : Graph) :
    attempts (lowerPackage limits) ps ⟨g, []⟩ =
      ((attempts (load limits) ps g).1, ⟨(attempts (load limits) ps g).2, []⟩) := by
  induction ps generalizing g with
  | nil => rfl
  | cons p rest ih => simp only [attempts, final_lowerPackage, answer_load, ih]

/-- What a walk over a package leaves behind. -/
structure Reusable (limits : Limits) (p : Ast.Package) (g : Graph) : Prop where
  scopes_eq : (final (lowerPackage limits p ⟨g, []⟩)).scopes = []
  /-- The walk goes on with further packages as new ones would. -/
  attempts_eq : ∀ ps, attempts (lowerPackage limits) ps (final (lowerPackage limits p ⟨g, []⟩)) =
    ((attempts (load limits) ps (final (load limits p g))).1,
      ⟨(attempts (load limits) ps (final (load limits p g))).2, []⟩)
  blames : ∀ e, answer (lowerPackage limits p ⟨g, []⟩) = .error e → Blames p.rules e

/-- **A walk over a package, on any graph, leaves no scope behind**, goes on like a new one, and
fails only for what may be wrong with one of the rules. -/
theorem reusable_lowerPackage (limits : Limits) (p : Ast.Package) (g : Graph) :
    Reusable limits p g where
  scopes_eq := (closes_lowerPackage limits p ⟨g, []⟩ rfl).1
  attempts_eq ps := by
    rw [final_lowerPackage]
    exact attempts_lowerPackage limits ps _
  blames := (closes_lowerPackage limits p ⟨g, []⟩ rfl).2

/-- A pattern that stands inside another one, below a quantifier, is not let in. -/
example :
    answer (lowerPackage {}
      ⟨"gates", [{ name := "entry", line := 3, lhs := [.pattern (.mk "Gate" none none
        [.quantified .negated [.pattern (.mk "Guard" none none [] 0)]] 0)] }]⟩ ⟨{}, []⟩) =
      .error ⟨"entry", 3, .scope (.nested .pattern)⟩ := by
  rfl

end Analysis

end RuleBase

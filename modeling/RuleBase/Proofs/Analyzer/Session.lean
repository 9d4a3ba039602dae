import RuleBase.Analyzer

/-!
# Sessions with an analyzer

An analyzer is used by calls, one after another. Some of them fail; the analyzer goes on all the
same.

* `Call`, `Answer`, `Analyzer.call`: one call and what it answers;
* `Call.content`, `Analyzer.call_eq`: whatever the call is, it adds packages all or none;
* `Analyzer.session`: calls one after another;
* `Analyzer.Reachable`: what an analyzer can be after any calls.
-/

namespace RuleBase

/-- A call that adds to the rule bases of an analyzer. -/
inductive Call where
  | package (p : Ast.Package)
  | packages (ps : List Ast.Package)
  | document (text : String)

/-- What a call answers: the components of the packages, or why nothing was added. -/
abbrev Answer : Type := Except LoadError (List ComponentId)

/-- The packages that a call adds, unless they are in a document that cannot be read. -/
def Call.content : Call → Except Ast.DocumentError (List Ast.Package)
  | .package p => .ok [p]
  | .packages ps => .ok ps
  | .document text => Ast.readDocument text

namespace Analyzer

/-- The answer to a call, and the analyzer after it. -/
def call (a : Analyzer) : Call → Answer × Analyzer
  | .package p =>
    let (result, a) := a.addPackage p
    ((result.map ([·])).mapError .analysis, a)
  | .packages ps =>
    let (result, a) := a.addPackages ps
    (result.mapError .analysis, a)
  | .document text => a.addDocument text

theorem addPackages_singleton (a : Analyzer) (p : Ast.Package) :
    a.addPackages [p] = ((a.addPackage p).1.map ([·]), (a.addPackage p).2) := by
  have hload : ∀ g, Analysis.loadAll a.limits [p] g =
      match Analysis.load a.limits p g with
      | .ok id g' => .ok [id] g'
      | .error e g' => .error e g' := by
    intro g
    simp only [Analysis.loadAll, bind, EStateM.bind, pure, EStateM.pure]
    cases Analysis.load a.limits p g <;> rfl
  simp only [addPackages, addPackage, staged, hload]
  cases Analysis.load a.limits p a.graph.checkpoint <;> rfl

/-- **A call adds its packages**, or nothing if it cannot be read. -/
theorem call_eq (a : Analyzer) (c : Call) :
    a.call c = match c.content with
      | .ok ps => ((a.addPackages ps).1.mapError .analysis, (a.addPackages ps).2)
      | .error e => (.error (.document e), a) := by
  cases c with
  | package p =>
    simp only [Call.content, addPackages_singleton]
    rfl
  | packages ps => rfl
  | document text =>
    rw [call, addDocument, Call.content]
    cases Ast.readDocument text <;> rfl

/-- The answers to calls one after another, and the analyzer after them. -/
def session (a : Analyzer) : List Call → List Answer × Analyzer
  | [] => ([], a)
  | c :: later =>
    let (answer, a) := a.call c
    let (answers, a) := a.session later
    (answer :: answers, a)

/-- What a new analyzer can become by calls, whether they fail or not. -/
inductive Reachable (limits : Limits) : Analyzer → Prop where
  | new : Reachable limits { limits }
  | call {a : Analyzer} (h : Reachable limits a) (c : Call) : Reachable limits (a.call c).2

theorem Reachable.calls {limits : Limits} {a : Analyzer} (h : Reachable limits a)
    (cs : List Call) : Reachable limits (a.session cs).2 := by
  induction cs generalizing a with
  | nil => exact h
  | cons c later ih => exact ih (h.call c)

end Analyzer

end RuleBase

import RuleBase.Command.Run
import RuleBase.Proofs.Analysis.Grouping
import RuleBase.Proofs.Analysis.Journal
import RuleBase.Proofs.Analyzer.Atomic

/-!
# Calls in other groups

Packages that are accepted in one call are accepted in any number of calls, document by document or
one by one, and a package in any number of parts. The graph is the same in the end, and so are the
components that the calls answer.

* **`Analyzer.Reachable.session_regrouped`**: how packages are grouped does not matter.
-/

namespace RuleBase.Analyzer

open RuleBase.Graph Analysis

variable {a : Analyzer} {ps : List Ast.Package} {ids : List ComponentId} {g : Graph}

/-! ## Calls without a checkpoint -/

/-- Loading from a graph without a journal is loading from its checkpoint. -/
theorem mapState_loadAll (h : a.graph.commit = a.graph) (ps : List Ast.Package) :
    loadAll a.limits ps a.graph =
      mapState commit (loadAll a.limits ps a.graph.checkpoint) := by
  rw [← ignores_loadAll]
  exact congrArg _ h.symm

theorem addPackages_of_loadAll (h : a.graph.commit = a.graph)
    (hrun : loadAll a.limits ps a.graph = .ok ids g) :
    a.addPackages ps = (.ok ids, { a with graph := g }) := by
  rw [mapState_loadAll h] at hrun
  rw [addPackages, staged]
  cases hcheckpoint : loadAll a.limits ps a.graph.checkpoint with
  | ok ids' g' =>
    rw [hcheckpoint] at hrun
    cases hrun
    rfl
  | error e g' =>
    rw [hcheckpoint] at hrun
    cases hrun

theorem loadAll_of_addPackages (h : a.graph.commit = a.graph)
    (hok : (a.addPackages ps).1 = .ok ids) :
    ∃ g, loadAll a.limits ps a.graph = .ok ids g ∧
      (a.addPackages ps).2 = { a with graph := g } := by
  rw [mapState_loadAll h]
  rw [addPackages, staged] at hok ⊢
  cases hcheckpoint : loadAll a.limits ps a.graph.checkpoint with
  | ok ids' g' =>
    rw [hcheckpoint] at hok
    cases hok
    exact ⟨g'.commit, rfl, rfl⟩
  | error e g' =>
    rw [hcheckpoint] at hok
    cases hok

/-! ## Calls one after another -/

/-- **Calls one after another load their packages one after another.** -/
theorem session_of_loadAll {cs : List Call} {groups : List (List Ast.Package)}
    (h : a.graph.commit = a.graph) (hcontent : cs.map Call.content = groups.map .ok)
    (hrun : loadAll a.limits groups.flatten a.graph = .ok ids g) :
    a.session cs =
      (groups.map fun group => .ok (group.map (g.packageId ·.name)), { a with graph := g }) := by
  induction cs generalizing a groups ids with
  | nil =>
    obtain rfl := List.map_eq_nil_iff.mp hcontent.symm
    cases hrun
    rfl
  | cons c later ih =>
    obtain ⟨group, groups, rfl, hfirst, hlater⟩ := List.map_eq_cons_iff.mp hcontent.symm
    obtain ⟨ids₁, ids₂, g₁, hgroup, hgroups, -⟩ := loadAll_append_eq_ok hrun
    have hcall : a.call c = (.ok ids₁, { a with graph := g₁ }) := by
      rw [call_eq, ← hfirst]
      simp only [addPackages_of_loadAll h hgroup]
      rfl
    have hcommit : g₁.commit = g₁ := (ignores_loadAll a.limits group).drop_eq h hgroup
    have hids := ids_of_loadAll hgroup ((finds_loadAll a.limits groups.flatten).of_ok hgroups)
    rw [session, hcall, List.map_cons, ← hids]
    simp only [ih (a := { a with graph := g₁ }) hcommit hlater.symm hgroups]

theorem readAll_of_session {texts : List String} {groups : List (List ComponentId)}
    (h : (a.session (texts.map .document)).1 = groups.map .ok) :
    Command.readAll a texts = .ok (a.session (texts.map .document)).2 := by
  induction texts generalizing a groups with
  | nil => rfl
  | cons text rest ih =>
    obtain ⟨ids, groups, rfl, hfirst, hlater⟩ := List.map_eq_cons_iff.mp h.symm
    have hcall : a.addDocument text = (.ok ids, (a.addDocument text).2) := Prod.ext hfirst.symm rfl
    rw [Command.readAll, hcall]
    exact ih hlater.symm

/-- **How packages are grouped does not matter.** Packages that are added in one call may be added
by any calls that have the same packages one after another, and each package may be added in parts:
all calls succeed, the analyzer is the same in the end, and each package is the component that its
name leads to. Files that are read one after another are such calls. -/
theorem Reachable.session_regrouped {limits : Limits} (h : Reachable limits a)
    (hok : (a.addPackages ps).1 = .ok ids) {parts : List (List Ast.Package)}
    (hparts : List.Forall₂ Ast.Package.SplitsInto ps parts) {cs : List Call}
    {groups : List (List Ast.Package)} (hcontent : cs.map Call.content = groups.map .ok)
    (hgroups : groups.flatten = parts.flatten) :
    (a.session cs).2 = (a.addPackages ps).2 ∧
      (∃ idOf : String → ComponentId, ids = ps.map (idOf ·.name) ∧
        (a.session cs).1 = groups.map fun group => .ok (group.map (idOf ·.name))) ∧
      ∀ texts, cs = texts.map .document →
        Command.readAll a texts = .ok (a.addPackages ps).2 := by
  have hcommit : a.graph.commit = a.graph := by rw [commit, ← h.settled.journal?_eq]
  obtain ⟨g, hrun, hgraph⟩ := loadAll_of_addPackages hcommit hok
  obtain ⟨ids', hrun'⟩ := loadAll_flatten hparts hrun
  have hsession := session_of_loadAll hcommit hcontent (hgroups ▸ hrun')
  rw [hsession, hgraph]
  refine ⟨rfl, ⟨g.packageId, ids_of_loadAll hrun (Std.Refl.refl g), rfl⟩, ?_⟩
  rintro texts rfl
  have hanswers : (a.session (texts.map .document)).1 =
      (groups.map fun group => group.map (g.packageId ·.name)).map .ok := by
    rw [hsession, List.map_map]
    rfl
  rw [readAll_of_session hanswers, hsession]

/-- A further part of a package, with one rule about the age of a person. -/
def teens : Ast.Package :=
  ⟨"adults", [{ name := "teen", lhs := [.pattern (.mk "Person" (some "$p") none
    [.constraint "age" [.comparison "<" false (.literal (some "20"))] 4] 3)] }]⟩

/-- The package as a whole. -/
def ages : Ast.Package := ⟨"adults", adults.rules ++ teens.rules⟩

/-- A package with two rules may be added in two calls. -/
theorem session_regrouped_ages :
    (addPackages {} [ages]).1 = .ok [1] ∧
      (session {} [.package adults, .package teens]).1 = [.ok [1], .ok [1]] ∧
      (session {} [.package adults, .package teens]).2 = (addPackages {} [ages]).2 := by
  have hok : (addPackages {} [ages]).1 = .ok [1] := by decide +kernel
  have hparts : List.Forall₂ Ast.Package.SplitsInto [ages] [[adults, teens]] :=
    .cons ⟨by simp, by simp [adults, teens, ages], rfl⟩ .nil
  have hcontent : [Call.package adults, .package teens].map Call.content =
      [[adults], [teens]].map .ok := rfl
  obtain ⟨hsame, -, -⟩ := Reachable.session_regrouped Reachable.new hok hparts hcontent rfl
  exact ⟨hok, by decide +kernel, hsame⟩

end RuleBase.Analyzer

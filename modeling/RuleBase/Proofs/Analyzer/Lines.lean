import RuleBase.Proofs.Analysis.Lines
import RuleBase.Proofs.Analyzer.Continuity
import RuleBase.Proofs.Analyzer.Tables

/-!
# Lines of fields over calls

The line of a field can be read off the rules that have been added: it is the first one that is
known from the constraints and bindings that mention the field. Calls that fail mention nothing.

* **`Analyzer.line_session`**: the lines of all fields.
-/

namespace RuleBase.Analyzer

open RuleBase.Graph Analysis

variable {limits : Limits} {a : Analyzer} {before : List Ast.Mention}

theorem lined_call (h : a.graph.Settled) (hlined : Lined [] before a.graph) (c : Call) :
    Lined [] (before ++ (a.added c).flatMap Ast.Rule.mentions) (a.call c).2.graph := by
  cases hresult : (a.call c).1 with
  | error e =>
    rw [(settled_call h c).2 e hresult, added, hresult]
    simpa using hlined
  | ok ids =>
    obtain ⟨ps, g, hrules, hrun, hgraph⟩ := call_eq_ok hresult
    have hstart : Lined [] before a.graph.checkpoint := hlined.of_eq rfl rfl rfl
    rw [added_of_ok hresult, hrules, hgraph]
    exact (lined_loadAll hstart hrun).of_eq rfl rfl rfl

theorem lined_session (h : a.graph.Settled) (hlined : Lined [] before a.graph) (cs : List Call) :
    Lined [] (before ++ (a.addedBy cs).flatMap Ast.Rule.mentions) (a.session cs).2.graph := by
  induction cs generalizing a before with
  | nil => simpa [addedBy, session] using hlined
  | cons c rest ih =>
    rw [addedBy, List.flatMap_append, ← List.append_assoc]
    exact ih (settled_call h c).1 (lined_call h hlined c)

/-- **The line of a field is the first one that is known from its mentions** in the rules that the
calls have added, in reading order, and zero if none of them knows a line. -/
theorem line_session (limits : Limits) (cs : List Call) {id : ComponentId} {f : Field}
    (hf : (session { limits } cs).2.graph.ofKind? Kind.field? id = some f) :
    f.line = Ast.firstLine f.className f.name
      ((addedBy { limits } cs).flatMap Ast.Rule.mentions) :=
  (lined_session settled_empty .empty cs).line_eq id f hf

/-- A package that mentions the age of a person in a source, and then beside it. -/
def retirees : Ast.Package :=
  ⟨"retirees", [{ name := "retiree", lhs := [.pattern (.mk "Person" none
    (some (.collect (.mk "Person" none none
      [.constraint "age" [.comparison ">" false (.literal (some "65"))] 5] 0) none))
    [.constraint "age" [] 4] 0)] }]⟩

/-- The mention without a line and the one of the call that fails do not count, and the source comes
first. -/
theorem line_session_retirees :
    (session {} [.package peers, .package adults, .package retirees, .package elders]).1 =
        [.error (.analysis ⟨"peer", 0, .unresolvedVariable "$a"⟩), .ok [1], .ok [9], .ok [18]] ∧
      (addedBy {} [.package peers, .package adults, .package retirees, .package elders]).flatMap
        Ast.Rule.mentions = [⟨"Person", "age", 0⟩, ⟨"Person", "age", 5⟩, ⟨"Person", "age", 4⟩,
          ⟨"Person", "age", 3⟩] ∧
      ∃ f, (session {} [.package peers, .package adults, .package retirees,
        .package elders]).2.graph.ofKind? Kind.field? 5 = some f ∧ f.line = 5 := by
  have hmentions : (addedBy {} [.package peers, .package adults, .package retirees,
      .package elders]).flatMap Ast.Rule.mentions = [⟨"Person", "age", 0⟩, ⟨"Person", "age", 5⟩,
        ⟨"Person", "age", 4⟩, ⟨"Person", "age", 3⟩] := by decide +kernel
  have hfield : ((session {} [.package peers, .package adults, .package retirees,
      .package elders]).2.graph.ofKind? Kind.field? 5).map (fun f => (f.className, f.name)) =
        some ("Person", "age") := by decide +kernel
  obtain ⟨f, hf, hnames⟩ := Option.map_eq_some_iff.mp hfield
  simp only [Prod.mk.injEq] at hnames
  refine ⟨by decide +kernel, hmentions, f, hf, ?_⟩
  rw [line_session {} _ hf, hmentions, hnames.1, hnames.2]
  decide +kernel

end RuleBase.Analyzer

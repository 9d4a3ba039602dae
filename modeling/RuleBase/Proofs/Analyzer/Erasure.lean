import RuleBase.Proofs.Analysis.Erasure
import RuleBase.Proofs.Analyzer.Acceptance

/-!
# Unknown nodes

Nodes of an unknown kind leave no trace: a call with them and the call without them answer the same
and store the same, whatever the limits are and however many such nodes there are. Only a source of
an unknown kind can be told from none: below a pattern that stands as deep as the limit allows, it
is one level too deep.

* **`Analyzer.Reachable.addPackages_erased`**: packages are added as without their unknown nodes.
-/

namespace RuleBase

open RuleBase.Graph Analysis

namespace Analyzer

variable {limits : Limits} {a : Analyzer}

/-- Loading that is the same is staged as the same, and with an error nothing is stored. -/
theorem staged_of_sameUnless {α : Type} {bad : Error → Prop} {body body' : Loading α}
    (h : SameUnless bad body body') :
    a.staged body = a.staged body' ∨ ∃ e, bad e ∧ (a.staged body).1 = .error e := by
  rw [staged, staged]
  obtain heq | ⟨e, g, he, hrun⟩ := h a.graph.checkpoint
  · exact .inl (by rw [heq])
  · exact .inr ⟨e, he, by rw [hrun]⟩

/-- **Packages are added as without their unknown nodes**, with the same answer and the same graph,
unless an unknown source stands below a pattern that is as deep as the limit allows; then they may
fail there, and nothing is added. -/
theorem Reachable.addPackages_erased (h : Reachable limits a) (ps : List Ast.Package) :
    a.addPackages ps = a.addPackages (ps.map Ast.Package.erased) ∨
      ∃ r ∈ ps.flatMap (·.rules), limits.maxNestingDepth ∈ r.unknownSources ∧
        a.addPackages ps = (.error ⟨r.name, r.line, .limitExceeded .nestingDepth
          limits.maxNestingDepth (limits.maxNestingDepth + 1)⟩, a) := by
  obtain heq | ⟨e, ⟨r, hr, hdepth, he⟩, hfail⟩ := staged_of_sameUnless (a := a)
    (sameUnless_loadAll ps)
  · exact .inl heq
  · have hsame : (a.addPackages ps).2 = a :=
      (settled_staged h.settled (keeps_loadAll h.settled a.limits ps)).2 e hfail
    rw [h.limits_eq] at hdepth he
    refine .inr ⟨r, hr, hdepth, ?_⟩
    rw [← he]
    exact Prod.ext hfail hsame

/-- A package with a rule about entries that come in through a gate, which is not known. -/
def gates : Ast.Package :=
  ⟨"gates", [{ name := "entry", lhs := [.pattern (.mk "Entry" none (some .unknown) [] 0)] }]⟩

/-- Entries are added as if they had no source, if patterns may have one. -/
theorem addPackages_erased_gates :
    ofAdults.addPackages [gates] = ofAdults.addPackages [gates.erased] := by
  have hreach : Reachable {} ofAdults := Reachable.new.call (.package adults)
  obtain heq | ⟨r, hr, hdepth, -⟩ := hreach.addPackages_erased [gates]
  · exact heq
  · have hshallow : ∀ r ∈ [gates].flatMap (·.rules), r.unknownSources = [1] := by
      simp [gates, Ast.Rule.unknownSources, Ast.Element.unknownSources,
        Ast.Pattern.unknownSources, Ast.Source.unknownSources]
    rw [hshallow r hr] at hdepth
    exact absurd hdepth (by decide)

/-- **An unknown source can be told from none** where patterns may not have one. -/
theorem addPackages_gates_ne_erased :
    Reachable { maxNestingDepth := 1 } { limits := { maxNestingDepth := 1 } } ∧
      (addPackages { limits := { maxNestingDepth := 1 } } [gates]).1 =
        .error ⟨"entry", 0, .limitExceeded .nestingDepth 1 2⟩ ∧
      (addPackages { limits := { maxNestingDepth := 1 } } [gates.erased]).1 = .ok [1] := by
  exact ⟨.new, by decide +kernel, by decide +kernel⟩

end Analyzer

end RuleBase

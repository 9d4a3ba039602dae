import RuleBase.Proofs.Analysis.Woven
import RuleBase.Proofs.Analyzer.Outline

/-!
# References of analyzers

Whatever calls an analyzer has seen, its graph is one that moves have led to, and everything that is
filled in later has been filled in: calls that succeed weave in all that they add, and calls that
fail leave no trace.

* **`Analyzer.Reachable.references`**: all references between components are right.
-/

namespace RuleBase.Analyzer

open RuleBase.Graph Analysis

variable {limits : Limits} {a : Analyzer} {c : Call} {ids : List ComponentId}

/-- **A call that succeeds weaves its rules in.** -/
theorem woven_call (h : a.graph.Arranged) (hok : (a.call c).1 = .ok ids) :
    Woven none a.graph (a.call c).2.graph := by
  obtain ⟨ps, g, -, hrun, hgraph⟩ := call_eq_ok hok
  have hstart : Woven none a.graph a.graph.checkpoint :=
    .of_still h.toSound (.journal _) (fun id => by cases id <;> rfl) fun _ => rfl
  have harranged := hstart.moves.arranged h
  have hloaded := woven_loadAll harranged hrun
  have hend : Woven none g g.commit :=
    .of_still (hloaded.moves.arranged harranged).toSound (.journal none)
      (fun id => by cases id <;> rfl) fun _ => rfl
  rw [hgraph]
  exact hstart.trans (hloaded.trans hend)

/-- An analyzer has seen moves only, and nothing is left to be filled in. -/
theorem Reachable.woven (h : Reachable limits a) : Woven none {} a.graph := by
  induction h with
  | new => exact .refl _
  | @call a h c ih =>
    cases hresult : (a.call c).1 with
    | error e =>
      rw [(settled_call h.settled c).2 e hresult]
      exact ih
    | ok ids => exact ih.trans (woven_call h.outlined.toArranged hresult)

theorem Reachable.moves (h : Reachable limits a) : Moves {} a.graph := h.woven.moves

theorem Reachable.finishedAt (h : Reachable limits a) (id : ComponentId) :
    a.graph.FinishedAt id :=
  h.woven.finished id nofun fun c hc => by cases id <;> cases hc

/-- **All references between components are right**: what a component knows agrees with what is
above it, what it knows of its children agrees with them, and a variable tells the type of its
object unless a path starts from it. -/
theorem Reachable.references (h : Reachable limits a) (id : ComponentId) (c : Component)
    (hc : a.graph.get? id = some c) :
    c.id = id ∧
      (∀ parent, c.parent = some parent → parent < id ∧ (a.graph.get? parent).isSome) ∧
      c.kind.Fits a.graph id c.parent ∧ c.kind.Finished a.graph id ∧
      ∀ v, c.kind = .var v → v.TellsTypeIn a.graph := by
  have harranged := h.outlined.toArranged
  have hid : c.id = id := by
    obtain ⟨n, rfl, hn⟩ := exists_of_get? hc
    exact harranged.id_eq n c hn
  have hfits := h.moves.fitsIn id c hc
  refine ⟨hid, fun parent hparent => ⟨?_, ?_⟩, hid ▸ hfits, h.finishedAt id c hc, fun v hv => ?_⟩
  · exact harranged.lt_of_mem parent id (harranged.toSound.mem_childIds_iff.mpr ⟨c, hc, hparent⟩)
  · obtain ⟨-, hnone⟩ | ⟨-, p, hp, hsome⟩ := hfits.parent_cases (hid.symm ▸ hc)
    · exact absurd (hparent.symm.trans hnone) nofun
    · obtain rfl := Option.some.inj (hparent.symm.trans hp)
      exact hsome
  · refine h.moves.tellsType id v (Option.bind_eq_some_iff.mpr ⟨c, hc, ?_⟩)
    rw [hv]
    rfl

/-- An analyzer of adults and of vacancies. -/
def ofVacancies : Analyzer := (ofAdults.call (.package ⟨"vacancies", [vacancy]⟩)).2

theorem reachable_ofVacancies : Reachable {} ofVacancies := (Reachable.new.call _).call _

/-- The references of a source inside a pattern. -/
theorem references_ofVacancies :
    ofVacancies.graph.get? 18 = some ⟨18, some 17, 0, .collect (some 20) (some "empty")⟩ ∧
      (17 < 18 ∧ (ofVacancies.graph.get? 17).isSome) ∧
      (∃ pattern, some 17 = some pattern ∧
        ofVacancies.graph.typeOf? pattern = some .pattern) ∧
      ∃ pattern, some 20 = some pattern ∧ ofVacancies.graph.childIds (some 18) = [pattern] ∧
        ofVacancies.graph.typeOf? pattern = some .pattern := by
  have hget : ofVacancies.graph.get? 18 =
      some ⟨18, some 17, 0, .collect (some 20) (some "empty")⟩ := by decide +kernel
  obtain ⟨-, hparent, hfits, hfinished, -⟩ := Reachable.references reachable_ofVacancies 18 _ hget
  exact ⟨hget, hparent 17 rfl, hfits, hfinished⟩

end RuleBase.Analyzer

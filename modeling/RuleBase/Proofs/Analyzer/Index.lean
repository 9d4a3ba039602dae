import RuleBase.Proofs.Analyzer.References
import RuleBase.Proofs.Graph.Indexed

/-!
# Tables of analyzers

However a graph has come about, by additions of any kind or by calls that succeed and fail, its
tables tell what its components do. In the graph of an analyzer, names moreover stand for one
package, for one class and for one field of a class, and only packages and classes have no parent.

* `Stored`: graphs that have come about; **`Stored.indexed`**: what their tables tell.
-/

namespace RuleBase

open RuleBase.Graph

/-! ## Graphs that have come about -/

/-- Names stand for one thing each, and only packages and classes have no parent. -/
structure Graph.Unambiguous (g : Graph) : Prop where
  package_le : ∀ name, g.components.countP (·.kind.key? = some (.package name)) ≤ 1
  factClass_le : ∀ name, g.components.countP (·.kind.key? = some (.factClass name)) ≤ 1
  field_le : ∀ factClass name,
    g.components.countP (·.kind.key? = some (.field factClass name)) ≤ 1
  roots_eq : g.roots =
    g.components.filter fun c => c.kind.type = .package ∨ c.kind.type = .factClass

namespace Analyzer

variable {limits : Limits} {a : Analyzer}

theorem Reachable.unambiguous (h : Reachable limits a) : a.graph.Unambiguous where
  package_le _ := h.moves.countP_key_le rfl
  factClass_le _ := h.moves.countP_key_le rfl
  field_le _ _ := h.moves.countP_key_le rfl
  roots_eq := by
    rw [h.moves.tabled.toIndexed.roots_eq]
    refine List.filter_congr fun c hc => decide_eq_decide.mpr ?_
    obtain ⟨n, hn⟩ := List.mem_iff_getElem?.mp hc
    have hid : c.id = n + 1 := h.moves.tabled.id_eq n c hn
    obtain ⟨htype, hnone⟩ | ⟨htype, p, hp, -⟩ :=
      (h.moves.fitsIn (n + 1) c hn).parent_cases (by rw [hid]; exact hn)
    · exact iff_of_true hnone htype
    · exact iff_of_false (by rw [hp]; nofun) htype

end Analyzer

/-- How a graph can come about: by additions of any kind, or by the calls of an analyzer. -/
inductive Stored : Graph → Prop where
  | built {g : Graph} (h : g.Built) : Stored g
  | reached {limits : Limits} {a : Analyzer} (h : Analyzer.Reachable limits a) : Stored a.graph

theorem Stored.tabled {g : Graph} (h : Stored g) : g.Tabled ∧ g.journal? = none := by
  cases h with
  | built h => exact h.tabled
  | reached h => exact ⟨h.moves.tabled, h.settled.journal?_eq⟩

/-- **The tables of any graph that has come about tell what its components do**; in the graph of an
analyzer, names stand for one thing each. So components and possibilities tell all of a graph. -/
theorem Stored.indexed {g : Graph} (h : Stored g) :
    g.Indexed ∧
      (∀ limits (a : Analyzer), Analyzer.Reachable limits a → a.graph = g → g.Unambiguous) ∧
      ∀ g', Stored g' → g'.components = g.components →
        g'.patternPossibilities = g.patternPossibilities →
        g'.rulePossibilities = g.rulePossibilities → g' = g := by
  obtain ⟨htabled, hjournal⟩ := h.tabled
  refine ⟨htabled.toIndexed, ?_, fun g' h' hcomponents hpatterns hrules => ?_⟩
  · rintro limits a hreach rfl
    exact hreach.unambiguous
  · obtain ⟨htabled', hjournal'⟩ := h'.tabled
    exact htabled.eq_of_eq htabled' hcomponents hpatterns hrules (hjournal'.trans hjournal.symm)

/-- Two packages of one name, one of them below a component that is not there, and two variables. -/
def twins : Graph :=
  let v : Graph.Variable :=
    { rule := 7, ruleName := "r", name := "$x", objectType := .field, objectId := none
      objectName := "" }
  (((Graph.add {} none (.package ⟨"p"⟩)).add (some 9) (.package ⟨"p"⟩)).add none (.var v)).add
    (some 9) (.var v)

/-- The older package is found, and the newer variable. -/
theorem indexed_twins :
    Stored twins ∧ twins.findPackage? "p" = some 1 ∧ twins.findVar? 7 "$x" = some 4 ∧
      twins.children 9 = twins.components.filter (·.parent = some 9) ∧
      ∀ g', Stored g' → g'.components = twins.components → g'.patternPossibilities = [] →
        g'.rulePossibilities = [] → g' = twins := by
  have hstored : Stored twins := .built ((((Built.empty.add _ _).add _ _).add _ _).add _ _)
  obtain ⟨hindexed, -, hunique⟩ := Stored.indexed hstored
  refine ⟨hstored, ?_, ?_, hindexed.children_eq 9, hunique⟩
  · rw [hindexed.findPackage?_eq]
    rfl
  · rw [hindexed.findVar?_eq]
    rfl

end RuleBase

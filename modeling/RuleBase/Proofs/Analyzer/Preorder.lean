import RuleBase.Proofs.Analysis.Preorder
import RuleBase.Proofs.Analyzer.References
import RuleBase.Proofs.Report.Outline

/-!
# Outlines of analyzers

Components come about in reading order: what is below a component comes before its next sibling,
also if a package is extended by a later call, and whatever classes and fields come about meanwhile.
So an outline is a walk through increasing numbers that ends.

* **`Analyzer.Reachable.outline_lists`**: the outline of a component lists all that is below it.
-/

namespace RuleBase.Analyzer

open RuleBase.Graph Analysis

variable {limits : Limits} {a : Analyzer} {id : ComponentId} {c : Component}

theorem preordered_empty : Preordered ({} : Graph).nodeParent? where
  parent_lt id p h := by
    cases id <;> cases h
  below_lt p older _ _ h := by
    cases older <;> cases h

theorem Reachable.preordered (h : Reachable limits a) : Preordered a.graph.nodeParent? := by
  have hboth : Moves {} a.graph ∧ Preordered a.graph.nodeParent? := by
    refine h.of_loadAll (P := fun g => Moves {} g ∧ Preordered g.nodeParent?)
      ⟨moves_refl {}, preordered_empty⟩ (fun g journal? hg => ?_)
      fun limits ps g ids g' hg hrun => ?_
    · exact ⟨hg.1.trans (Move.journal journal?).moves, hg.2⟩
    · obtain ⟨hmoves, hpreordered⟩ := hg
      have hwoven := woven_loadAll (hmoves.arranged arranged_empty) hrun
      exact ⟨hmoves.trans hwoven.moves, preordered_loadAll hmoves hpreordered hrun⟩
  exact hboth.2

/-- **The outline of a component lists all that is below it.** The walk from the component down to
all its children ends, in a tree that no bound on the depth changes. Its lines tell of the component
and of everything below it, each once, by increasing numbers, and each line but the first starts
with the mark of the way to its component. -/
theorem Reachable.outline_lists (h : Reachable limits a) (hc : a.graph.get? id = some c) :
    ∃ (t : Tree) (entries : List (List Bool × Component)), a.graph.Whole t ∧ t.component = c ∧
      (∀ depth, a.graph.size ≤ id + depth → a.graph.treeWithin depth c = t) ∧
      Report.outline a.graph id = String.join ((Report.describe a.graph c ::
        entries.map (Report.line a.graph)).map (· ++ "\n")) ∧
      (∀ d, d ∈ entries.map (·.2) ↔ a.graph.get? d.id = some d ∧
        Relation.TransGen (fun p q => a.graph.parentOf? q = some p) id d.id) ∧
      (id :: entries.map (·.2.id)).Pairwise (· < ·) ∧
      ∀ e ∈ entries, a.graph.Way id e.1 e.2.id := by
  have harranged := h.outlined.toArranged
  have hsound := harranged.toSound
  obtain rfl := hsound.id_eq_of_get? hc
  have hwhole : ∀ depth, a.graph.size ≤ c.id + depth → a.graph.Whole (a.graph.treeWithin depth c) :=
    fun _ => harranged.whole_treeWithin
  have hdeep : a.graph.size ≤ c.id + a.graph.size := Nat.le_add_left _ _
  have htree : a.graph.tree? c.id = some (a.graph.treeWithin a.graph.size c) := by
    rw [tree?, hc, Option.map_some]
  generalize ht : a.graph.treeWithin a.graph.size c = t at htree
  have hwholet : a.graph.Whole t := ht ▸ hwhole _ hdeep
  have htop : t.component = c := ht ▸ component_treeWithin ..
  have hmem : ∀ way d, (way, d) ∈ t.listing [] ↔
      a.graph.get? d.id = some d ∧ a.graph.Way c.id way d.id := by
    rw [← htop]
    exact fun _ _ => hwholet.mem_listing_iff hsound
  refine ⟨t, t.listing [], hwholet, htop, fun depth hdepth => ?_, ?_, fun d => ?_, ?_,
    fun e he => ((hmem e.1 e.2).mp he).2⟩
  · exact (hwhole depth hdepth).eq_of_component_eq hwholet
      ((component_treeWithin ..).trans htop.symm)
  · rw [Report.outline_eq htree, htop]
  · rw [← exists_way_iff, ← exists_and_left]
    simp only [← hmem, List.mem_map, Prod.exists, exists_eq_right]
  · have hfits : ∀ id c, a.graph.get? id = some c → c.id = id ∧ c.FitsIn a.graph :=
      fun id c hc => ⟨hsound.id_eq_of_get? hc, h.moves.fitsIn id c hc⟩
    rw [← htop]
    exact hwholet.pairwise_id harranged
      (fun p older younger id holder hyounger hlt hbelow =>
        h.preordered.lt_of_siblings hfits holder hyounger hlt hbelow) []

/-- An analyzer of adults whose package gets one more rule later on. -/
def ofMoreAdults : Analyzer :=
  (ofAdults.call (.package ⟨"adults", [{ name := "anybody", lhs := [
    .pattern (.mk "Person" (some "$p") none [.binding "$n" "name" 0] 0)] }]⟩)).2

/-- The outline of a package that has been extended leaves classes and fields out. -/
theorem outline_ofMoreAdults :
    Reachable {} ofMoreAdults ∧
      ofMoreAdults.graph.get? 1 = some ⟨1, none, 0, .package ⟨"adults"⟩⟩ ∧
      Report.outline ofMoreAdults.graph 1 =
        "##1 package adults\n" ++
        "├─ ##2 rule adult (salience 0, line 0)\n" ++
        "│  ├─ ##4 pattern Person\n" ++
        "│  │  └─ ##6 constraint age\n" ++
        "│  │     └─ ##7 literal restriction > 18\n" ++
        "│  └─ ##8 consequence \n" ++
        "└─ ##9 rule anybody (salience 0, line 0)\n" ++
        "   ├─ ##10 pattern $p : Person\n" ++
        "   │  ├─ ##11 variable $p -> Person\n" ++
        "   │  └─ ##13 variable $n -> Person.name\n" ++
        "   └─ ##14 consequence \n" ∧
      ofMoreAdults.graph.Way 1 [true, false, true] 13 ∧
      ∃ entries : List (List Bool × Component),
        Report.outline ofMoreAdults.graph 1 = String.join
          ((Report.describe ofMoreAdults.graph ⟨1, none, 0, .package ⟨"adults"⟩⟩ ::
            entries.map (Report.line ofMoreAdults.graph)).map (· ++ "\n")) ∧
        (1 :: entries.map (·.2.id)).Pairwise (· < ·) := by
  have hreach : Reachable {} ofMoreAdults := (Reachable.new.call _).call _
  have hget : ofMoreAdults.graph.get? 1 = some ⟨1, none, 0, .package ⟨"adults"⟩⟩ := by
    decide +kernel
  obtain ⟨t, entries, -, -, -, hlines, -, hsorted, -⟩ := Reachable.outline_lists hreach hget
  have hway : ofMoreAdults.graph.Way 1 [ofMoreAdults.graph.isLast 1 9,
      ofMoreAdults.graph.isLast 9 10, ofMoreAdults.graph.isLast 10 13] 13 :=
    .deeper (by decide +kernel) (.deeper (by decide +kernel) (.child (by decide +kernel)))
  have hlast : [ofMoreAdults.graph.isLast 1 9, ofMoreAdults.graph.isLast 9 10,
      ofMoreAdults.graph.isLast 10 13] = [true, false, true] := by decide +kernel
  exact ⟨hreach, hget, by decide +kernel, hlast ▸ hway, entries, hlines, hsorted⟩

end RuleBase.Analyzer

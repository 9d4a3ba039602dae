import RuleBase.Proofs.Analyzer.Continuity
import RuleBase.Proofs.Analyzer.Tables
import RuleBase.Proofs.Ast.Enclosure

/-!
# Quantifiers of patterns over calls

A pattern counts as being under the quantifiers that stand around it in its rule, and under no
others: not under those that were open before, in the same rule or in another one, nor under those
of a call that has failed.

* **`PlacedRule.ShownIn.declaredFlags`**: the flags of a rule are those of the rule as it was
  declared;
* `Analyzer.flagsOf`, **`Analyzer.Reachable.flags_eq`**: the flags of the rules of a call.
-/

namespace RuleBase

open RuleBase.Graph Analysis

/-- The flags of a pattern. -/
def Graph.Pattern.flags (p : Graph.Pattern) : Ast.Flags := ⟨p.name, p.isNot, p.isExists, p.isForall⟩

/-- The flags of the patterns of a rule. -/
def Graph.flagsOfRule (g : Graph) (rule : ComponentId) : List Ast.Flags :=
  ((g.ofKind Kind.pattern?).filter (·.2.rule == rule)).map (·.2.flags)

namespace Analysis

/-- The flags of a pattern that has a heading. -/
def flagsOfHeading (heading : String × (Quantifier → Bool)) : Ast.Flags :=
  ⟨heading.1, heading.2 .negated, heading.2 .existential, heading.2 .universal⟩

variable {g : Graph} {r : PlacedRule}

theorem PlacedRule.ShownIn.headings_eq (h : r.ShownIn g)
    (hplaced : ∀ e ∈ r.ast.lhs, e.WellPlaced .rule) :
    r.patterns.map (fun q => g.heading? q.id) =
      (r.ast.lhs.flatMap (Ast.Element.written [])).map fun o => o.reading.heading? := by
  have hitems := congrArg (List.flatMap Condition.Formula.items) (h.describes g (kept_refl g))
  simp only [List.flatMap_map, Condition.Formula.items_map, ← List.map_flatMap] at hitems
  have hwritten : r.ast.lhs.flatMap (fun e => (e.occurrences []).items) =
      r.ast.lhs.flatMap (Ast.Element.written []) :=
    List.flatMap_congr fun e he => Ast.items_occurrences (hplaced e he) []
  rw [hwritten] at hitems
  have hheadings := congrArg (List.map Reading.heading?) hitems
  rw [List.map_map, List.map_map] at hheadings
  exact hheadings

/-- **The patterns of a rule have the flags that it declares.** -/
theorem PlacedRule.ShownIn.declaredFlags (h : r.ShownIn g) (hsound : g.Sound)
    (hcorrect : r.CorrectIn g.log) (hplaced : ∀ e ∈ r.ast.lhs, e.WellPlaced .rule) :
    g.flagsOfRule r.id = r.ast.flags := by
  have hids : ((g.ofKind Kind.pattern?).filter (·.2.rule == r.id)).map (·.1) =
      r.patterns.map (·.id) := (patternsOfRule_eq g r.id).trans hcorrect.patterns_eq
  -- what is found by a number is what the list of patterns has under it
  have hfound : (g.flagsOfRule r.id).map some =
      (((g.ofKind Kind.pattern?).filter (·.2.rule == r.id)).map (·.1)).map
        fun id => (g.heading? id).map flagsOfHeading := by
    rw [Graph.flagsOfRule, List.map_map, List.map_map]
    refine List.map_congr_left fun entry hentry => ?_
    have hpattern := hsound.mem_ofKind_iff.mp (List.mem_of_mem_filter hentry)
    simp only [Function.comp_apply, Graph.heading?, hpattern, Option.map_some]
    rfl
  have hdeclared := congrArg (List.map (Option.map flagsOfHeading)) (h.headings_eq hplaced)
  rw [List.map_map, List.map_map] at hdeclared
  refine List.map_injective_iff.mpr (Option.some_injective _) ?_
  rw [hfound, hids, List.map_map]
  refine hdeclared.trans ?_
  rw [Ast.Rule.flags, List.map_map]
  rfl

end Analysis

namespace Analyzer

variable {limits : Limits} {a : Analyzer} {c : Call} {ids : List ComponentId}

/-- The names of the rules that have come about with a call, with the flags of their patterns, after
later calls. -/
def flagsOf (a : Analyzer) (c : Call) (later : List Call) : List (String × List Ast.Flags) :=
  let g := ((a.call c).2.session later).2.graph
  let rules := (g.ofKind Kind.rule?).filter fun rule =>
    a.graph.size < rule.1 ∧ rule.1 ≤ (a.call c).2.graph.size
  rules.map fun rule => (rule.2.name, g.flagsOfRule rule.1)

theorem Reachable.wellFormed_call (h : Reachable limits a) (hok : (a.call c).1 = .ok ids) :
    ∀ r ∈ c.rules, r.WellFormed := by
  rw [call_eq] at hok
  cases hcontent : c.content with
  | error e => simp [hcontent] at hok
  | ok ps =>
    cases hresult : (a.addPackages ps).1 with
    | error e => simp [hcontent, hresult, Except.mapError] at hok
    | ok ids' =>
      rw [rules_of_content hcontent]
      exact fun r hr => ((addPackages_ok_iff h.settled ps).mp ⟨ids', hresult⟩ r hr).1

/-- **A pattern is under the quantifiers around it**: of every rule of a call that succeeds, the
patterns that are stored are those that are written anywhere in it, and each has the flags of the
quantifiers that it is written under, whatever has been called before and is called later. -/
theorem Reachable.flags_eq (h : Reachable limits a) (hok : (a.call c).1 = .ok ids)
    (later : List Call) : a.flagsOf c later = c.rules.map fun r => (r.name, r.flags) := by
  obtain ⟨all, rules, hrules, hall, hfilter⟩ := h.loaded_around c later
  have hend := (h.call c).calls later
  rw [added_of_ok hok] at hrules
  have hnames := congrArg (fun shown : List (ComponentId × String × Report.Table) =>
    (shown.filter fun s => decide (a.graph.size < s.1 ∧ s.1 ≤ (a.call c).2.graph.size)).map
      fun s => (s.2.1, ((a.call c).2.session later).2.graph.flagsOfRule s.1))
    (hall.tables_eq hend.namesFields hend.settled.sound hend.settled.numbered)
  simp only [List.filter_map, List.map_map, Function.comp_def, hfilter] at hnames
  have hflags : ∀ r ∈ rules,
      ((a.call c).2.session later).2.graph.flagsOfRule r.id = r.ast.flags := by
    intro r hr
    have hmem : r ∈ all := List.mem_of_mem_filter (hfilter.symm ▸ hr)
    have hast : r.ast ∈ c.rules := hrules ▸ List.mem_map_of_mem hr
    exact (hall.shown r hmem).declaredFlags hend.settled.sound (hall.correct r hmem)
      (h.wellFormed_call hok r.ast hast).placed
  rw [← hrules, List.map_map]
  exact hnames.trans (List.map_congr_left fun r hr => by rw [hflags r hr]; rfl)

/-- A pattern of facts of a class, without constraints. -/
def anyOf (name : String) (source : Option Ast.Source) : Ast.Pattern := .mk name none source [] 0

/-- A rule with patterns inside sources, under quantifiers that nest and follow one another. -/
def estate : Ast.Rule :=
  { name := "estate"
    lhs := [
      .quantified .negated [.pattern (anyOf "Debt" none)],
      .quantified .existential [.pattern (anyOf "List" (some (.collect (anyOf "House" none) none))),
        .quantified .negated [.pattern (anyOf "Set" (some (.collect (anyOf "List"
          (some (.collect (anyOf "Field" none) none))) none)))]],
      .group .or [.pattern (anyOf "Car" none),
        .quantified .universal [.pattern (anyOf "Boat" none)]],
      .pattern (anyOf "Person" none)] }

/-- After another package, and before one that fails. -/
theorem flags_estate :
    (ofAdults.call (.package ⟨"estates", [estate]⟩)).1 = .ok [9] ∧
      ofAdults.flagsOf (.package ⟨"estates", [estate]⟩) [.package peers, .package elders] =
        [("estate", [⟨"Debt", true, false, false⟩, ⟨"List", false, true, false⟩,
          ⟨"House", false, true, false⟩, ⟨"Set", true, true, false⟩, ⟨"List", true, true, false⟩,
          ⟨"Field", true, true, false⟩, ⟨"Car", false, false, false⟩,
          ⟨"Boat", false, false, true⟩, ⟨"Person", false, false, false⟩])] := by
  have hok : (ofAdults.call (.package ⟨"estates", [estate]⟩)).1 = .ok [9] := by decide +kernel
  refine ⟨hok, (Reachable.flags_eq (Reachable.new.call _) hok _).trans ?_⟩
  decide +kernel

end Analyzer

end RuleBase

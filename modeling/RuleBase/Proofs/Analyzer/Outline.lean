import RuleBase.Proofs.Analysis.Drawn
import RuleBase.Proofs.Analyzer.Possibilities

/-!
# The trees of accepted rules

The tree of components below a rule tells what the rule declares: nothing is lost, nothing occurs
twice, and everything stands in its place. Later calls leave the trees of older rules alone.

* **`Analyzer.Reachable.call_outline`**: the outlines of new rules are those of the rules that were
  declared.
-/

namespace RuleBase

open RuleBase.Graph Analysis

/-- A graph is arranged and has an outline below each of its rules. -/
structure Graph.Outlined (g : Graph) : Prop extends Arranged g where
  shows : ∀ rule ∈ g.rules, ∃ t, g.Shows t rule

theorem Graph.ShowsAll.exists_shows {g : Graph} {ts : List Outline} {ids : List ComponentId}
    (h : g.ShowsAll ts ids) : ∀ id ∈ ids, ∃ t, g.Shows t id := by
  induction ts generalizing ids with
  | nil =>
    rw [ShowsAll] at h
    subst h
    exact nofun
  | cons t ts ih =>
    rw [ShowsAll] at h
    obtain ⟨id, rest, rfl, hid, hrest⟩ := h
    exact List.forall_mem_cons.mpr ⟨⟨t, hid⟩, ih hrest⟩

namespace Analysis

variable {g g' : Graph} {ts : List Outline}

theorem Drawn.outlined (h : Drawn g g' ts) (hg : g.Outlined) : g'.Outlined where
  toArranged := h.arranged
  shows rule hrule := by
    obtain ⟨ids, hids, hshows⟩ := h.drawn
    rw [hids] at hrule
    rcases List.mem_append.mp hrule with hold | hnew
    · obtain ⟨t, ht⟩ := hg.shows rule hold
      exact ⟨t, h.toOnward.shows hg.toArranged ht⟩
    · exact hshows.exists_shows rule hnew

theorem Drawn.outline?_eq (h : Drawn g g' ts) (hg : g.Outlined) {rule : ComponentId}
    (hrule : rule ∈ g.rules) : g'.outline? rule = g.outline? rule := by
  obtain ⟨t, ht⟩ := hg.shows rule hrule
  rw [ht.outline?_eq hg.toArranged, (h.toOnward.shows hg.toArranged ht).outline?_eq h.arranged]

end Analysis

namespace Analyzer

variable {limits : Limits} {a : Analyzer} {c : Call} {ids : List ComponentId}

theorem drawn_of_call (h : a.graph.Arranged) (hok : (a.call c).1 = .ok ids) :
    Drawn a.graph (a.call c).2.graph (c.rules.map Ast.Rule.outline) := by
  obtain ⟨ps, g, hrules, hrun, hgraph⟩ := call_eq_ok hok
  have hstart : Drawn a.graph a.graph.checkpoint [] := .of_onward (.of_eq h rfl rfl rfl) rfl
  have hloaded := hstart.trans (drawn_of_loadAll hstart.arranged hrun)
  have hend : Drawn g g.commit [] := .of_onward (.of_eq hloaded.arranged rfl rfl rfl) rfl
  have hcall := hloaded.trans hend
  rw [hgraph, hrules]
  rwa [List.append_nil] at hcall

theorem Reachable.outlined (h : Reachable limits a) : a.graph.Outlined := by
  induction h with
  | new => exact ⟨arranged_empty, nofun⟩
  | @call a h c ih =>
    cases hresult : (a.call c).1 with
    | error e =>
      rw [(settled_call h.settled c).2 e hresult]
      exact ih
    | ok ids => exact (drawn_of_call ih.toArranged hresult).outlined ih

/-- **The trees of accepted rules are what the rules declare.** A call that succeeds adds its rules
with the trees that their declarations ask for, and leaves the trees of older rules alone; the
children in a tree are in the order of their numbers. -/
theorem Reachable.call_outline (h : Reachable limits a) (hok : (a.call c).1 = .ok ids) :
    (∃ new, (a.call c).2.graph.rules = a.graph.rules ++ new ∧
      new.map (a.call c).2.graph.outline? = c.rules.map fun r => some r.outline) ∧
    (∀ rule ∈ a.graph.rules, (a.call c).2.graph.outline? rule = a.graph.outline? rule) ∧
    ∀ id, ((a.call c).2.graph.children id).map (·.orderNumber) =
      List.range ((a.call c).2.graph.children id).length := by
  have hdrawn := drawn_of_call h.outlined.toArranged hok
  refine ⟨?_, fun rule hrule => hdrawn.outline?_eq h.outlined hrule, fun id => ?_⟩
  · obtain ⟨new, hnew, hshows⟩ := hdrawn.drawn
    refine ⟨new, hnew, ?_⟩
    rw [hshows.map_outline? hdrawn.arranged, List.map_map]
    rfl
  · exact hdrawn.arranged.map_orderNumber (some id)

/-- A rule about lists of houses for which there is nobody of some age. -/
def vacancy : Ast.Rule :=
  { name := "vacancy"
    lhs := [
      .quantified .negated [
        .pattern (.mk "Person" (some "$p") none
          [.constraint "age" [.group .or [.comparison ">" false (.literal (some "65")),
            .comparison "==" true (.literal none)]] 4] 0),
        .unknown],
      .pattern (.mk "List" none (some (.collect (.mk "House" none none
        [.binding "$s" "size" 0] 0) (some "empty"))) [.predicate "size > $s" none] 0)]
    consequence := "let(); // at last" }

/-- The tree of a rule with a quantifier and a source. -/
theorem call_outline_vacancy :
    (ofAdults.call (.package ⟨"vacancies", [vacancy]⟩)).1 = .ok [9] ∧
      ∃ new, (ofAdults.call (.package ⟨"vacancies", [vacancy]⟩)).2.graph.rules =
          ofAdults.graph.rules ++ new ∧
        new.map (ofAdults.call (.package ⟨"vacancies", [vacancy]⟩)).2.graph.outline? = [some <|
          .node (.rule "vacancy" 0 0) [
            .node (.pattern "vacancy" "Person" (some "$p")) [
              .leaf (.var "vacancy" "$p" "Person"),
              .node (.constraint "age") [
                .leaf (.restriction "vacancy" ⟨.greater, false⟩ (.literal (some "65") (.int 65))),
                .leaf (.restriction "vacancy" ⟨.notEqual, false⟩ (.literal none .null))]],
            .node (.pattern "vacancy" "List" none) [
              .node (.collect (some "empty")) [
                .node (.pattern "vacancy" "House" none) [.leaf (.var "vacancy" "$s" "size")]],
              .leaf (.predicate "vacancy" "size > $s" none)],
            .leaf (.consequence "vacancy" "let();")]] := by
  have hreach : Reachable {} ofAdults := Reachable.new.call (.package adults)
  have hok : (ofAdults.call (.package ⟨"vacancies", [vacancy]⟩)).1 = .ok [9] := by decide +kernel
  obtain ⟨new, hnew, htrees⟩ := (hreach.call_outline hok).1
  refine ⟨hok, new, hnew, htrees.trans ?_⟩
  have hgreater : Operator.determine? ">" false = some ⟨.greater, false⟩ := by decide +kernel
  have hnotEqual : Operator.determine? "==" true = some ⟨.notEqual, false⟩ := by decide +kernel
  have hage : Literal.ofText "65" = .int 65 := by decide +kernel
  have hlet : Consequence.normalize "let(); // at last" = "let();" := by decide +kernel
  simp [Call.rules, vacancy, Ast.Rule.outline, Ast.Element.outlines, Ast.Pattern.outline,
    Ast.Source.outlines, Ast.Restriction.outlines, Ast.Operand.term, hgreater, hnotEqual, hage,
    hlet, Literal.infer]

end Analyzer

end RuleBase

import RuleBase.Proofs.Analyzer.Acceptance
import RuleBase.Proofs.Analyzer.Continuity
import RuleBase.Proofs.Ast.Rendering

/-!
# Packages and their documents

A package can be added as it is, or as the document that its full rendering makes. Both come to the
same as long as the document can be read. Whether it can depends on the depth of its text, which
grows by two for a group or a quantifier and is bounded on its own, whatever the limits of the
analysis are: a package that nests far less deep than it may can be too deep for a document.

* **`Analyzer.call_document`**: a package is added from its document as it is added itself, unless
  the document is too deep;
* `tower`, **`Analyzer.Reachable.add_tower`**: groups inside one another that can be added, but not
  from a document.
-/

namespace RuleBase

open Condition

namespace Analyzer

/-- **A package is added from its document as it is added itself**, with the same answer and the
same graph, if the full rendering does not nest deeper than a document may. Otherwise the document
is malformed and nothing happens. The rendering nests at most twice as deep as the package does, and
eight levels more. -/
theorem call_document (a : Analyzer) {p : Ast.Package} (h : p.InRange) :
    (p.toJson.depth ≤ Ast.maxDocumentDepth →
        a.call (.document p.toJson.compress) = a.call (.package p)) ∧
      (Ast.maxDocumentDepth < p.toJson.depth →
        a.call (.document p.toJson.compress) = (.error (.document .malformed), a)) ∧
      p.toJson.depth ≤ 2 * p.nesting + 8 := by
  have hread := Ast.readDocument_toJson h
  refine ⟨fun hdepth => ?_, fun hdepth => ?_, (Ast.Package.within_toJson h).2⟩
  · rw [call_eq, call_eq, Call.content, Call.content, hread, if_pos hdepth]
  · rw [call_eq, Call.content, hread, if_neg (Nat.not_le.mpr hdepth)]

/-- A package of people comes to the same as its document, after another one. -/
theorem call_document_elders : elders.InRange ∧
    ofAdults.call (.document elders.toJson.compress) = ofAdults.call (.package elders) ∧
    (ofAdults.call (.package elders)).1 = .ok [9] := by
  have hrange : elders.InRange := by
    refine List.forall_mem_singleton.mpr ⟨by decide, by decide, ?_⟩
    simp [Ast.Element.InRange, Ast.Pattern.InRange, Ast.lineBound]
  have hdepth : elders.toJson.depth ≤ Ast.maxDocumentDepth := by decide
  exact ⟨hrange, (call_document ofAdults hrange).1 hdepth, by decide +kernel⟩

/-! ## Groups that are too deep for a document -/

/-- So many groups inside one another. -/
def nestedGroups : Nat → List Ast.Element
  | 0 => []
  | n + 1 => [.group .and (nestedGroups n)]

/-- A package of one rule with so many groups inside one another. -/
def tower (n : Nat) : Ast.Package :=
  ⟨"tower", [{ name := "storeys", lhs := nestedGroups n }]⟩

theorem inRange_nestedGroups (n : Nat) : ∀ e ∈ nestedGroups n, e.InRange := by
  induction n with
  | zero => simp [nestedGroups]
  | succ n ih => simpa [nestedGroups, Ast.Element.InRange] using ih

theorem inRange_tower (n : Nat) : (tower n).InRange := by
  have hsalience : -2147483648 ≤ (0 : Int) ∧ (0 : Int) ≤ 2147483647 := by decide
  have hline : 0 < Ast.lineBound := by decide
  exact List.forall_mem_singleton.mpr ⟨hsalience, hline, inRange_nestedGroups n⟩

theorem nesting_nestedGroups (n : Nat) :
    Ast.deepest ((nestedGroups n).map Ast.Element.nesting) = n := by
  induction n with
  | zero => rfl
  | succ n ih =>
    rw [nestedGroups, List.map_singleton, Ast.Element.nesting, ih, Ast.deepest]
    simp [Nat.add_comm]

theorem depth_nestedGroups (n : Nat) :
    Json.depthOfItems (Ast.elementsToJson (nestedGroups n)) = 2 * n := by
  induction n with
  | zero => rfl
  | succ n ih =>
    simp [nestedGroups, Ast.elementsToJson, Ast.Element.toJson, Ast.node, Json.depthOfItems,
      Json.depth, Json.depthOfMembers, ih]
    omega

theorem depth_tower (n : Nat) : (tower n).toJson.depth = 2 * n + 4 := by
  simp [tower, Ast.Package.toJson, Ast.Rule.toJson, Json.list, Json.depth, Json.depthOfItems,
    Json.depthOfMembers, Json.nat, depth_nestedGroups]

theorem wellPlaced_nestedGroups (n : Nat) : ∀ e ∈ nestedGroups n, e.WellPlaced .rule := by
  induction n with
  | zero => simp [nestedGroups]
  | succ n ih => simpa [nestedGroups, Ast.Element.WellPlaced] using ih

theorem visits_nestedGroups (n : Nat) : (nestedGroups n).flatMap Ast.Element.visits = [] := by
  induction n with
  | zero => rfl
  | succ n ih => simpa [nestedGroups, Ast.Element.visits] using ih

theorem items_nestedGroups (n : Nat) :
    ((nestedGroups n).flatMap fun e => e.inRule.items) = [] := by
  induction n with
  | zero => rfl
  | succ n ih => simpa [nestedGroups, Ast.Element.inRule, Formula.items] using ih

theorem ways_nestedGroups (n : Nat) :
    ways .and ((nestedGroups n).flatMap fun e => e.inRule.sizes Ast.Pattern.width) = 1 := by
  induction n with
  | zero => rfl
  | succ n ih =>
    rw [nestedGroups, List.flatMap_singleton, Ast.Element.inRule, Formula.sizes, List.flatMap_map,
      ih]
    rfl

theorem wellFormed_tower (n : Nat) : ∀ r ∈ (tower n).rules, r.WellFormed := by
  refine List.forall_mem_singleton.mpr
    (Ast.wellFormed_iff.mpr ⟨wellPlaced_nestedGroups n, ?_⟩)
  rw [Ast.Rule.visits, visits_nestedGroups]
  trivial

theorem fits_tower {n : Nat} {limits : Limits} (hn : n ≤ limits.maxNestingDepth)
    (hlimit : 1 ≤ limits.maxRulePossibilities) : ∀ r ∈ (tower n).rules, r.Fits limits := by
  refine List.forall_mem_singleton.mpr ⟨?_, ?_, ?_⟩
  · rw [Ast.Rule.nesting, nesting_nestedGroups]
    exact hn
  · rw [Ast.Rule.patterns, items_nestedGroups]
    exact List.forall_mem_nil _
  · rw [Ast.Rule.width, ways_nestedGroups]
    exact Nat.le_trans (Nat.min_le_left _ _) hlimit

/-- **A document can be too deep for a package that is accepted.** Whatever has been added before,
so many groups inside one another can be added, but not from a document. -/
theorem Reachable.add_tower {a : Analyzer} (h : Reachable {} a) {n : Nat} (hlow : 62 ≤ n)
    (hhigh : n ≤ 100) : (∃ ids, (a.call (.package (tower n))).1 = .ok ids) ∧
      a.call (.document (tower n).toJson.compress) = (.error (.document .malformed), a) := by
  constructor
  · have hlimits : a.limits = {} := h.limits_eq
    have hrules : ∀ r ∈ [tower n].flatMap (·.rules), r.WellFormed ∧ r.Fits a.limits := by
      rw [hlimits, List.flatMap_singleton]
      exact fun r hr => ⟨wellFormed_tower n r hr, fits_tower hhigh (by decide) r hr⟩
    obtain ⟨ids, hok⟩ := (addPackages_ok_iff h.settled [tower n]).mpr hrules
    refine ⟨ids, ?_⟩
    rw [call_eq]
    exact congrArg (Except.mapError LoadError.analysis) hok
  · have hdepth : ¬(tower n).toJson.depth ≤ Ast.maxDocumentDepth := by
      rw [depth_tower, Ast.maxDocumentDepth]
      omega
    rw [call_eq, Call.content, Ast.readDocument_toJson (inRange_tower n), if_neg hdepth]

/-- Sixty-two groups are within the limit on the nesting of rules. -/
theorem call_tower : Reachable {} {} ∧ (tower 62).InRange ∧ (tower 62).nesting = 62 ∧
    (∃ ids, (call {} (.package (tower 62))).1 = .ok ids) ∧
    (call {} (.document (tower 62).toJson.compress)).1 = .error (.document .malformed) := by
  obtain ⟨hok, hfail⟩ := Reachable.add_tower .new (Nat.le_refl 62) (by decide)
  refine ⟨.new, inRange_tower 62, ?_, hok, congrArg Prod.fst hfail⟩
  have hnesting : (tower 62).nesting = Ast.deepest [Ast.deepest ((nestedGroups 62).map
    Ast.Element.nesting)] := rfl
  rw [hnesting, nesting_nestedGroups]
  rfl

end Analyzer

end RuleBase

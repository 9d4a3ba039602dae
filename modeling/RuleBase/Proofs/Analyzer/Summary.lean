import Mathlib.Algebra.Ring.Nat
import RuleBase.Proofs.Analysis.Packages
import RuleBase.Proofs.Analyzer.Completeness
import RuleBase.Proofs.Report.Summary

/-!
# Summaries of analyzers

The summary of an analyzer has one row for each name of a package that has ever been accepted, also
if several calls have extended it, and its rows share out all that the graph holds: whatever is in a
package, however deep, is counted by the row of this package and by no other.

* **`Analyzer.session_summary`**: the rows of a summary share out the graph.
-/

namespace RuleBase.Analyzer

open RuleBase.Graph Analysis

variable {limits : Limits} {a : Analyzer} {id : ComponentId} {names : List String}

/-! ## Packages that are accepted -/

/-- The packages that a call brings in: all of its packages, or none if it fails. -/
def accepted (a : Analyzer) (c : Call) : List Ast.Package :=
  match (a.call c).1, c.content with
  | .ok _, .ok ps => ps
  | _, _ => []

/-- The packages that calls bring in one after another. -/
def acceptedBy (a : Analyzer) : List Call → List Ast.Package
  | [] => []
  | c :: later => a.accepted c ++ (a.call c).2.acceptedBy later

theorem accepted_of_ok {c : Call} {ids : List ComponentId} {ps : List Ast.Package}
    (hok : (a.call c).1 = .ok ids) (hcontent : c.content = .ok ps) : a.accepted c = ps := by
  rw [accepted, hok, hcontent]

theorem Reachable.packageNames_call (h : Reachable limits a)
    (hnames : a.graph.packageNames = names.eraseDups) (c : Call) :
    (a.call c).2.graph.packageNames = (names ++ (a.accepted c).map (·.name)).eraseDups := by
  cases hresult : (a.call c).1 with
  | error e =>
    have hnone : a.accepted c = [] := by rw [accepted, hresult]
    rw [(settled_call h.settled c).2 e hresult, hnone, hnames, List.map_nil, List.append_nil]
  | ok ids =>
    obtain ⟨ps, g, hcontent, hrun, hgraph⟩ := loadAll_of_call hresult
    have hstart : Moves {} a.graph.checkpoint := h.moves.trans (Move.journal _).moves
    have hend : g.commit.packageNames = g.packageNames := rfl
    rw [hgraph, hend, accepted_of_ok hresult hcontent]
    exact packageNames_loadAll hstart hnames hrun

/-- **The packages of a graph are those that were accepted**, in the order in which their names
came up. -/
theorem Reachable.packageNames_session (h : Reachable limits a)
    (hnames : a.graph.packageNames = names.eraseDups) (cs : List Call) :
    (a.session cs).2.graph.packageNames =
      (names ++ (a.acceptedBy cs).map (·.name)).eraseDups := by
  induction cs generalizing a names with
  | nil =>
    rw [acceptedBy, List.map_nil, List.append_nil]
    exact hnames
  | cons c later ih =>
    rw [acceptedBy, List.map_append, ← List.append_assoc]
    exact ih (h.call c) (h.packageNames_call hnames c)

/-! ## Places -/

/-- **Everything is in its package.** -/
theorem Reachable.housed (h : Reachable limits a) : a.graph.Housed where
  sound := h.settled.sound
  package id hpackage := by
    obtain ⟨⟨cid, parent, place, kind⟩, hc, htype⟩ := Option.map_eq_some_iff.mp hpackage
    have hfits := (h.references id _ hc).2.2.1
    cases kind <;> cases htype
    obtain rfl : parent = none := hfits
    rw [parentOf?, hc]
    rfl
  rule id r hr := by
    obtain ⟨⟨cid, parent, place, kind⟩, hc, hkind⟩ := Option.bind_eq_some_iff.mp hr
    have hfits := (h.references id _ hc).2.2.1
    cases kind <;> cases hkind
    obtain ⟨rfl, hpackage⟩ := hfits
    refine ⟨?_, hpackage⟩
    rw [parentOf?, hc]
    rfl
  pattern id p hp := (h.fits_pattern hp).inRule.nearest
  restriction id r hr := by
    obtain ⟨parent, hfits⟩ := h.fits_restriction hr
    exact hfits.inRule.nearest
  possibility p hp := by
    obtain ⟨r, hr⟩ := h.complete.rule_eq p hp
    obtain ⟨⟨cid, parent, place, kind⟩, hc, hkind⟩ := Option.bind_eq_some_iff.mp hr
    cases kind <;> cases hkind
    rw [typeOf?, hc]
    rfl

/-! ## Summaries -/

theorem map_name_shares (g : Graph) : (Report.shares g).map (·.name) = g.packageNames := by
  rw [Report.shares, List.map_map]
  rfl

theorem sum_map_length_of_perm {α β : Type} {parts : β → List α} {shares : List β} {l : List α}
    (h : (shares.flatMap parts).Perm l) :
    (shares.map fun s => (parts s).length).sum = l.length := by
  rw [← h.length_eq, List.length_flatMap]

/-- **The rows of a summary share out the graph.** After any calls there is one row for each name
of a package that has been accepted, in the order in which the names came up, with the numbers of
the rules, patterns, restrictions and rule possibilities below the package. Each of these is counted
by one row, so the columns come to the numbers of them all. The summary prints the table of these
rows, and all that is in it. -/
theorem session_summary (limits : Limits) (cs : List Call) :
    let a : Analyzer := { limits }
    let g := (a.session cs).2.graph
    ∃ shares : List Report.Share,
      (Report.summaryTable g).rows = shares.map Report.Share.row ∧
      (∀ files, Report.summary files g =
        "Flattened " ++ toString files ++ " files into " ++ toString g.size ++ " components\n\n" ++
          (Report.tableOfShares shares).render ++ "\n\n" ++
          toString (g.ofKind Kind.className?).length ++ " classes, " ++
          toString (g.ofKind Kind.field?).length ++ " fields, " ++
          toString (g.ofKind Kind.var?).length ++ " variables\n") ∧
      (∀ s ∈ shares, ∀ cell ∈ s.row, ∀ line ∈ cell.lines,
        Text.width line ≤ Report.maxColumnWidth →
          line <:+: (Report.tableOfShares shares).render.toList) ∧
      shares.map (·.name) = ((a.acceptedBy cs).map (·.name)).eraseDups ∧
      (shares.map (·.name)).Nodup ∧
      (∀ s ∈ shares, ∃ package, g.ofKind? Kind.package? package = some ⟨s.name⟩ ∧
        (∀ id ∈ s.rules ++ s.patterns ++ s.restrictions, g.Nearest .package id package) ∧
        ∀ p ∈ s.possibilities, g.Nearest .package p.rule package) ∧
      ((shares.flatMap (·.rules)).Perm (g.idsOf Kind.rule?) ∧
        (shares.flatMap (·.patterns)).Perm (g.idsOf Kind.pattern?) ∧
        (shares.flatMap (·.restrictions)).Perm (g.idsOf Kind.restriction?) ∧
        (shares.flatMap (·.possibilities)).Perm g.rulePossibilities) ∧
      ((g.idsOf Kind.rule?).Nodup ∧ (g.idsOf Kind.pattern?).Nodup ∧
        (g.idsOf Kind.restriction?).Nodup ∧ (g.rulePossibilities.map (·.id)).Nodup) ∧
      (shares.map (·.rules.length)).sum = (g.ofKind Kind.rule?).length ∧
      (shares.map (·.patterns.length)).sum = (g.ofKind Kind.pattern?).length ∧
      (shares.map (·.restrictions.length)).sum = (g.ofKind Kind.restriction?).length ∧
      (shares.map (·.possibilities.length)).sum = g.rulePossibilities.length := by
  intro a g
  have hreach : Reachable limits (a.session cs).2 := Reachable.new.calls cs
  have hhoused : g.Housed := hreach.housed
  have hsound := hhoused.sound
  have hnames : (Report.shares g).map (·.name) = ((a.acceptedBy cs).map (·.name)).eraseDups := by
    have hnone : a.graph.packageNames = ([] : List String).eraseDups := rfl
    rw [map_name_shares, Reachable.new.packageNames_session hnone cs, List.nil_append]
  have hrules := Report.rules_perm hhoused
  have hpatterns := Report.patterns_perm hhoused
  have hrestrictions := Report.restrictions_perm hhoused
  have hpossibilities := Report.possibilities_perm hhoused
  refine ⟨Report.shares g, Report.rows_summaryTable g, fun files => Report.summary_eq files g,
    fun _ hs _ hcell _ => Report.infix_tableOfShares hs hcell, hnames, hnames ▸ nodup_eraseDups _,
    fun s hs => ?_, ⟨hrules, hpatterns, hrestrictions, hpossibilities⟩,
    ⟨hsound.nodup_idsOf _, hsound.nodup_idsOf _, hsound.nodup_idsOf _,
      hreach.moves.tabled.increasing.2.imp Nat.ne_of_lt⟩,
    (sum_map_length_of_perm hrules).trans (List.length_map _),
    (sum_map_length_of_perm hpatterns).trans (List.length_map _),
    (sum_map_length_of_perm hrestrictions).trans (List.length_map _),
    sum_map_length_of_perm hpossibilities⟩
  obtain ⟨package, hpackage, rfl⟩ := List.mem_map.mp hs
  exact ⟨package.1, hsound.mem_ofKind_iff.mp hpackage, Report.nearest_share hhoused⟩

/-- A package that has been extended has one row, and one without rules has one too. -/
example :
    let g := (session {} [.package adults, .packages [⟨"empty", []⟩, adults]]).2.graph
    (Report.summaryTable g).rows = [[⟨"adults", .left⟩, .nat 2, .nat 2, .nat 2, .nat 2],
      [⟨"empty", .left⟩, .nat 0, .nat 0, .nat 0, .nat 0]] := by
  decide +kernel

end RuleBase.Analyzer

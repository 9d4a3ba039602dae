import RuleBase.Proofs.Graph.Numbered
import RuleBase.Proofs.Graph.References
import RuleBase.Proofs.Report.Table
import RuleBase.Report.Summary

/-!
# What summaries count

A row of a summary counts the rules of a package and what refers to one of them. Where everything
refers to something that is there, the rows share out all that they count, each of it to one row.

* **`Report.rules_perm`**, `Report.patterns_perm`, `Report.restrictions_perm`,
  `Report.possibilities_perm`: everything is in one share.
-/

namespace RuleBase

open RuleBase.Graph

section Sorted

variable {α κ : Type} [BEq κ] [LawfulBEq κ] {key : α → κ}

/-- **What is sorted by keys is shared out**: groups of keys get all that has a key, each of it
once. -/
theorem perm_flatMap_filter_contains {groups : List (List κ)} {l : List α}
    (hnodup : groups.flatten.Nodup) (hmem : ∀ x ∈ l, key x ∈ groups.flatten) :
    (groups.flatMap fun keys => l.filter fun x => keys.contains (key x)).Perm l := by
  induction groups generalizing l with
  | nil => simp [List.eq_nil_iff_forall_not_mem.mpr fun x hx => List.not_mem_nil (hmem x hx)]
  | cons keys rest ih =>
    obtain ⟨-, hrest, hdisjoint⟩ := List.nodup_append.mp hnodup
    let others := l.filter fun x => !keys.contains (key x)
    have hothers : ∀ x ∈ others, key x ∈ rest.flatten := by
      intro x hx
      obtain ⟨hxl, hkeys⟩ := List.mem_filter.mp hx
      exact (List.mem_append.mp (hmem x hxl)).resolve_left (by simpa using hkeys)
    -- the further groups have nothing to do with the first one
    have hsame : ∀ keys' ∈ rest, (l.filter fun x => keys'.contains (key x)) =
        others.filter fun x => keys'.contains (key x) := by
      intro keys' hkeys'
      rw [List.filter_filter]
      refine List.filter_congr fun x _ => ?_
      by_cases hx : key x ∈ keys'
      · have hnot : key x ∉ keys := fun hkeys =>
          hdisjoint _ hkeys _ (List.mem_flatten_of_mem hkeys' hx) rfl
        simp [hx, hnot]
      · simp [hx]
    rw [List.flatMap_cons, List.flatMap_congr hsame]
    exact ((ih hrest hothers).append_left _).trans (List.filter_append_perm _ l)

theorem perm_flatMap_filter {keys : List κ} {l : List α} (hnodup : keys.Nodup)
    (hmem : ∀ x ∈ l, key x ∈ keys) :
    (keys.flatMap fun k => l.filter fun x => key x == k).Perm l := by
  have hflatten : (keys.map ([·])).flatten = keys := List.flatMap_singleton' keys
  have hperm := perm_flatMap_filter_contains (hflatten.symm ▸ hnodup) (hflatten.symm ▸ hmem)
  simpa only [List.flatMap_map, List.contains_cons, List.contains_nil, Bool.or_false] using hperm

end Sorted

namespace Graph

/-! ## Numbers of components -/

/-- The numbers of the components of one kind, the oldest first. -/
def idsOf {α : Type} (g : Graph) (project? : Kind → Option α) : List ComponentId :=
  (g.ofKind project?).map (·.1)

variable {g : Graph} {id rule package : ComponentId}

theorem Sound.nodup_idsOf (h : g.Sound) {α : Type} (project? : Kind → Option α) :
    (g.idsOf project?).Nodup :=
  List.pairwise_map.mpr ((h.pairwise_ofKind project?).imp Nat.ne_of_lt)

theorem Sound.mem_idsOf_iff (h : g.Sound) {α : Type} {project? : Kind → Option α} :
    id ∈ g.idsOf project? ↔ ∃ x, g.ofKind? project? id = some x := by
  simp [idsOf, h.mem_ofKind_iff]

theorem exists_of_typeOf? {α : Type} {project? : Kind → Option α} {type : ComponentType}
    (hproject : ∀ k : Kind, k.type = type → ∃ x, project? k = some x)
    (h : g.typeOf? id = some type) : ∃ x, g.ofKind? project? id = some x := by
  obtain ⟨c, hc, htype⟩ := Option.map_eq_some_iff.mp h
  obtain ⟨x, hx⟩ := hproject c.kind htype
  exact ⟨x, Option.bind_eq_some_iff.mpr ⟨c, hc, hx⟩⟩

theorem exists_rule_of_typeOf? (h : g.typeOf? id = some .rule) :
    ∃ r, g.ofKind? Kind.rule? id = some r :=
  exists_of_typeOf? (fun k hk => by cases k <;> cases hk; exact ⟨_, rfl⟩) h

theorem exists_package_of_typeOf? (h : g.typeOf? id = some .package) :
    ∃ p, g.ofKind? Kind.package? id = some p :=
  exists_of_typeOf? (fun k hk => by cases k <;> cases hk; exact ⟨_, rfl⟩) h

/-! ## What is in packages -/

/-- Packages have no parents, all rules are in packages, and all patterns, restrictions and
possibilities in rules. -/
structure Housed (g : Graph) : Prop where
  sound : g.Sound
  package : ∀ id, g.typeOf? id = some .package → g.parentOf? id = none
  rule : ∀ id r, g.ofKind? Kind.rule? id = some r →
    g.parentOf? id = some r.package ∧ g.typeOf? r.package = some .package
  pattern : ∀ id p, g.ofKind? Kind.pattern? id = some p → g.Nearest .rule id p.rule
  restriction : ∀ id r, g.ofKind? Kind.restriction? id = some r → g.Nearest .rule id r.rule
  possibility : ∀ p ∈ g.rulePossibilities, g.typeOf? p.rule = some .rule

namespace Housed

theorem mem_rules (h : g.Housed) (hrule : g.typeOf? id = some .rule) : id ∈ g.idsOf Kind.rule? :=
  h.sound.mem_idsOf_iff.mpr (exists_rule_of_typeOf? hrule)

theorem typeOf?_ne_package (h : g.Housed) {parent : ComponentId}
    (hparent : g.parentOf? id = some parent) : g.typeOf? id ≠ some .package := by
  intro htype
  rw [h.package id htype] at hparent
  cases hparent

theorem nearest_rule (h : g.Housed) {r : Graph.Rule} (hr : g.ofKind? Kind.rule? id = some r) :
    g.Nearest .package id r.package := by
  obtain ⟨hparent, hpackage⟩ := h.rule id r hr
  exact .above (h.typeOf?_ne_package hparent) hparent (.here hpackage)

theorem nearest_package (h : g.Housed) (hrule : g.Nearest .rule id rule)
    (hpackage : g.Nearest .package rule package) : g.Nearest .package id package := by
  induction hrule with
  | here => exact hpackage
  | above _ hparent _ ih => exact .above (h.typeOf?_ne_package hparent) hparent (ih hpackage)

end Housed

end Graph

namespace Report

/-! ## Shares -/

/-- What the row of a package counts. -/
structure Share where
  name : String
  rules : List ComponentId
  patterns : List ComponentId
  restrictions : List ComponentId
  possibilities : List RulePossibility

/-- The row with the name of a share and its numbers. -/
def Share.row (s : Share) : List Cell :=
  [⟨s.name, .left⟩, .nat s.rules.length, .nat s.patterns.length, .nat s.restrictions.length,
    .nat s.possibilities.length]

/-- The share of a package. -/
def share (g : Graph) (package : ComponentId × Package) : Share :=
  let rules := rulesOfPackage g package.1
  { name := package.2.name
    rules
    patterns := rules.flatMap g.patternsOfRule
    restrictions := ((g.ofKind Kind.restriction?).filter fun r => rules.contains r.2.rule).map (·.1)
    possibilities := rules.flatMap g.rulePossibilitiesOf }

/-- The shares of all packages. -/
def shares (g : Graph) : List Share := (g.ofKind Kind.package?).map (share g)

/-- **The rows of a summary count the shares.** -/
theorem rows_summaryTable (g : Graph) : (summaryTable g).rows = (shares g).map Share.row := by
  rw [summaryTable, shares, List.map_map]
  refine List.map_congr_left fun package _ => ?_
  simp [summaryRow, packageCounts, share, Share.row]

/-- The table with a row for each share. -/
def tableOfShares (shares : List Share) : Table where
  header := [⟨"Package", .left⟩, ⟨"Rules", .right⟩, ⟨"Patterns", .right⟩, ⟨"Restrictions", .right⟩,
    ⟨"Rule possibilities", .right⟩]
  rows := shares.map Share.row

/-- **A summary prints the table of the shares**, below what the graph has been read from and above
what packages share. -/
theorem summary_eq (files : Nat) (g : Graph) : summary files g =
    "Flattened " ++ toString files ++ " files into " ++ toString g.size ++ " components\n\n" ++
      (tableOfShares (shares g)).render ++ "\n\n" ++
      toString (g.ofKind Kind.className?).length ++ " classes, " ++
      toString (g.ofKind Kind.field?).length ++ " fields, " ++
      toString (g.ofKind Kind.var?).length ++ " variables\n" := by
  have htable : tableOfShares (shares g) = summaryTable g := by
    rw [tableOfShares, ← rows_summaryTable]
    rfl
  rw [htable]
  rfl

theorem infix_tableOfShares {l : List Share} {s : Share} (hs : s ∈ l) {c : Cell} (hc : c ∈ s.row)
    {line : List Char} (hline : line ∈ c.lines) (hwidth : Text.width line ≤ maxColumnWidth) :
    line <:+: (tableOfShares l).render.toList := by
  have heven : (tableOfShares l).IsEven := by
    simp [Table.IsEven, tableOfShares, Share.row]
  have hrow : s.row ∈ (tableOfShares l).rows := List.mem_map_of_mem hs
  exact Table.infix_render heven (List.mem_cons_of_mem _ hrow) hc hline hwidth

section Shares

variable {g : Graph} {package : ComponentId × Package}

/-- **All that a row counts is below its package.** -/
theorem nearest_share (h : g.Housed) :
    (∀ id ∈ (share g package).rules ++ (share g package).patterns ++ (share g package).restrictions,
        g.Nearest .package id package.1) ∧
      ∀ p ∈ (share g package).possibilities, g.Nearest .package p.rule package.1 := by
  have hrule : ∀ id ∈ (share g package).rules, g.Nearest .package id package.1 := by
    intro id hid
    obtain ⟨r, hr, hpackage⟩ : ∃ r, g.ofKind? Kind.rule? id = some r ∧ r.package = package.1 := by
      simpa [share, rulesOfPackage, h.sound.mem_ofKind_iff] using hid
    exact hpackage ▸ h.nearest_rule hr
  refine ⟨fun id hid => ?_, fun p hp => ?_⟩
  · simp only [List.mem_append, or_assoc] at hid
    obtain hid | hid | hid := hid
    · exact hrule id hid
    · obtain ⟨rule, hmem, hpattern⟩ := List.mem_flatMap.mp hid
      obtain ⟨p, hp, rfl⟩ : ∃ p, g.ofKind? Kind.pattern? id = some p ∧ p.rule = rule := by
        simpa [patternsOfRule, h.sound.mem_ofKind_iff] using hpattern
      exact h.nearest_package (h.pattern id p hp) (hrule _ hmem)
    · obtain ⟨r, hr, hmem⟩ : ∃ r, g.ofKind? Kind.restriction? id = some r ∧
          r.rule ∈ (share g package).rules := by
        simpa [share, h.sound.mem_ofKind_iff] using hid
      exact h.nearest_package (h.restriction id r hr) (hrule _ hmem)
  · obtain ⟨rule, hmem, hp⟩ := List.mem_flatMap.mp hp
    obtain rfl : p.rule = rule := by simpa using (List.mem_filter.mp hp).2
    exact hrule _ hmem

/-- **Every rule is in one share.** -/
theorem rules_perm (h : g.Housed) : ((shares g).flatMap (·.rules)).Perm (g.idsOf Kind.rule?) := by
  have hsorted : (shares g).flatMap (·.rules) = ((g.idsOf Kind.package?).flatMap fun package =>
      (g.ofKind Kind.rule?).filter (·.2.package == package)).map (·.1) := by
    simp [shares, share, rulesOfPackage, idsOf, List.flatMap_map, List.map_flatMap]
  rw [hsorted]
  refine (perm_flatMap_filter (h.sound.nodup_idsOf _) fun r hr => ?_).map _
  have hpackage := (h.rule r.1 r.2 (h.sound.mem_ofKind_iff.mp hr)).2
  exact h.sound.mem_idsOf_iff.mpr (exists_package_of_typeOf? hpackage)

/-- What is in rules is shared out like these. -/
theorem perm_of_rules (h : g.Housed) {α : Type} {rule : α → ComponentId} {l : List α}
    (hrule : ∀ x ∈ l, g.typeOf? (rule x) = some .rule) :
    ((shares g).flatMap fun s => s.rules.flatMap fun id => l.filter (rule · == id)).Perm l := by
  rw [← List.flatMap_assoc]
  exact ((rules_perm h).flatMap_right _).trans
    (perm_flatMap_filter (h.sound.nodup_idsOf _) fun x hx => h.mem_rules (hrule x hx))

/-- **Every pattern is in one share.** -/
theorem patterns_perm (h : g.Housed) :
    ((shares g).flatMap (·.patterns)).Perm (g.idsOf Kind.pattern?) := by
  have hsorted : (shares g).flatMap (·.patterns) = ((shares g).flatMap fun s =>
      s.rules.flatMap fun id => (g.ofKind Kind.pattern?).filter (·.2.rule == id)).map (·.1) := by
    simp only [List.map_flatMap, shares, List.flatMap_map]
    rfl
  rw [hsorted]
  refine (perm_of_rules h fun p hp => ?_).map _
  exact (h.pattern p.1 p.2 (h.sound.mem_ofKind_iff.mp hp)).typeOf?_eq

/-- **Every restriction is in one share.** -/
theorem restrictions_perm (h : g.Housed) :
    ((shares g).flatMap (·.restrictions)).Perm (g.idsOf Kind.restriction?) := by
  have hsorted : (shares g).flatMap (·.restrictions) = (((shares g).map (·.rules)).flatMap
      fun rules => (g.ofKind Kind.restriction?).filter (rules.contains ·.2.rule)).map (·.1) := by
    simp only [List.map_flatMap, shares, List.flatMap_map]
    rfl
  have hflatten : ((shares g).map (·.rules)).flatten.Perm (g.idsOf Kind.rule?) := rules_perm h
  rw [hsorted]
  refine (perm_flatMap_filter_contains ?_ fun r hr => ?_).map _
  · exact hflatten.nodup_iff.mpr (h.sound.nodup_idsOf _)
  · have hrule := (h.restriction r.1 r.2 (h.sound.mem_ofKind_iff.mp hr)).typeOf?_eq
    exact hflatten.mem_iff.mpr (h.mem_rules hrule)

/-- **Every possibility of a rule is in one share.** -/
theorem possibilities_perm (h : g.Housed) :
    ((shares g).flatMap (·.possibilities)).Perm g.rulePossibilities := by
  have hsorted : (shares g).flatMap (·.possibilities) = (shares g).flatMap fun s =>
      s.rules.flatMap fun id => g.rulePossibilities.filter (·.rule == id) := by
    simp only [shares, List.flatMap_map]
    rfl
  rw [hsorted]
  exact perm_of_rules h h.possibility

end Shares

end Report

end RuleBase

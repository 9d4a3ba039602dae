import RuleBase.Proofs.Analysis.Placement
import RuleBase.Proofs.Graph.Numbered

/-!
# Tables of rules in a graph

The table of possibilities that a graph shows of a rule is the one that can be read off the rule as
it was declared. All that the table looks up has been read already, and the numbers by which it is
looked up are not shown.

* **`PlacedRule.possibilityTable_eq`**: the table of a rule;
* **`Loaded.tables_eq`**, `Loaded.possibilities_eq`: the tables of all rules.
-/

namespace RuleBase

open RuleBase.Graph Condition

/-- Restrictions are shown with the names of their fields, as their constraints have them. -/
def Graph.NamesFields (g : Graph) : Prop :=
  ∀ id, (g.ofKind? Kind.restriction? id).map (Report.restrictionText g) = g.word? id

namespace Analysis

variable {g : Graph} {r : PlacedRule} {q : PlacedPattern}

/-! ## Patterns -/

/-- A possibility of a pattern shows the heading of the pattern and its restrictions. -/
theorem patternText_eq (hnames : g.NamesFields) {p : PatternPossibility} {name : String}
    {isUnder : Quantifier → Bool} (hheading : g.heading? p.pattern = some (name, isUnder)) :
    Report.patternText g p = Ast.patternText isUnder name (p.restrictions.filterMap g.word?) := by
  obtain ⟨pattern, hpattern, heq⟩ := Option.map_eq_some_iff.mp hheading
  cases heq
  have hwords : (p.restrictions.filterMap (g.ofKind? Kind.restriction?)).map
      (Report.restrictionText g) = p.restrictions.filterMap g.word? := by
    rw [List.map_filterMap]
    exact congrArg (List.filterMap · _) (funext hnames)
  simp only [Report.patternText, hpattern, hwords]
  rfl

theorem texts_eq (hnames : g.NamesFields) (hcorrect : q.CorrectIn g.log) {name : String}
    {isUnder : Quantifier → Bool} (hheading : g.heading? q.id = some (name, isUnder)) :
    (g.log.possibilitiesOf q.id).map (Report.patternText g) = (q.reading g).texts := by
  have hread : (resolve .and (q.restrictions.flatMap (Formula.children alone))).map
      (List.map g.word?) = resolve .and ((q.restrictions.map (·.map g.word?)).flatMap
        (Formula.children fun w => [[w]])) := by
    rw [Formula.map_resolve_children, List.flatMap_map]
    exact congrArg _ (List.flatMap_congr fun t _ => (t.children_map g.word? fun w => [[w]]).symm)
  have hshow : (g.log.possibilitiesOf q.id).map (Report.patternText g) =
      ((g.log.possibilitiesOf q.id).map (·.restrictions)).map fun restrictions =>
        Ast.patternText isUnder name ((restrictions.map g.word?).filterMap id) := by
    rw [List.map_map]
    refine List.map_congr_left fun p hp => ?_
    have hpattern : p.pattern = q.id := of_decide_eq_true (List.mem_filter.mp hp).2
    rw [patternText_eq hnames (hpattern ▸ hheading)]
    simp [List.filterMap_map]
  rw [hshow, hcorrect.possibilities_eq]
  simp only [Reading.texts, PlacedPattern.reading, hheading, Option.toList_some,
    List.flatMap_singleton, ← hread, List.map_map]
  rfl

/-! ## Rules -/

theorem PlacedRule.ShownIn.exists_heading (h : r.ShownIn g) (hq : q ∈ r.patterns) :
    ∃ name isUnder, g.heading? q.id = some (name, isUnder) := by
  have hread : q.reading g ∈ (r.condition.map (·.map (PlacedPattern.reading g))).flatMap
      Formula.items := by
    rw [List.flatMap_map]
    obtain ⟨t, ht, hq⟩ := List.mem_flatMap.mp hq
    exact List.mem_flatMap.mpr ⟨t, ht, by rw [Formula.items_map]; exact List.mem_map_of_mem hq⟩
  rw [h.describes g (kept_refl g)] at hread
  obtain ⟨t, ht, hmem⟩ := List.mem_flatMap.mp hread
  obtain ⟨u, -, rfl⟩ := List.mem_map.mp ht
  rw [Formula.items_map] at hmem
  obtain ⟨o, -, ho⟩ := List.mem_map.mp hmem
  exact ⟨_, _, (congrArg Reading.heading? ho).symm⟩

/-- A possibility of a pattern as it is shown, found by its number. -/
def text? (g : Graph) (id : PossibilityId) : Option String :=
  (g.patternPossibility? id).map (Report.patternText g)

theorem possibilityText_eq (g : Graph) (p : RulePossibility) :
    Report.possibilityText g p = Ast.possibilityText ((p.patterns.map (text? g)).filterMap id) := by
  have htexts : (p.patterns.filterMap g.patternPossibility?).map (Report.patternText g) =
      (p.patterns.map (text? g)).filterMap id := by
    rw [List.map_filterMap, List.filterMap_map]
    rfl
  rw [Report.possibilityText, htexts]
  cases (p.patterns.map (text? g)).filterMap id <;> rfl

theorem map_text?_children (hnames : g.NamesFields) (hnumbered : g.Numbered)
    (hcorrect : r.CorrectIn g.log) (hshown : r.ShownIn g) :
    r.condition.flatMap
        (Formula.children fun q => (alternativesOf g.log q).map (List.map (text? g))) =
      (r.ast.lhs.map (Ast.Element.occurrences [])).flatMap
        (Formula.children fun o => (o.texts.map ([·])).map (List.map some)) := by
  have hread : r.condition.flatMap
        (Formula.children fun q => (alternativesOf g.log q).map (List.map (text? g))) =
      r.condition.flatMap
        (Formula.children fun q => (q.reading g).texts.map fun text => [some text]) := by
    refine List.flatMap_congr fun t ht => Formula.children_congr fun q hq => ?_
    have hq : q ∈ r.patterns := List.mem_flatMap.mpr ⟨t, ht, hq⟩
    obtain ⟨name, isUnder, hheading⟩ := hshown.exists_heading hq
    rw [← texts_eq hnames (hcorrect.patterns_correct q hq) hheading, alternativesOf, List.map_map,
      List.map_map]
    refine List.map_congr_left fun p hp => ?_
    simp [text?, hnumbered.patternPossibility?_eq (List.mem_filter.mp hp).1]
  have hsame := congrArg
    (List.flatMap (Formula.children fun d : Reading => d.texts.map fun text => [some text]))
    (hshown.describes g (kept_refl g))
  simp only [List.flatMap_map, Formula.children_map, Ast.Occurrence.texts_reading] at hsame
  rw [hread, hsame]
  simp only [List.flatMap_map, List.map_map]
  rfl

/-- **The possibilities of a rule are shown as they are declared.** -/
theorem rows_eq (hnames : g.NamesFields) (hnumbered : g.Numbered) (hcorrect : r.CorrectIn g.log)
    (hshown : r.ShownIn g) :
    (g.rulePossibilitiesOf r.id).map (Report.possibilityText g) = r.ast.rows := by
  have hnumbers : (g.rulePossibilitiesOf r.id).map (Report.possibilityText g) =
      ((g.log.rulePossibilitiesOf r.id).map (·.patterns)).map fun patterns =>
        Ast.possibilityText ((patterns.map (text? g)).filterMap id) := by
    rw [List.map_map]
    exact List.map_congr_left fun p _ => possibilityText_eq g p
  have hresolved : ((g.log.rulePossibilitiesOf r.id).map (·.patterns)).map (List.map (text? g)) =
      (resolve .and ((r.ast.lhs.map (Ast.Element.occurrences [])).flatMap
        (Formula.children fun o => o.texts.map ([·])))).map (List.map some) := by
    rw [hcorrect.possibilities_eq, Formula.map_resolve_children,
      map_text?_children hnames hnumbered hcorrect hshown, Formula.map_resolve_children]
  have htexts := congrArg
    (List.map fun texts : List (Option String) => Ast.possibilityText (texts.filterMap id))
    hresolved
  simp only [List.map_map, Function.comp_def, List.filterMap_map] at htexts
  rw [hnumbers, List.map_map]
  simp only [Function.comp_def, List.filterMap_map, htexts, Ast.Rule.rows, List.flatMap_map]
  simp

/-- **A graph shows a rule as it was declared**, whatever else is in it. -/
theorem PlacedRule.possibilityTable_eq (hnames : g.NamesFields) (hnumbered : g.Numbered)
    (hcorrect : r.CorrectIn g.log) (hshown : r.ShownIn g) {rule : Graph.Rule}
    (hrule : g.ofKind? Kind.rule? r.id = some rule) :
    Report.possibilityTable g (r.id, rule) = r.ast.possibilityTable := by
  have hrows := rows_eq hnames hnumbered hcorrect hshown
  have htitle := hshown.title_eq
  rw [hrule] at htitle
  obtain ⟨hname, hline⟩ := Prod.mk.inj (Option.some.inj htitle)
  have hlength : (g.rulePossibilitiesOf r.id).length = r.ast.rows.length := by
    rw [← hrows, List.length_map]
  simp only [Report.possibilityTable, Ast.Rule.possibilityTable, hname, hline, hlength, ← hrows,
    List.map_map]
  rfl

/-! ## All rules -/

/-- The lists of the possibilities of rules, or of those with one name. -/
def possibilityTables (rs : List Ast.Rule) (name : Option String) : String :=
  String.join ((rs.filter fun r => name.all (· == r.name)).map fun r =>
    r.possibilityTable.render ++ "\n")

theorem possibilityTables_append (rs rs' : List Ast.Rule) (name : Option String) :
    possibilityTables (rs ++ rs') name =
      possibilityTables rs name ++ possibilityTables rs' name := by
  rw [possibilityTables, List.filter_append, List.map_append, String.join_append]
  rfl

section Loaded

variable {rules : List PlacedRule} (h : Loaded {} g g.log rules) (hnames : g.NamesFields)
  (hsound : g.Sound) (hnumbered : g.Numbered)

include h hnames hsound hnumbered

/-- **The rules that have been loaded are shown**, in their order, with their tables. -/
theorem Loaded.tables_eq :
    (g.ofKind Kind.rule?).map (fun rule => (rule.1, rule.2.name, Report.possibilityTable g rule)) =
      rules.map fun r => (r.id, r.ast.name, r.ast.possibilityTable) := by
  have hids : (g.ofKind Kind.rule?).map (·.1) = rules.map (·.id) :=
    (Graph.rules_eq g).trans h.rules_eq
  let shown? (id : ComponentId) : Option (String × Report.Table) :=
    (g.ofKind? Kind.rule? id).map fun rule => (rule.name, Report.possibilityTable g (id, rule))
  have hcomponents : (g.ofKind Kind.rule?).map (fun rule =>
        (rule.1, some (rule.2.name, Report.possibilityTable g rule))) =
      ((g.ofKind Kind.rule?).map (·.1)).map fun id => (id, shown? id) := by
    rw [List.map_map]
    refine List.map_congr_left fun rule hrule => ?_
    simp [shown?, hsound.mem_ofKind_iff.mp hrule]
  have hrules : (rules.map (·.id)).map (fun id => (id, shown? id)) =
      rules.map fun r => (r.id, some (r.ast.name, r.ast.possibilityTable)) := by
    rw [List.map_map]
    refine List.map_congr_left fun r hr => ?_
    obtain ⟨rule, hrule, htitle⟩ := Option.map_eq_some_iff.mp (h.shown r hr).title_eq
    have htable := r.possibilityTable_eq hnames hnumbered (h.correct r hr) (h.shown r hr) hrule
    simp [shown?, hrule, htable, (Prod.mk.inj htitle).1]
  have hinjective : Function.Injective
      (fun shown : ComponentId × String × Report.Table => (shown.1, some shown.2)) := by
    rintro ⟨id, shown⟩ ⟨id', shown'⟩ heq
    simpa using heq
  refine List.map_injective_iff.mpr hinjective ?_
  rw [List.map_map, List.map_map]
  exact hcomponents.trans (hids ▸ hrules)

theorem Loaded.possibilities_eq (name : Option String) :
    Report.possibilities g name = possibilityTables (rules.map (·.ast)) name := by
  have hmap := congrArg (fun shown : List (ComponentId × String × Report.Table) =>
    (shown.filter fun s => name.all (· == s.2.1)).map fun s => s.2.2.render ++ "\n")
    (h.tables_eq hnames hsound hnumbered)
  simp only [List.filter_map, List.map_map, Function.comp_def] at hmap
  simp only [Report.possibilities, possibilityTables, List.filter_map, List.map_map,
    Function.comp_def, hmap]

end Loaded

end Analysis

end RuleBase

import RuleBase.Proofs.Analysis.Tables
import RuleBase.Proofs.Analyzer.Acceptance
import RuleBase.Proofs.Analyzer.Completeness
import RuleBase.Proofs.Report.Table

/-!
# Tables that analyzers show

Whatever else an analyzer has been given, before or after, the tables of possibilities that it shows
of the rules of a call are those that can be read off the rules. So they are the same in any two
analyzers, and the same as if there were no other rules.

* `Analyzer.tablesOf`, `Analyzer.Reachable.tablesOf_eq`: the tables of the rules of one call;
* **`Analyzer.Reachable.tables_independent`**: they do not depend on what else is loaded.
-/

namespace RuleBase.Analyzer

open RuleBase.Graph Analysis

variable {limits : Limits} {a b : Analyzer} {c c' : Call} {ids ids' : List ComponentId}

theorem Reachable.namesFields (h : Reachable limits a) : a.graph.NamesFields := by
  intro id
  cases hr : a.graph.ofKind? Kind.restriction? id with
  | none => rw [Graph.word?, hr]; rfl
  | some r =>
    obtain ⟨parent, hfits⟩ := h.fits_restriction hr
    obtain ⟨k, hk, -, -, hfield, -⟩ := hfits.agrees
    obtain ⟨-, f, -, hf, -, -, hname⟩ := (h.fits_constraint hk).agrees
    rw [← hfield] at hf
    simp [Graph.word?, hr, hk, Report.restrictionText, hf, hname]

/-! ## Whole sessions -/

/-- The rules that calls add, one after another. -/
def addedBy (a : Analyzer) : List Call → List Ast.Rule
  | [] => []
  | c :: later => a.added c ++ (a.call c).2.addedBy later

theorem Reachable.loaded_session (h : Reachable limits a) (cs : List Call) :
    ∃ new rules, rules.map PlacedRule.ast = a.addedBy cs ∧
      Loaded a.graph (a.session cs).2.graph new rules := by
  induction cs generalizing a with
  | nil => exact ⟨{}, [], rfl, Loaded.refl _⟩
  | cons c later ih =>
    obtain ⟨new, rules, hrules, hloaded⟩ := h.loaded_call c
    obtain ⟨new', rules', hrules', hloaded'⟩ := ih (h.call c)
    exact ⟨new ++ new', rules ++ rules', by simp [addedBy, hrules, hrules'],
      hloaded.trans hloaded'⟩

/-- **Lists of possibilities only grow**: after some calls, an analyzer shows what it has shown
before, and behind it the tables of the rules that were added, as they can be read off the rules. -/
theorem Reachable.possibilities_session (h : Reachable limits a) (cs : List Call)
    (name : Option String) :
    Report.possibilities (a.session cs).2.graph name =
      Report.possibilities a.graph name ++ possibilityTables (a.addedBy cs) name := by
  obtain ⟨old, hold⟩ := h.loaded
  obtain ⟨new, rules, hrules, hloaded⟩ := h.loaded_session cs
  have hnow : Loaded {} (a.session cs).2.graph (a.session cs).2.graph.log (old ++ rules) := by
    rw [hloaded.log_eq]
    exact hold.trans hloaded
  have hcalls := h.calls cs
  rw [hnow.possibilities_eq hcalls.namesFields hcalls.settled.sound hcalls.settled.numbered,
    hold.possibilities_eq h.namesFields h.settled.sound h.settled.numbered, ← hrules,
    List.map_append, possibilityTables_append]

/-! ## The rules of a call -/

/-- Among all rules that there are after later calls, those of a call are told by their numbers. -/
theorem Reachable.loaded_around (h : Reachable limits a) (c : Call) (later : List Call) :
    ∃ all rules, rules.map PlacedRule.ast = a.added c ∧
      Loaded {} ((a.call c).2.session later).2.graph ((a.call c).2.session later).2.graph.log all ∧
      (all.filter fun r => decide (a.graph.size < r.id ∧ r.id ≤ (a.call c).2.graph.size)) =
        rules := by
  obtain ⟨old, hold⟩ := h.loaded
  obtain ⟨new, rules, hrules, hcall⟩ := h.loaded_call c
  obtain ⟨new', rules', -, hlater⟩ := (h.call c).loaded_session later
  refine ⟨old ++ (rules ++ rules'), rules, hrules, ?_, ?_⟩
  · rw [hlater.log_eq, hcall.log_eq, Log.append_assoc]
    exact hold.trans (hcall.trans hlater)
  · -- older rules have smaller numbers, later ones have larger numbers
    rw [List.filter_append, List.filter_append, List.filter_eq_nil_iff.mpr fun r hr hin => ?_,
      List.filter_eq_self.mpr fun r hr => decide_eq_true (hcall.id_mem hr),
      List.filter_eq_nil_iff.mpr fun r hr hin => ?_, List.nil_append, List.append_nil]
    · exact Nat.not_lt.mpr (of_decide_eq_true hin).2 (hlater.id_mem hr).1
    · exact Nat.not_lt.mpr (hold.id_mem hr).2 (of_decide_eq_true hin).1

/-- The tables that an analyzer shows, after later calls, of the rules that have come about with a
call. -/
def tablesOf (a : Analyzer) (c : Call) (later : List Call) : List String :=
  let g := ((a.call c).2.session later).2.graph
  let rules := (g.ofKind Kind.rule?).filter fun rule =>
    a.graph.size < rule.1 ∧ rule.1 ≤ (a.call c).2.graph.size
  rules.map fun rule => (Report.possibilityTable g rule).render

/-- **They are the tables of the rules as they were declared.** -/
theorem Reachable.tablesOf_eq (h : Reachable limits a) (c : Call) (later : List Call) :
    a.tablesOf c later = (a.added c).map fun r => r.possibilityTable.render := by
  obtain ⟨all, rules, hrules, hall, hfilter⟩ := h.loaded_around c later
  have hend := (h.call c).calls later
  have hshown := congrArg (fun shown : List (ComponentId × String × Report.Table) =>
    (shown.filter fun s => decide (a.graph.size < s.1 ∧ s.1 ≤ (a.call c).2.graph.size)).map
      (·.2.2.render))
    (hall.tables_eq hend.namesFields hend.settled.sound hend.settled.numbered)
  simp only [List.filter_map, List.map_map, Function.comp_def, hfilter] at hshown
  rw [← hrules, List.map_map]
  exact hshown

theorem Reachable.tablesOf_of_ok (h : Reachable limits a) (hok : (a.call c).1 = .ok ids)
    (later : List Call) : a.tablesOf c later = c.rules.map fun r => r.possibilityTable.render := by
  rw [h.tablesOf_eq, added_of_ok hok]

theorem infix_possibilityTable {r : Ast.Rule} {row : String} (hrow : row ∈ r.rows)
    {line : List Char} (hline : line ∈ Text.lines row.toList)
    (hwidth : Text.width line ≤ Report.maxColumnWidth) :
    line <:+: r.possibilityTable.render.toList := by
  have heven : r.possibilityTable.IsEven := by simp [Report.Table.IsEven, Ast.Rule.possibilityTable]
  have hmem : ([⟨row, .left⟩] : List Report.Cell) ∈ r.possibilityTable.rows :=
    List.mem_map.mpr ⟨row, hrow, rfl⟩
  exact Report.Table.infix_render heven (List.mem_cons_of_mem _ hmem) List.mem_cons_self hline
    hwidth

/-- **The tables of rules do not depend on what else is loaded.** Every rule of a call that succeeds
has its table, as it can be read off the rule, with the possibilities in it, and this is what is
printed between the tables of older and of younger rules. It is the table of the same rule in any
other call to any other analyzer with the same limits, whatever calls come before and after. It is
the table that there is when the call is the only one, and of two calls that succeed either may come
first. -/
theorem Reachable.tables_independent (h : Reachable limits a) (h' : Reachable limits b)
    (hok : (a.call c).1 = .ok ids) (hok' : (b.call c').1 = .ok ids') (later later' : List Call) :
    (a.tablesOf c later = c.rules.map (fun r => r.possibilityTable.render) ∧
      (∀ name, Report.possibilities ((a.call c).2.session later).2.graph name =
        Report.possibilities a.graph name ++ possibilityTables c.rules name ++
          possibilityTables ((a.call c).2.addedBy later) name) ∧
      ∀ r ∈ c.rules, ∀ row ∈ r.rows, ∀ line ∈ Text.lines row.toList,
        Text.width line ≤ Report.maxColumnWidth → line <:+: r.possibilityTable.render.toList) ∧
      (a.tablesOf c later).length = c.rules.length ∧
      (∀ i j : Nat, c.rules[i]? = c'.rules[j]? →
        (a.tablesOf c later)[i]? = (b.tablesOf c' later')[j]?) ∧
      (∃ new, (Analyzer.call { limits } c).1 = .ok new ∧
        a.tablesOf c later = tablesOf { limits } c []) ∧
      ∀ d new, (a.call d).1 = .ok new →
        ∃ new' new'', ((a.call c).2.call d).1 = .ok new' ∧ ((a.call d).2.call c).1 = .ok new'' ∧
          a.tablesOf c [d] = (a.call d).2.tablesOf c [] ∧
          a.tablesOf d [c] = (a.call c).2.tablesOf d [] := by
  have hnew : Reachable limits { limits } := .new
  have htables := h.tablesOf_of_ok hok later
  refine ⟨⟨htables, fun name => ?_, fun r _ row hrow line => infix_possibilityTable hrow⟩,
    by rw [htables, List.length_map], fun i j hij => ?_, ?_, fun d new hd => ?_⟩
  · have hprinted := h.possibilities_session (c :: later) name
    rw [addedBy, added_of_ok hok, possibilityTables_append, ← String.append_assoc] at hprinted
    exact hprinted
  · rw [htables, h'.tablesOf_of_ok hok' later', List.getElem?_map, List.getElem?_map, hij]
  · obtain ⟨new, halone⟩ := h.accepts hnew hok
    exact ⟨new, halone, by rw [htables, hnew.tablesOf_of_ok halone]⟩
  · obtain ⟨new', hlast⟩ := h.accepts (h.call c) hd
    obtain ⟨new'', hlast'⟩ := h.accepts (h.call d) hok
    refine ⟨new', new'', hlast, hlast', ?_, ?_⟩
    · rw [h.tablesOf_of_ok hok, (h.call d).tablesOf_of_ok hlast']
    · rw [h.tablesOf_of_ok hd, (h.call c).tablesOf_of_ok hlast]

/-- A package whose rule is under a quantifier and has a source. -/
def vacancies : Ast.Package := ⟨"vacancies", [vacancy]⟩

/-- The rule has the same table after another package, together with it, and alone. The table shows
each of its patterns, and that of the package that fails after it is nowhere. -/
theorem tables_independent_vacancies :
    (ofAdults.call (.package vacancies)).1 = .ok [9] ∧
      (call {} (.packages [adults, vacancies])).1 = .ok [1, 9] ∧
      (ofAdults.tablesOf (.package vacancies) [.package peers])[0]? =
        (tablesOf {} (.packages [adults, vacancies]) [])[1]? ∧
      ofAdults.tablesOf (.package vacancies) [.package peers] =
        tablesOf {} (.package vacancies) [] ∧
      vacancy.rows = ["not Person(age > 65)\n& House()\n& List()",
        "not Person(age != null)\n& House()\n& List()"] ∧
      (∀ name, Report.possibilities
          ((ofAdults.call (.package vacancies)).2.session [.package peers]).2.graph name =
        Report.possibilities ofAdults.graph name ++ possibilityTables [vacancy] name) ∧
      "not Person(age != null)".toList <:+: vacancy.possibilityTable.render.toList := by
  have hok : (ofAdults.call (.package vacancies)).1 = .ok [9] := by decide +kernel
  have hok' : (call {} (.packages [adults, vacancies])).1 = .ok [1, 9] := by decide +kernel
  have hrows : vacancy.rows = ["not Person(age > 65)\n& House()\n& List()",
      "not Person(age != null)\n& House()\n& List()"] := by
    simp only [Ast.Rule.rows, vacancy, List.flatMap_cons, List.flatMap_nil,
      Ast.Element.occurrences, Ast.Pattern.occurrences, Ast.Source.occurrences?, List.map_cons,
      List.map_nil, Condition.Formula.drawnFrom, Condition.Formula.children, Ast.Occurrence.texts,
      Ast.Pattern.constraints, Ast.Element.wording, Ast.Restriction.wording]
    decide +kernel
  have hreach : Reachable {} ofAdults := Reachable.new.call _
  obtain ⟨⟨-, hprinted, hshown⟩, -, hrule, ⟨_, -, halone⟩, -⟩ :=
    Reachable.tables_independent hreach Reachable.new hok hok' [.package peers] []
  have hfail : ((ofAdults.call (.package vacancies)).2.call (.package peers)).1 =
      .error (.analysis ⟨"peer", 0, .unresolvedVariable "$a"⟩) := by decide +kernel
  have hnone : (ofAdults.call (.package vacancies)).2.addedBy [.package peers] = [] := by
    simp only [addedBy, added, hfail, List.append_nil]
  refine ⟨hok, hok', hrule 0 1 rfl, halone, hrows, fun name => ?_, ?_⟩
  · rw [hprinted name, hnone]
    exact String.append_empty
  · exact hshown vacancy List.mem_cons_self _ (hrows ▸ List.mem_cons_of_mem _ List.mem_cons_self) _
      (by decide +kernel) (by decide +kernel)

end RuleBase.Analyzer

import RuleBase.Proofs.Analysis.Expanded

/-!
# The walk through a condition

A pattern is expanded in three parts: its component, the pattern that it is drawn from, and its own
constraints with their possibilities. From there the walk through the elements of a rule follows the
formula of the condition.

* `patternLog`, **`expanded_pattern`**: a pattern around the one that it is drawn from;
* **`expand_element`**: the walk through an element of a rule.
-/

namespace RuleBase.Analysis

open RuleBase.Graph Condition

variable {limits : Limits} {s s' : State}

/-! ## Possibilities of a pattern -/

/-- The possibilities of a pattern as a graph keeps them next. -/
def newPossibilities (g : Graph) (rule pattern : ComponentId)
    (possibilities : List (List ComponentId)) : List PatternPossibility :=
  (number g.issued possibilities).map fun (id, restrictions) => ⟨id, rule, pattern, restrictions⟩

theorem map_restrictions_newPossibilities (g : Graph) (rule pattern : ComponentId)
    (possibilities : List (List ComponentId)) :
    (newPossibilities g rule pattern possibilities).map (·.restrictions) = possibilities := by
  rw [newPossibilities, List.map_map]
  exact map_snd_number g.issued possibilities

theorem map_id_newPossibilities (g : Graph) (rule pattern : ComponentId)
    (possibilities : List (List ComponentId)) :
    (newPossibilities g rule pattern possibilities).map ([·.id]) =
      (g.nextPossibilities possibilities.length).map ([·]) := by
  rw [← map_fst_number, newPossibilities, List.map_map, List.map_map]
  rfl

theorem pattern_newPossibilities {g : Graph} {rule pattern : ComponentId}
    {possibilities : List (List ComponentId)} {p : PatternPossibility}
    (hp : p ∈ newPossibilities g rule pattern possibilities) : p.pattern = pattern := by
  obtain ⟨entry, -, rfl⟩ := List.mem_map.mp hp
  rfl

theorem rule_newPossibilities {g : Graph} {rule pattern : ComponentId}
    {possibilities : List (List ComponentId)} {p : PatternPossibility}
    (hp : p ∈ newPossibilities g rule pattern possibilities) : p.rule = rule := by
  obtain ⟨entry, -, rfl⟩ := List.mem_map.mp hp
  rfl

theorem log_addPatternPossibilities (g : Graph) (rule pattern : ComponentId)
    (possibilities : List (List ComponentId)) :
    (g.addPatternPossibilities rule pattern possibilities).log =
      g.log ++ { patternPossibilities := newPossibilities g rule pattern possibilities } := by
  change Log.mk _ _ _ = Log.mk _ _ _
  simp [log, ofKind, Graph.addPatternPossibilities, newPossibilities]

/-- The log of the constraints of a pattern. -/
def constraintLog (id : ComponentId) (ids : List ComponentId)
    (possibilities : List PatternPossibility) : Log :=
  { restrictionLog id ids with patternPossibilities := possibilities }

section ConstraintLog

variable {id : ComponentId} {ids : List ComponentId} {possibilities : List PatternPossibility}

theorem constraintLog_eq :
    restrictionLog id ids ++ { patternPossibilities := possibilities } =
      constraintLog id ids possibilities := by
  change Log.mk _ _ _ = Log.mk _ _ _
  simp [restrictionLog]

theorem withEntry_constraintLog_self :
    (constraintLog id ids possibilities).withEntry (.restriction id) = ids := by
  simp only [Log.withEntry, constraintLog, restrictionLog]
  induction ids with
  | nil => rfl
  | cons i rest ih => simp [ih]

theorem withEntry_constraintLog {e : Entry} (he : e ≠ .restriction id) :
    (constraintLog id ids possibilities).withEntry e = [] := by
  simp only [Log.withEntry, constraintLog, restrictionLog, List.map_eq_nil_iff,
    List.filter_eq_nil_iff, List.mem_map]
  rintro _ ⟨i, -, rfl⟩
  simpa using Ne.symm he

theorem possibilitiesOf_constraintLog_self (h : ∀ p ∈ possibilities, p.pattern = id) :
    (constraintLog id ids possibilities).possibilitiesOf id = possibilities :=
  List.filter_eq_self.mpr fun p hp => by simp [h p hp]

theorem possibilitiesOf_constraintLog (h : ∀ p ∈ possibilities, p.pattern = id)
    {pattern : ComponentId} (hne : pattern ≠ id) :
    (constraintLog id ids possibilities).possibilitiesOf pattern = [] :=
  List.filter_eq_nil_iff.mpr fun p hp => by simp [h p hp, Ne.symm hne]

end ConstraintLog

/-- From one state to another, the constraints of a pattern have become restrictions, and their
possibilities have been kept and handed to the rule. -/
structure Closing (rule id : ComponentId) (s s' : State) (parts : List (Formula ComponentId))
    (possibilities : List PatternPossibility) : Prop where
  log_eq : s'.graph.log =
    s.graph.log ++ constraintLog id (parts.flatMap Formula.items) possibilities
  size_le : s.graph.size ≤ s'.graph.size
  kept : Kept s.graph s'.graph
  id_mem : ∀ i ∈ parts.flatMap Formula.items, s.graph.size < i ∧ i ≤ s'.graph.size
  pattern_eq : ∀ p ∈ possibilities, p.pattern = id
  rule_eq : ∀ p ∈ possibilities, p.rule = rule
  restrictions_eq : possibilities.map (·.restrictions) =
    resolve .and (parts.flatMap (Formula.children alone))
  scopes_eq : pushToRule? (possibilities.map ([·.id])) s.scopes = some s'.scopes

theorem closing_of_ok {rule : RuleSite} {site : Site} {inner : PatternSite} {id : ComponentId}
    {constraints : List Ast.Element} {closed : Closed} {s₁ : State}
    (hinner : site.pattern? = some inner) (hid : inner.id = id)
    (hwithin : within limits rule (.pattern id) (lowerElements limits site id constraints) s =
      .ok closed s₁)
    (hhand : handOver rule closed s₁ = .ok () s') :
    ∃ parts possibilities, Reads s'.graph parts (constraints.map Ast.Element.wording) ∧
      Closing rule.id id s s' parts possibilities := by
  subst hid
  obtain ⟨frame, s₂, hframe, hinside, scopes, hclose, rfl⟩ := within_eq_ok hwithin
  obtain ⟨-, rfl⟩ := newFrame_pattern hframe
  obtain ⟨parts, hparts, hcollected⟩ := collect_elements hinner constraints rfl hinside
  have hscopes := hcollected.scopes_eq
  rw [pushAll_pattern] at hscopes
  obtain ⟨rfl, rfl⟩ := close_pattern (hclose _ _ (Option.some.inj hscopes).symm)
  obtain ⟨ids, s₃, hkeep, hadd⟩ := bind_eq_ok hhand
  cases hkeep
  obtain ⟨scopes', hpush, rfl⟩ := inScopes_eq_ok hadd
  have hpushed := addToRule_eq_ok hpush
  have hcombined : Group.combined ⟨.and, parts.flatMap (Formula.children alone)⟩ =
      resolve .and (parts.flatMap (Formula.children alone)) := combine_eq_resolve _ _
  rw [hcombined] at hpushed
  refine ⟨parts, newPossibilities s₂.graph rule.id inner.id
    (resolve .and (parts.flatMap (Formula.children alone))), hparts, ?_, hcollected.size_le,
    hcollected.kept, hcollected.id_mem, fun p hp => pattern_newPossibilities hp,
    fun p hp => rule_newPossibilities hp, map_restrictions_newPossibilities _ _ _ _, ?_⟩
  · have hlog := hcollected.log_eq
    rw [← hcombined, log_addPatternPossibilities, hlog, Log.append_assoc, constraintLog_eq]
  · rw [map_id_newPossibilities]
    exact hpushed

/-! ## Patterns with their sources -/

/-- The log of a pattern: the pattern, what it is drawn from, and its constraints. -/
def patternLog (rule id : ComponentId) (input : Log) (ids : List ComponentId)
    (possibilities : List PatternPossibility) : Log :=
  Log.single id (some (.pattern rule)) ++ (input ++ constraintLog id ids possibilities)

section PatternLog

variable {rule id lo hi : ComponentId} {input : Log} {ids : List ComponentId}
  {possibilities : List PatternPossibility}

theorem withEntry_single (id : ComponentId) (e e' : Entry) :
    (Log.single id (some e)).withEntry e' = if e = e' then [id] else [] := by
  by_cases h : e = e' <;> simp [Log.withEntry, Log.single, h]

theorem withEntry_patternLog_pattern :
    (patternLog rule id input ids possibilities).withEntry (.pattern rule) =
      id :: input.withEntry (.pattern rule) := by
  simp [patternLog, withEntry_single, withEntry_constraintLog]

theorem withEntry_patternLog_self (hinput : input.Within lo hi) (hid : id ≤ lo) :
    (patternLog rule id input ids possibilities).withEntry (.restriction id) = ids := by
  simp [patternLog, withEntry_single, withEntry_constraintLog_self,
    hinput.withEntry_restriction (Or.inl hid)]

theorem possibilitiesOf_patternLog_self (h : ∀ p ∈ possibilities, p.pattern = id)
    (hinput : input.Within lo hi) (hid : id ≤ lo) :
    (patternLog rule id input ids possibilities).possibilitiesOf id = possibilities := by
  rw [patternLog, Log.possibilitiesOf_append, Log.possibilitiesOf_append,
    hinput.possibilitiesOf (Or.inl hid), possibilitiesOf_constraintLog_self h]
  rfl

theorem withEntry_patternLog {pattern : ComponentId} (hne : pattern ≠ id) :
    (patternLog rule id input ids possibilities).withEntry (.restriction pattern) =
      input.withEntry (.restriction pattern) := by
  simp [patternLog, withEntry_single, withEntry_constraintLog, hne]

theorem possibilitiesOf_patternLog (h : ∀ p ∈ possibilities, p.pattern = id)
    {pattern : ComponentId} (hne : pattern ≠ id) :
    (patternLog rule id input ids possibilities).possibilitiesOf pattern =
      input.possibilitiesOf pattern := by
  rw [patternLog, Log.possibilitiesOf_append, Log.possibilitiesOf_append,
    possibilitiesOf_constraintLog h hne, List.append_nil]
  rfl

theorem entry_patternLog
    (h : ∀ e ∈ input.entries, e.2 = .pattern rule ∨ ∃ pattern, e.2 = .restriction pattern) :
    ∀ e ∈ (patternLog rule id input ids possibilities).entries,
      e.2 = .pattern rule ∨ ∃ pattern, e.2 = .restriction pattern := by
  intro e he
  rcases List.mem_append.mp he with he | he
  · obtain rfl : e = (id, .pattern rule) := by simpa [Log.single] using he
    exact Or.inl rfl
  · rcases List.mem_append.mp he with he | he
    · exact h e he
    · obtain ⟨i, -, rfl⟩ := List.mem_map.mp he
      exact Or.inr ⟨id, rfl⟩

theorem within_patternLog (hid : lo < id ∧ id ≤ hi) (hinput : input.Within lo hi)
    (hids : ∀ i ∈ ids, lo < i ∧ i ≤ hi) (h : ∀ p ∈ possibilities, p.pattern = id) :
    (patternLog rule id input ids possibilities).Within lo hi := by
  have hsingle : (Log.single id (some (.pattern rule))).Within lo hi := by
    refine ⟨?_, ?_, ?_, ?_⟩ <;> simp [Log.single, hid]
  have hconstraints : (constraintLog id ids possibilities).Within lo hi := by
    refine ⟨fun e he => ?_, fun e he pattern hpattern => ?_, fun p hp => ?_, ?_⟩
    · obtain ⟨i, hi, rfl⟩ := List.mem_map.mp he
      exact hids i hi
    · obtain ⟨i, hi, rfl⟩ := List.mem_map.mp he
      cases hpattern
      exact hid
    · rw [h p hp]
      exact hid
    · rintro _ ⟨⟩
  exact hsingle.append (hinput.append hconstraints)

end PatternLog

/-- **A pattern is expanded around the one that it is drawn from**: its component comes first, its
possibilities come last. -/
theorem expanded_pattern (p : Ast.Pattern) {rule id : ComponentId} {parent : Option ComponentId}
    {kind : Graph.Pattern} {s₁ s₂ s₃ s₄ s₅ : State} {new : Log}
    {input : Option (Formula PlacedPattern)} {parts : List (Formula ComponentId)}
    {possibilities : List PatternPossibility}
    (before : Quiet s s₁) (hrule : kind.rule = rule)
    (added : Added id parent (.pattern kind) s₁ s₂) (bound : Quiet s₂ s₃)
    (drawn : Expanded rule s₃ s₄ new input.toList) (attached : Quiet s₄ s₅)
    (reads : Reads s'.graph parts (p.constraints.map Ast.Element.wording))
    (closing : Closing rule id s₅ s' parts possibilities) :
    Expanded rule s s'
      (patternLog rule id new (parts.flatMap Formula.items) possibilities)
      [.drawnFrom ⟨id, p, parts⟩ input] := by
  subst hrule
  have hlo : s.graph.size < id := Nat.lt_of_le_of_lt before.size_le added.lt
  have hid₃ : id ≤ s₃.graph.size := added.size_eq ▸ bound.size_le
  have hid₅ : id ≤ s₅.graph.size :=
    Nat.le_trans hid₃ (Nat.le_trans drawn.size_le attached.size_le)
  have hhi : s₄.graph.size ≤ s'.graph.size := Nat.le_trans attached.size_le closing.size_le
  have hid : id ≤ s'.graph.size := Nat.le_trans hid₅ closing.size_le
  have hitems : [Formula.drawnFrom (PlacedPattern.mk id p parts) input].flatMap Formula.items =
      ⟨id, p, parts⟩ :: input.toList.flatMap Formula.items := by
    simp [Formula.items_drawnFrom]
  -- the input is younger than the pattern, so neither takes part in what is asked of the other
  have hinput : ∀ q ∈ input.toList.flatMap Formula.items, q.id ≠ id := fun q hq heq =>
    absurd (heq ▸ (drawn.id_mem hq).1) (Nat.not_lt.mpr hid₃)
  have hself : (patternLog kind.rule id new (parts.flatMap Formula.items)
      possibilities).possibilitiesOf id = possibilities :=
    possibilitiesOf_patternLog_self closing.pattern_eq drawn.within hid₃
  have hkept : Kept s.graph s'.graph := before.kept.trans <| added.kept.trans <|
    bound.kept.trans <| drawn.kept.trans <| attached.kept.trans closing.kept
  refine ⟨?_, Nat.le_trans (Nat.le_of_lt hlo) hid, hkept, ?_, ?_, ?_, ?_, ?_, ?_, ?_, ?_⟩
  · rw [closing.log_eq, attached.log_eq, drawn.log_eq, bound.log_eq, added.log_eq,
      before.log_eq, patternLog, Kind.logged?, Log.append_assoc, Log.append_assoc]
  · refine within_patternLog ⟨hlo, hid⟩ (drawn.within.mono ?_ hhi) (fun i hi => ?_)
      closing.pattern_eq
    · exact Nat.le_trans (Nat.le_of_lt hlo) hid₃
    · have hmem := closing.id_mem i hi
      exact ⟨Nat.lt_trans hlo (Nat.lt_of_le_of_lt hid₅ hmem.1), hmem.2⟩
  · exact entry_patternLog drawn.entry_eq
  · change [] ++ (new.rulePossibilities ++ []) = []
    rw [drawn.rulePossibilities_eq]
    rfl
  · rw [withEntry_patternLog_pattern, drawn.patterns_eq, hitems, List.map_cons]
  · rw [hitems, List.forall_mem_cons]
    refine ⟨⟨shape_eq_of_reads reads, withEntry_patternLog_self drawn.within hid₃, ?_⟩,
      fun q hq => ?_⟩
    · rw [hself]
      exact closing.restrictions_eq
    · exact (drawn.correct q hq).of_eq (withEntry_patternLog (hinput q hq))
        (possibilitiesOf_patternLog closing.pattern_eq (hinput q hq))
  · have hchildren : input.toList.flatMap (Formula.children (alternativesOf
          (patternLog kind.rule id new (parts.flatMap Formula.items) possibilities))) =
        input.toList.flatMap (Formula.children (alternativesOf new)) :=
      children_alternativesOf_congr fun q hq =>
        possibilitiesOf_patternLog closing.pattern_eq (hinput q hq)
    rw [List.flatMap_singleton, Formula.children_drawnFrom, hchildren, alternativesOf, hself,
      pushAll_append, ← before.scopes_eq, ← added.scopes_eq, ← bound.scopes_eq, drawn.scopes_eq,
      ← attached.scopes_eq]
    simp [pushAll, closing.scopes_eq]
  · have hsame : (input.toList.flatMap Formula.closing).flatMap (fun q =>
          (patternLog kind.rule id new (parts.flatMap Formula.items)
            possibilities).possibilitiesOf q.id) =
        (input.toList.flatMap Formula.closing).flatMap fun q => new.possibilitiesOf q.id :=
      List.flatMap_congr fun q hq =>
        possibilitiesOf_patternLog closing.pattern_eq (hinput q (mem_closing_iff.mp hq))
    rw [List.flatMap_singleton, Formula.closing_drawnFrom, List.flatMap_append, hsame,
      List.flatMap_singleton, hself, ← drawn.kept_eq]
    rfl
  · intro q (hq : q ∈ new.patternPossibilities ++ possibilities)
    rcases List.mem_append.mp hq with hq | hq
    · exact drawn.rule_eq q hq
    · exact closing.rule_eq q hq

/-! ## Elements -/

/-- A new pattern is shown as it is declared, under the quantifiers that are open. -/
theorem describes_pattern {objectType : String} {identifier : Option String}
    {source : Option Ast.Source} {constraints : List Ast.Element} {line : Nat}
    {around : List Quantifier} {id : ComponentId} {parent : Option ComponentId}
    {kind : Graph.Pattern} {parts : List (Formula ComponentId)} {s₁ s₂ : State}
    (hname : kind.name = objectType)
    (hunder : ∀ q, kind.isUnder q = quantifiedBy q s.scopes) (houtside : Outside around s.scopes)
    (added : Added id parent (.pattern kind) s₁ s₂) (hkept : Kept s₂.graph s'.graph)
    (reads : Reads s'.graph parts (constraints.map Ast.Element.wording)) {g : Graph}
    (hlater : Kept s'.graph g) :
    PlacedPattern.reading g ⟨id, .mk objectType identifier source constraints line, parts⟩ =
      Ast.Occurrence.reading ⟨.mk objectType identifier source constraints line, around⟩ := by
  have hmade := added.made.keep (hkept.trans hlater)
  have hquantifiers : kind.isUnder =
      Ast.Occurrence.isUnder ⟨.mk objectType identifier source constraints line, around⟩ :=
    funext fun q => (hunder q).trans (houtside.quantifiedBy_eq q)
  have hwords := reads g hlater
  rw [List.map_map] at hwords
  simp only [PlacedPattern.reading, Ast.Occurrence.reading, hmade.heading?, hname, hquantifiers,
    hwords]
  rfl

theorem Quiet.expands_nothing {rule : ComponentId} (h : Quiet s s') :
    ∃ new t, Describes s'.graph [t] [.list []] ∧ Expanded rule s s' new [t] :=
  ⟨_, .list [], (Says.nil _).list, h.expanded.list⟩

mutual
/-- **The walk through an element of a rule** expands what its formula says. -/
theorem expand_element {site : Site} {parent : ComponentId} (hsite : site.pattern? = none)
    (e : Ast.Element) {around : List Quantifier} {s s' : State}
    (houtside : Outside around s.scopes)
    (hrun : lowerElement limits site parent e s = .ok () s') :
    ∃ new t, Describes s'.graph [t] [e.occurrences around] ∧
      Expanded site.rule.id s s' new [t] := by
  have hplain := admits_quiet site.rule.id
  have hnone : ∀ (node : Inner) (pattern : PatternSite) (s₁ : State),
      site.pattern node s ≠ .ok pattern s₁ := by
    intro node pattern s₁ hpattern
    rw [(site_pattern_eq_ok hpattern).1] at hsite
    cases hsite
  cases e with
  | pattern p =>
    rw [lowerElement] at hrun
    obtain ⟨id, s₁, hpattern, hdone⟩ := bind_eq_ok hrun
    cases hdone
    rw [Ast.Element.occurrences]
    exact expand_pattern hsite p houtside hpattern
  | group connective elements =>
    rw [lowerElement] at hrun
    obtain ⟨site', s₁, hdescend, hrun₁⟩ := bind_eq_ok hrun
    obtain ⟨⟨depth, rfl⟩, rfl⟩ := descend_eq_ok hdescend
    obtain ⟨id, s₂, hadd, hrun₂⟩ := bind_eq_ok hrun₁
    obtain ⟨closed, s₃, hwithin, hdone⟩ := bind_eq_ok hrun₂
    cases hdone
    have hquiet : Quiet s₁ s₂ := (plain_add hplain rfl rfl).of_ok hadd
    have hdeeper : ({ site with depth } : Site).pattern? = none := hsite
    rw [Ast.Element.occurrences]
    obtain ⟨new, t, ht, hexpanded⟩ := expanded_within_group
      (fun _ _ houtside hrun => expand_elements hdeeper elements houtside hrun)
      (hquiet.scopes_eq ▸ houtside) hwithin
    exact ⟨_, t, ht, hquiet.expanded.trans hexpanded⟩
  | quantified q elements =>
    rw [lowerElement] at hrun
    obtain ⟨site', s₁, hdescend, hrun₁⟩ := bind_eq_ok hrun
    obtain ⟨⟨depth, rfl⟩, rfl⟩ := descend_eq_ok hdescend
    obtain ⟨closed, s₃, hwithin, hdone⟩ := bind_eq_ok hrun₁
    cases hdone
    have hdeeper : ({ site with depth } : Site).pattern? = none := hsite
    rw [Ast.Element.occurrences]
    exact expanded_within_list
      (fun _ _ houtside hrun => expand_elements hdeeper elements houtside hrun) houtside hwithin
  | eval content method =>
    rw [lowerElement] at hrun
    obtain ⟨id, s₁, hadd, hdone⟩ := bind_eq_ok hrun
    cases hdone
    have hquiet : Quiet s s' := (plain_add hplain rfl rfl).of_ok hadd
    rw [Ast.Element.occurrences]
    exact hquiet.expands_nothing
  | predicate content method =>
    rw [lowerElement] at hrun
    obtain ⟨pattern, s₁, hpattern, -⟩ := bind_eq_ok hrun
    exact absurd hpattern (hnone _ _ _)
  | constraint fieldName restrictions line =>
    rw [lowerElement] at hrun
    obtain ⟨pattern, s₁, hpattern, -⟩ := bind_eq_ok hrun
    exact absurd hpattern (hnone _ _ _)
  | binding identifier fieldName line =>
    rw [lowerElement] at hrun
    obtain ⟨pattern, s₁, hpattern, -⟩ := bind_eq_ok hrun
    exact absurd hpattern (hnone _ _ _)
  | unknown =>
    rw [lowerElement] at hrun
    cases hrun
    rw [Ast.Element.occurrences]
    exact (quiet_refl s).expands_nothing

theorem expand_elements {site : Site} {parent : ComponentId} (hsite : site.pattern? = none)
    (es : List Ast.Element) {around : List Quantifier} {s s' : State}
    (houtside : Outside around s.scopes)
    (hrun : lowerElements limits site parent es s = .ok () s') :
    ∃ new ts, Describes s'.graph ts (es.map (Ast.Element.occurrences around)) ∧
      Expanded site.rule.id s s' new ts := by
  cases es with
  | nil =>
    rw [lowerElements] at hrun
    cases hrun
    exact ⟨_, [], Says.nil _, (quiet_refl s).expanded⟩
  | cons e rest =>
    rw [lowerElements] at hrun
    obtain ⟨u, s₁, hfirst, hrest⟩ := bind_eq_ok hrun
    obtain ⟨new, t, ht, hexpanded⟩ := expand_element hsite e houtside hfirst
    obtain ⟨new', ts, hts, hmore⟩ :=
      expand_elements hsite rest (hexpanded.outside houtside) hrest
    exact ⟨_, t :: ts, (ht.keep hmore.kept).append hts, hexpanded.trans hmore⟩

theorem expand_pattern {site : Site} {parent : ComponentId} (hsite : site.pattern? = none)
    (p : Ast.Pattern) {around : List Quantifier} {s s' : State} {id : ComponentId}
    (houtside : Outside around s.scopes)
    (hrun : lowerPattern limits site parent p s = .ok id s') :
    ∃ new t, Describes s'.graph [t] [p.occurrences around] ∧
      Expanded site.rule.id s s' new [t] := by
  obtain ⟨objectType, identifier, source, constraints, line⟩ := p
  obtain ⟨depth, before, hrule, hname, hunder, hadd, bound, drawn, attached, hid, inside,
    handed⟩ := patternRun_of_ok hrun
  have added := added_of_add hadd
  have hscopes := bound.scopes_eq.trans (added.scopes_eq.trans before.scopes_eq)
  have hdeeper : ({ site with depth } : Site).pattern? = none := hsite
  obtain ⟨new, input, hinput, hexpanded⟩ :=
    expand_source? hdeeper source (hscopes ▸ houtside) drawn
  obtain ⟨parts, possibilities, hparts, hclosing⟩ := closing_of_ok rfl hid inside handed
  have hsource := attached.kept.trans hclosing.kept
  refine ⟨_, _, ?_, expanded_pattern (.mk objectType identifier source constraints line) before
    hrule added bound hexpanded attached hparts hclosing⟩
  rw [Ast.occurrences_mk]
  refine Says.drawnFrom (fun g hlater => ?_) (hinput.keep hsource)
  exact describes_pattern hname hunder houtside added
    (bound.kept.trans (hexpanded.kept.trans hsource)) hparts hlater

theorem expand_source? {site : Site} {parent : ComponentId} (hsite : site.pattern? = none)
    (source : Option Ast.Source) {around : List Quantifier} {s s' : State}
    {reference : Option Reference} (houtside : Outside around s.scopes)
    (hrun : lowerSource? limits site parent source s = .ok reference s') :
    ∃ new, ∃ input : Option (Formula PlacedPattern),
      Describes s'.graph input.toList (source.bind (·.occurrences? around)).toList ∧
      Expanded site.rule.id s s' new input.toList := by
  cases source with
  | none =>
    rw [lowerSource?] at hrun
    cases hrun
    exact ⟨_, none, Says.nil _, (quiet_refl s).expanded⟩
  | some source =>
    rw [lowerSource?] at hrun
    exact expand_source hsite source houtside hrun

theorem expand_source {site : Site} {parent : ComponentId} (hsite : site.pattern? = none)
    (source : Ast.Source) {around : List Quantifier} {s s' : State}
    {reference : Option Reference} (houtside : Outside around s.scopes)
    (hrun : lowerSource limits site parent source s = .ok reference s') :
    ∃ new, ∃ input : Option (Formula PlacedPattern),
      Describes s'.graph input.toList (source.occurrences? around).toList ∧
      Expanded site.rule.id s s' new input.toList := by
  cases sourceRun_of_ok hrun with
  | accumulate depth before inner after =>
    have hdeeper : ({ site with depth } : Site).pattern? = none := hsite
    obtain ⟨new, t, ht, hexpanded⟩ :=
      expand_pattern hdeeper _ (before.scopes_eq ▸ houtside) inner
    rw [Ast.Source.occurrences?]
    exact ⟨_, some t, ht.keep after.kept,
      (before.expanded.trans hexpanded).trans after.expanded⟩
  | collect depth before inner after =>
    have hdeeper : ({ site with depth } : Site).pattern? = none := hsite
    obtain ⟨new, t, ht, hexpanded⟩ :=
      expand_pattern hdeeper _ (before.scopes_eq ▸ houtside) inner
    rw [Ast.Source.occurrences?]
    exact ⟨_, some t, ht.keep after.kept,
      (before.expanded.trans hexpanded).trans after.expanded⟩
  | supplied quiet =>
    rw [Ast.Source.occurrences?]
    exact ⟨_, none, Says.nil _, quiet.expanded⟩
  | unknown quiet =>
    rw [Ast.Source.occurrences?]
    exact ⟨_, none, Says.nil _, quiet.expanded⟩
end

end RuleBase.Analysis

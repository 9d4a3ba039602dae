import RuleBase.Proofs.Analysis.Expansion

/-!
# Rules in a log

A package that is loaded has added one rule for each rule that it declares, and each of them has the
patterns of its condition and the possibilities that the formula of its condition admits.

* `loaded_of_lowerRule`, **`loaded_of_load`**, `loaded_of_loadAll`: what has been loaded.
-/

namespace RuleBase.Analysis

open RuleBase.Graph Condition

/-- A rule with its component, and the formulas of its condition over the patterns in the log. -/
structure PlacedRule where
  id : ComponentId
  ast : Ast.Rule
  condition : List (Formula PlacedPattern)

/-- The patterns of a rule. -/
def PlacedRule.patterns (r : PlacedRule) : List PlacedPattern :=
  r.condition.flatMap Formula.items

/-- A log has the patterns of a rule, and the possibilities that they admit. -/
structure PlacedRule.CorrectIn (r : PlacedRule) (log : Log) : Prop where
  shape_eq : r.condition.map (Formula.map PlacedPattern.ast) = r.ast.lhs.map Ast.Element.inRule
  patterns_eq : log.withEntry (.pattern r.id) = r.patterns.map (·.id)
  patterns_correct : ∀ q ∈ r.patterns, q.CorrectIn log
  possibilities_eq : (log.rulePossibilitiesOf r.id).map (·.patterns) =
    resolve .and (r.condition.flatMap (Formula.children (alternativesOf log)))
  rule_eq : ∀ q ∈ r.patterns, ∀ p ∈ log.possibilitiesOf q.id, p.rule = r.id

/-- The possibilities of its patterns in a log, those of one pattern after those of another. -/
def PlacedRule.keptIn (r : PlacedRule) (log : Log) : List PatternPossibility :=
  (r.condition.flatMap Formula.closing).flatMap fun q => log.possibilitiesOf q.id

/-- Two logs agree on a rule. -/
structure PlacedRule.SameIn (r : PlacedRule) (log log' : Log) : Prop where
  patterns_eq : log'.withEntry (.pattern r.id) = log.withEntry (.pattern r.id)
  possibilities_eq : log'.rulePossibilitiesOf r.id = log.rulePossibilitiesOf r.id
  restrictions_eq : ∀ q ∈ r.patterns,
    log'.withEntry (.restriction q.id) = log.withEntry (.restriction q.id)
  patternPossibilities_eq : ∀ q ∈ r.patterns, log'.possibilitiesOf q.id = log.possibilitiesOf q.id

theorem PlacedRule.SameIn.keptIn_eq {r : PlacedRule} {log log' : Log} (h : r.SameIn log log') :
    r.keptIn log' = r.keptIn log :=
  List.flatMap_congr fun q hq => h.patternPossibilities_eq q (mem_closing_iff.mp hq)

theorem PlacedRule.CorrectIn.of_same {r : PlacedRule} {log log' : Log} (h : r.CorrectIn log)
    (hsame : r.SameIn log log') : r.CorrectIn log' where
  shape_eq := h.shape_eq
  patterns_eq := hsame.patterns_eq.trans h.patterns_eq
  patterns_correct q hq := (h.patterns_correct q hq).of_eq (hsame.restrictions_eq q hq)
    (hsame.patternPossibilities_eq q hq)
  possibilities_eq := by
    rw [hsame.possibilities_eq, children_alternativesOf_congr hsame.patternPossibilities_eq]
    exact h.possibilities_eq
  rule_eq q hq := by
    rw [hsame.patternPossibilities_eq q hq]
    exact h.rule_eq q hq

theorem PlacedRule.CorrectIn.id_mem {r : PlacedRule} {log : Log} {lo hi : Nat}
    (h : r.CorrectIn log) (hlog : log.Owned lo hi) {q : PlacedPattern} (hq : q ∈ r.patterns) :
    lo < q.id ∧ q.id ≤ hi := by
  have hid : q.id ∈ log.withEntry (.pattern r.id) := by
    rw [h.patterns_eq]
    exact List.mem_map_of_mem hq
  exact hlog.of_mem_withEntry hid

/-- A graph shows a rule as it was declared, and so do all that come later. -/
structure PlacedRule.ShownIn (r : PlacedRule) (g : Graph) : Prop where
  title_eq : (g.ofKind? Kind.rule? r.id).map (fun k => (k.name, k.line)) =
    some (r.ast.name, r.ast.line)
  describes : Describes g r.condition (r.ast.lhs.map (Ast.Element.occurrences []))

theorem PlacedRule.ShownIn.keep {r : PlacedRule} {g g' : Graph} (h : r.ShownIn g)
    (hkept : Kept g g') : r.ShownIn g' where
  title_eq := by
    obtain ⟨k, hk, hsame⟩ := Option.map_eq_some_iff.mp h.title_eq
    obtain ⟨k', hk', hkeeps⟩ :=
      hkept.ofKind?_map (f := fun k => (k.name, k.line)) (fun k => by cases k <;> rfl) hk
    rw [hk', Option.map_some, hkeeps, hsame]
  describes := h.describes.keep hkept

/-- From one graph to another, rules have been added. -/
structure Loaded (g g' : Graph) (new : Log) (rules : List PlacedRule) : Prop where
  log_eq : g'.log = g.log ++ new
  size_le : g.size ≤ g'.size
  kept : Kept g g'
  owned : new.Owned g.size g'.size
  rules_eq : new.withEntry .rule = rules.map (·.id)
  correct : ∀ r ∈ rules, r.CorrectIn new
  shown : ∀ r ∈ rules, r.ShownIn g'
  /-- There are no possibilities but those of the rules. -/
  patternPossibilities_eq : new.patternPossibilities = rules.flatMap (·.keptIn new)
  rulePossibilities_eq :
    new.rulePossibilities = rules.flatMap fun r => new.rulePossibilitiesOf r.id

namespace Loaded

variable {g g₁ g' : Graph} {new new' : Log} {rules rules' : List PlacedRule}

theorem id_mem (h : Loaded g g' new rules) {r : PlacedRule} (hr : r ∈ rules) :
    g.size < r.id ∧ r.id ≤ g'.size := by
  have hid : r.id ∈ new.withEntry .rule := by
    rw [h.rules_eq]
    exact List.mem_map_of_mem hr
  exact h.owned.of_mem_withEntry hid

/-- A rule is the same when a log that is numbered apart is added before or after. -/
theorem sameIn_append (h : Loaded g g' new rules) {before after : Log} {lo hi : Nat}
    (hbefore : before.Owned lo g.size) (hafter : after.Owned g'.size hi) {r : PlacedRule}
    (hr : r ∈ rules) : r.SameIn new (before ++ (new ++ after)) := by
  have hid := h.id_mem hr
  have hpattern : ∀ q ∈ r.patterns, g.size < q.id ∧ q.id ≤ g'.size := fun q hq =>
    (h.correct r hr).id_mem h.owned hq
  refine ⟨?_, ?_, fun q hq => ?_, fun q hq => ?_⟩
  · rw [Log.withEntry_append, Log.withEntry_append, hbefore.withEntry_pattern (Or.inr hid.1),
      hafter.withEntry_pattern (Or.inl hid.2), List.nil_append, List.append_nil]
  · rw [Log.rulePossibilitiesOf_append, Log.rulePossibilitiesOf_append,
      hbefore.rulePossibilitiesOf (Or.inr hid.1), hafter.rulePossibilitiesOf (Or.inl hid.2),
      List.nil_append, List.append_nil]
  · rw [Log.withEntry_append, Log.withEntry_append,
      hbefore.withEntry_restriction (Or.inr (hpattern q hq).1),
      hafter.withEntry_restriction (Or.inl (hpattern q hq).2), List.nil_append, List.append_nil]
  · rw [Log.possibilitiesOf_append, Log.possibilitiesOf_append,
      hbefore.possibilitiesOf (Or.inr (hpattern q hq).1),
      hafter.possibilitiesOf (Or.inl (hpattern q hq).2), List.nil_append, List.append_nil]

theorem sameIn_left (h : Loaded g g' new rules) {after : Log} {hi : Nat}
    (hafter : after.Owned g'.size hi) {r : PlacedRule} (hr : r ∈ rules) :
    r.SameIn new (new ++ after) :=
  h.sameIn_append (Log.owned_empty 0 _) hafter hr

theorem sameIn_right (h : Loaded g g' new rules) {before : Log} {lo : Nat}
    (hbefore : before.Owned lo g.size) {r : PlacedRule} (hr : r ∈ rules) :
    r.SameIn new (before ++ new) := by
  have hsame := h.sameIn_append hbefore (Log.owned_empty _ 0) hr
  rwa [Log.append_empty] at hsame

/-- **Rules that are added later do not interfere.** -/
theorem trans (h : Loaded g g₁ new rules) (h' : Loaded g₁ g' new' rules') :
    Loaded g g' (new ++ new') (rules ++ rules') where
  log_eq := by rw [h'.log_eq, h.log_eq, Log.append_assoc]
  size_le := Nat.le_trans h.size_le h'.size_le
  kept := h.kept.trans h'.kept
  owned := (h.owned.mono (Nat.le_refl _) h'.size_le).append
    (h'.owned.mono h.size_le (Nat.le_refl _))
  rules_eq := by rw [Log.withEntry_append, h.rules_eq, h'.rules_eq, List.map_append]
  correct r hr := (List.mem_append.mp hr).elim
    (fun hr => (h.correct r hr).of_same (h.sameIn_left h'.owned hr))
    (fun hr => (h'.correct r hr).of_same (h'.sameIn_right h.owned hr))
  shown r hr := (List.mem_append.mp hr).elim (fun hr => (h.shown r hr).keep h'.kept) (h'.shown r)
  patternPossibilities_eq := by
    rw [Log.patternPossibilities_append, h.patternPossibilities_eq, h'.patternPossibilities_eq,
      List.flatMap_append, List.flatMap_congr fun r hr => (h.sameIn_left h'.owned hr).keptIn_eq,
      List.flatMap_congr fun r hr => (h'.sameIn_right h.owned hr).keptIn_eq]
  rulePossibilities_eq := by
    rw [Log.rulePossibilities_append, h.rulePossibilities_eq, h'.rulePossibilities_eq,
      List.flatMap_append,
      List.flatMap_congr fun r hr => (h.sameIn_left h'.owned hr).possibilities_eq,
      List.flatMap_congr fun r hr => (h'.sameIn_right h.owned hr).possibilities_eq]

theorem refl (g : Graph) : Loaded g g {} [] where
  log_eq := (Log.append_empty _).symm
  size_le := Nat.le_refl _
  kept := kept_refl g
  owned := Log.owned_empty _ _
  rules_eq := rfl
  correct _ hr := by cases hr
  shown _ hr := by cases hr
  patternPossibilities_eq := rfl
  rulePossibilities_eq := rfl

end Loaded

theorem Quiet.loaded {s s' : State} (h : Quiet s s') : Loaded s.graph s'.graph {} [] :=
  { Loaded.refl s.graph with
    log_eq := by rw [h.log_eq]; exact (Log.append_empty _).symm
    size_le := h.size_le
    kept := h.kept
    owned := Log.owned_empty _ _
    shown := fun _ hr => by cases hr }

/-! ## Loading a rule -/

/-- The possibilities of a rule as a graph keeps them next. -/
def newRulePossibilities (g : Graph) (rule : ComponentId)
    (possibilities : List (List PossibilityId)) : List RulePossibility :=
  (number g.issued possibilities).map fun (id, patterns) => ⟨id, rule, patterns⟩

theorem map_patterns_newRulePossibilities (g : Graph) (rule : ComponentId)
    (possibilities : List (List PossibilityId)) :
    (newRulePossibilities g rule possibilities).map (·.patterns) = possibilities := by
  rw [newRulePossibilities, List.map_map]
  exact map_snd_number g.issued possibilities

theorem rule_newRulePossibilities {g : Graph} {rule : ComponentId}
    {possibilities : List (List PossibilityId)} {p : RulePossibility}
    (hp : p ∈ newRulePossibilities g rule possibilities) : p.rule = rule := by
  obtain ⟨entry, -, rfl⟩ := List.mem_map.mp hp
  rfl

theorem log_addRulePossibilities (g : Graph) (rule : ComponentId)
    (possibilities : List (List PossibilityId)) :
    (g.addRulePossibilities rule possibilities).log =
      g.log ++ { rulePossibilities := newRulePossibilities g rule possibilities } := by
  change Log.mk _ _ _ = Log.mk _ _ _
  simp [log, ofKind, Graph.addRulePossibilities, newRulePossibilities]

/-- The log of a rule: the rule, its condition, and its possibilities. -/
def ruleLog (id : ComponentId) (condition : Log) (possibilities : List RulePossibility) : Log :=
  Log.single id (some .rule) ++ (condition ++ { rulePossibilities := possibilities })

section RuleLog

variable {id : ComponentId} {condition : Log} {possibilities : List RulePossibility}

theorem withEntry_ruleLog (e : Entry) (he : e ≠ .rule) :
    (ruleLog id condition possibilities).withEntry e = condition.withEntry e := by
  rw [ruleLog, Log.withEntry_append, Log.withEntry_append, withEntry_single, if_neg (Ne.symm he)]
  exact List.append_nil _

theorem possibilitiesOf_ruleLog (pattern : ComponentId) :
    (ruleLog id condition possibilities).possibilitiesOf pattern =
      condition.possibilitiesOf pattern := by
  rw [ruleLog, Log.possibilitiesOf_append, Log.possibilitiesOf_append]
  exact List.append_nil _

theorem alternativesOf_ruleLog :
    alternativesOf (ruleLog id condition possibilities) = alternativesOf condition := by
  funext q
  rw [alternativesOf, possibilitiesOf_ruleLog, alternativesOf]

theorem withEntry_ruleLog_rule
    (hentry : ∀ e ∈ condition.entries, e.2 = .pattern id ∨ ∃ pattern, e.2 = .restriction pattern) :
    (ruleLog id condition possibilities).withEntry .rule = [id] := by
  have hnone : condition.withEntry .rule = [] := by
    simp only [Log.withEntry, List.map_eq_nil_iff, List.filter_eq_nil_iff, decide_eq_true_eq]
    intro e he heq
    rcases hentry e he with hpattern | ⟨pattern, hrestriction⟩
    · cases heq.symm.trans hpattern
    · cases heq.symm.trans hrestriction
  rw [ruleLog, Log.withEntry_append, Log.withEntry_append, withEntry_single, hnone]
  rfl

theorem patternPossibilities_ruleLog :
    (ruleLog id condition possibilities).patternPossibilities = condition.patternPossibilities := by
  change [] ++ (condition.patternPossibilities ++ []) = condition.patternPossibilities
  rw [List.nil_append, List.append_nil]

theorem rulePossibilities_ruleLog (hcondition : condition.rulePossibilities = []) :
    (ruleLog id condition possibilities).rulePossibilities = possibilities := by
  change [] ++ (condition.rulePossibilities ++ possibilities) = possibilities
  rw [hcondition]
  rfl

theorem rulePossibilitiesOf_ruleLog (hcondition : condition.rulePossibilities = [])
    (hrule : ∀ p ∈ possibilities, p.rule = id) :
    (ruleLog id condition possibilities).rulePossibilitiesOf id = possibilities := by
  rw [Log.rulePossibilitiesOf, rulePossibilities_ruleLog hcondition]
  exact List.filter_eq_self.mpr fun p hp => by simp [hrule p hp]

theorem owned_ruleLog {lo hi : Nat} (hid : lo < id ∧ id ≤ hi) (hcondition : condition.Within lo hi)
    (hentry : ∀ e ∈ condition.entries, e.2 = .pattern id ∨ ∃ pattern, e.2 = .restriction pattern)
    (hrule : ∀ p ∈ possibilities, p.rule = id) :
    (ruleLog id condition possibilities).Owned lo hi := by
  have hsingle : (Log.single id (some .rule)).Owned lo hi := by
    refine ⟨⟨?_, ?_, ?_, ?_⟩, ?_⟩ <;> simp [Log.single, hid]
  have howned : condition.Owned lo hi := by
    refine ⟨hcondition, fun e he rule heq => ?_⟩
    rcases hentry e he with hpattern | ⟨pattern, hrestriction⟩
    · cases heq.symm.trans hpattern
      exact hid
    · cases heq.symm.trans hrestriction
  have hpossibilities : Log.Owned lo hi { rulePossibilities := possibilities } := by
    refine ⟨⟨?_, ?_, ?_, fun p hp => ?_⟩, ?_⟩
    · rintro _ ⟨⟩
    · rintro _ ⟨⟩
    · rintro _ ⟨⟩
    · rw [hrule p hp]
      exact hid
    · rintro _ ⟨⟩
  exact hsingle.append (howned.append hpossibilities)

end RuleLog

variable {limits : Limits} {s s' : State}

/-- **A rule is expanded around its condition**: its component comes first, its possibilities come
last. -/
theorem loaded_rule {id : ComponentId} {r : Ast.Rule} {parent : Option ComponentId}
    {kind : Graph.Rule} {s₁ s₂ s₃ : State} {scopes : Scopes} {new : Log}
    {ts : List (Formula PlacedPattern)} (htitle : (kind.name, kind.line) = (r.name, r.line))
    (added : Added id parent (.rule kind) s s₁)
    (expanded : Expanded id { s₁ with scopes } s₂ new ts)
    (describes : Describes s₂.graph ts (r.lhs.map (Ast.Element.occurrences [])))
    (hkeep : s₃.graph = s₂.graph.addRulePossibilities id
      (resolve .and (ts.flatMap (Formula.children (alternativesOf new)))))
    (after : Quiet s₃ s') : ∃ log, Loaded s.graph s'.graph log [⟨id, r, ts⟩] := by
  have hafter : Kept s₂.graph s'.graph := by
    -- possibilities leave the components alone
    have hsame : Kept s₂.graph s₃.graph := hkeep ▸ kept_refl s₂.graph
    exact hsame.trans after.kept
  have hsize₃ : s₂.graph.size ≤ s'.graph.size := by
    have hle := after.size_le
    rw [hkeep] at hle
    exact hle
  have hsize : id ≤ s'.graph.size :=
    Nat.le_trans (added.size_eq ▸ expanded.size_le) hsize₃
  have hlo : s.graph.size ≤ s₁.graph.size := added.size_eq ▸ Nat.le_of_lt added.lt
  let possibilities := newRulePossibilities s₂.graph id
    (resolve .and (ts.flatMap (Formula.children (alternativesOf new))))
  have hrule : ∀ p ∈ possibilities, p.rule = id := fun p hp => rule_newRulePossibilities hp
  have hself : (ruleLog id new possibilities).rulePossibilitiesOf id = possibilities :=
    rulePossibilitiesOf_ruleLog expanded.rulePossibilities_eq hrule
  have hshown : PlacedRule.ShownIn ⟨id, r, ts⟩ s'.graph := by
    refine ⟨?_, describes.keep hafter⟩
    rw [← Graph.ofKind?_map,
      (added.made.keep (expanded.kept.trans hafter)).ofKind? fun k => by cases k <;> rfl]
    exact congrArg some htitle
  refine ⟨ruleLog id new possibilities, ?_, Nat.le_trans (Nat.le_of_lt added.lt) hsize,
    added.kept.trans (expanded.kept.trans hafter), ?_, withEntry_ruleLog_rule expanded.entry_eq,
    List.forall_mem_singleton.mpr ?_, List.forall_mem_singleton.mpr hshown, ?_, ?_⟩
  · rw [after.log_eq, hkeep, log_addRulePossibilities, expanded.log_eq, added.log_eq, ruleLog,
      Log.append_assoc, Log.append_assoc]
    rfl
  · exact owned_ruleLog ⟨added.lt, hsize⟩ (expanded.within.mono hlo hsize₃)
      expanded.entry_eq hrule
  · refine ⟨shape_eq_of_describes describes, ?_, fun q hq => ?_, ?_, fun q hq p hp => ?_⟩
    · rw [withEntry_ruleLog _ (by simp)]
      exact expanded.patterns_eq
    · exact (expanded.correct q hq).of_eq (withEntry_ruleLog _ (by simp))
        (possibilitiesOf_ruleLog _)
    · rw [hself, alternativesOf_ruleLog]
      exact map_patterns_newRulePossibilities _ _ _
    · rw [possibilitiesOf_ruleLog] at hp
      exact expanded.rule_eq p (List.mem_of_mem_filter hp)
  · rw [List.flatMap_singleton, PlacedRule.keptIn, patternPossibilities_ruleLog, expanded.kept_eq]
    exact List.flatMap_congr fun q _ => (possibilitiesOf_ruleLog q.id).symm
  · rw [List.flatMap_singleton, hself, rulePossibilities_ruleLog expanded.rulePossibilities_eq]

theorem loaded_of_lowerBody {rule : RuleSite} {r : Ast.Rule} {s₁ : State}
    {parent : Option ComponentId} {kind : Graph.Rule} (hscopes : s.scopes = [])
    (htitle : (kind.name, kind.line) = (r.name, r.line))
    (hadd : add parent (.rule kind) s = .ok rule.id s₁)
    (hrun : lowerBody limits rule r s₁ = .ok () s') :
    ∃ new placed, placed.ast = r ∧ Loaded s.graph s'.graph new [placed] ∧ s'.scopes = [] := by
  have hplain := admits_quiet rule.id
  have hadded := added_of_add hadd
  obtain ⟨closed, s₂, hwithin, hrun₁⟩ := bind_eq_ok hrun
  obtain ⟨u, s₃, hkeep, hrun₂⟩ := bind_eq_ok hrun₁
  obtain ⟨consequence, s₄, hconsequence, hmodify⟩ := bind_eq_ok hrun₂
  obtain ⟨frame, s₅, hframe, hinside, scopes, hclose, rfl⟩ := within_eq_ok hwithin
  obtain rfl := newFrame_rule hframe
  rw [hadded.scopes_eq.trans hscopes] at hinside
  have hsite : ({ rule } : Site).pattern? = none := rfl
  obtain ⟨new, ts, hts, hexpanded⟩ := expand_elements hsite r.lhs (.rule _ _) hinside
  have hpushed := hexpanded.scopes_eq
  rw [pushAll_rule] at hpushed
  obtain ⟨rfl, rfl⟩ := close_rule (hclose _ _ (Option.some.inj hpushed).symm)
  cases hkeep
  have hcombined : Group.combined ⟨.and, ts.flatMap (Formula.children (alternativesOf new))⟩ =
      resolve .and (ts.flatMap (Formula.children (alternativesOf new))) := combine_eq_resolve _ _
  have hquiet : Quiet _ s' := IsTrans.trans _ _ _ ((plain_add hplain rfl rfl).of_ok hconsequence)
    ((hplain.modify _ _ (keeping_withConsequence consequence)).of_ok hmodify)
  obtain ⟨log, hloaded⟩ := loaded_rule htitle hadded hexpanded hts (by rw [hcombined]) hquiet
  exact ⟨log, ⟨rule.id, r, ts⟩, rfl, hloaded, hquiet.scopes_eq⟩

/-- **A rule that is loaded is expanded.** -/
theorem loaded_of_lowerRule {package : ComponentId} {r : Ast.Rule} (hscopes : s.scopes = [])
    (hrun : lowerRule limits package r s = .ok () s') :
    ∃ new placed, placed.ast = r ∧ Loaded s.graph s'.graph new [placed] ∧ s'.scopes = [] := by
  obtain ⟨id, s₁, hadd, hbody⟩ := bind_eq_ok hrun
  have hadd' : add (some package) (.rule
      { name := r.name, salience := r.salience, line := r.line, package, consequence := none }) s =
      .ok (RuleSite.mk id r.name r.line).id s₁ := hadd
  exact loaded_of_lowerBody hscopes rfl hadd' hbody

/-! ## Loading packages -/

theorem loaded_of_lowerRules {package : ComponentId} {rs : List Ast.Rule} (hscopes : s.scopes = [])
    (hrun : lowerRules limits package rs s = .ok () s') :
    ∃ new rules, rules.map PlacedRule.ast = rs ∧ Loaded s.graph s'.graph new rules := by
  suffices hboth : (∃ new rules, rules.map PlacedRule.ast = rs ∧
      Loaded s.graph s'.graph new rules) ∧ s'.scopes = [] from hboth.1
  refine lowerRules_induction (I := fun before s' => (∃ new rules,
    rules.map PlacedRule.ast = before ∧ Loaded s.graph s'.graph new rules) ∧ s'.scopes = []) hrun
    ⟨⟨_, [], rfl, Loaded.refl _⟩, hscopes⟩ ?_
  rintro before r s₁ s₂ ⟨⟨new, rules, hrules, hbefore⟩, hscopes₁⟩ hrule
  obtain ⟨new', placed, hast, hloaded, hscopes₂⟩ := loaded_of_lowerRule hscopes₁ hrule
  exact ⟨⟨_, rules ++ [placed], by simp [hast, hrules], hbefore.trans hloaded⟩, hscopes₂⟩

/-- **A package that is loaded is expanded**, rule by rule, into any graph. -/
theorem loaded_of_load {p : Ast.Package} {g g' : Graph} {id : ComponentId}
    (hrun : load limits p g = .ok id g') :
    ∃ new rules, rules.map PlacedRule.ast = p.rules ∧ Loaded g g' new rules := by
  obtain ⟨s, s', hfind, hrules, rfl⟩ := load_eq_ok hrun
  have hquiet : Quiet ⟨g, []⟩ s := Always.of_ok (always_findOrAdd (quiet_add rfl)) hfind
  obtain ⟨new, rules, hast, hloaded⟩ := loaded_of_lowerRules hquiet.scopes_eq hrules
  exact ⟨_, rules, hast, hquiet.loaded.trans hloaded⟩

theorem loaded_of_loadAll {ps : List Ast.Package} {g g' : Graph} {ids : List ComponentId}
    (hrun : loadAll limits ps g = .ok ids g') :
    ∃ new rules, rules.map PlacedRule.ast = ps.flatMap (·.rules) ∧ Loaded g g' new rules := by
  refine loadAll_induction (I := fun before g' => ∃ new rules,
    rules.map PlacedRule.ast = before.flatMap (·.rules) ∧ Loaded g g' new rules) hrun
    ⟨_, [], rfl, Loaded.refl _⟩ ?_
  rintro before p g₁ id g₂ ⟨new, rules, hast, hbefore⟩ hload
  obtain ⟨new', rules', hast', hloaded⟩ := loaded_of_load hload
  exact ⟨_, rules ++ rules', by simp [hast, hast'], hbefore.trans hloaded⟩

end RuleBase.Analysis

import Mathlib.Data.List.Basic
import RuleBase.Graph.Basic

/-!
# What a graph records of its conditions

Of the components of a graph only the rules, the patterns and the restrictions count for what its
conditions admit, and of those only to whom they belong. The log of a graph lists them with their
owners, and the possibilities.

* `Entry`, `Kind.logged?`: a component that counts;
* `Log`, `Graph.log`: the log of a graph, and what is asked of it;
* `Log.Within`, `Log.Owned`: the numbers in a part of a log lie in an interval;
* `Graph.log_add`, `Graph.log_modify`: how logs grow;
* `Graph.rules_eq`, `Graph.patternsOfRule_eq`, `Graph.restrictionsOfPattern_eq`: a log tells what a
  graph does.
-/

namespace RuleBase

namespace Graph

/-- What counts of a component: that it is a rule, the rule that a pattern belongs to, the pattern
that a restriction belongs to. -/
inductive Entry where
  | rule
  | pattern (rule : ComponentId)
  | restriction (pattern : ComponentId)
  deriving DecidableEq

/-- What counts of a kind. -/
def Kind.logged? : Kind → Option Entry
  | .rule _ => some .rule
  | .pattern p => some (.pattern p.rule)
  | .restriction r => some (.restriction r.pattern)
  | _ => none

/-- The components that count, and the possibilities, the oldest ones first. -/
structure Log where
  entries : List (ComponentId × Entry) := []
  patternPossibilities : List PatternPossibility := []
  rulePossibilities : List RulePossibility := []

namespace Log

instance : Append Log where
  append l l' :=
    { entries := l.entries ++ l'.entries
      patternPossibilities := l.patternPossibilities ++ l'.patternPossibilities
      rulePossibilities := l.rulePossibilities ++ l'.rulePossibilities }

@[simp]
theorem entries_append (l l' : Log) : (l ++ l').entries = l.entries ++ l'.entries := rfl

@[simp]
theorem patternPossibilities_append (l l' : Log) :
    (l ++ l').patternPossibilities = l.patternPossibilities ++ l'.patternPossibilities := rfl

@[simp]
theorem rulePossibilities_append (l l' : Log) :
    (l ++ l').rulePossibilities = l.rulePossibilities ++ l'.rulePossibilities := rfl

theorem append_empty (l : Log) : l ++ {} = l := by
  change Log.mk (l.entries ++ []) (l.patternPossibilities ++ []) (l.rulePossibilities ++ []) = l
  rw [List.append_nil, List.append_nil, List.append_nil]

theorem append_assoc (l l' l'' : Log) : l ++ l' ++ l'' = l ++ (l' ++ l'') := by
  change Log.mk _ _ _ = Log.mk _ _ _
  simp

/-- The components with an entry. -/
def withEntry (l : Log) (e : Entry) : List ComponentId :=
  (l.entries.filter (·.2 = e)).map (·.1)

/-- The possibilities of a pattern. -/
def possibilitiesOf (l : Log) (pattern : ComponentId) : List PatternPossibility :=
  l.patternPossibilities.filter (·.pattern == pattern)

/-- The possibilities of a rule. -/
def rulePossibilitiesOf (l : Log) (rule : ComponentId) : List RulePossibility :=
  l.rulePossibilities.filter (·.rule == rule)

@[simp]
theorem withEntry_append (l l' : Log) (e : Entry) :
    (l ++ l').withEntry e = l.withEntry e ++ l'.withEntry e := by
  simp [withEntry]

@[simp]
theorem possibilitiesOf_append (l l' : Log) (pattern : ComponentId) :
    (l ++ l').possibilitiesOf pattern =
      l.possibilitiesOf pattern ++ l'.possibilitiesOf pattern := by
  simp [possibilitiesOf]

@[simp]
theorem rulePossibilitiesOf_append (l l' : Log) (rule : ComponentId) :
    (l ++ l').rulePossibilitiesOf rule =
      l.rulePossibilitiesOf rule ++ l'.rulePossibilitiesOf rule := by
  simp [rulePossibilitiesOf]

/-- The components, the patterns that own some, and the patterns and rules with possibilities are
numbered above one bound and up to another one. -/
structure Within (lo hi : Nat) (l : Log) : Prop where
  id_mem : ∀ e ∈ l.entries, lo < e.1 ∧ e.1 ≤ hi
  owner_mem : ∀ e ∈ l.entries, ∀ pattern, e.2 = .restriction pattern → lo < pattern ∧ pattern ≤ hi
  pattern_mem : ∀ p ∈ l.patternPossibilities, lo < p.pattern ∧ p.pattern ≤ hi
  rule_mem : ∀ p ∈ l.rulePossibilities, lo < p.rule ∧ p.rule ≤ hi

theorem within_empty (lo hi : Nat) : Within lo hi {} := by
  constructor <;> rintro _ ⟨⟩

variable {lo hi lo' hi' : Nat} {l l' : Log}

theorem Within.mono (h : l.Within lo hi) (hlo : lo' ≤ lo) (hhi : hi ≤ hi') :
    l.Within lo' hi' := by
  have hmem : ∀ id : Nat, lo < id ∧ id ≤ hi → lo' < id ∧ id ≤ hi' := by
    intro id hid
    omega
  exact ⟨fun e he => hmem _ (h.id_mem e he), fun e he p hp => hmem _ (h.owner_mem e he p hp),
    fun p hp => hmem _ (h.pattern_mem p hp), fun p hp => hmem _ (h.rule_mem p hp)⟩

theorem Within.append (h : l.Within lo hi) (h' : l'.Within lo hi) : (l ++ l').Within lo hi := by
  refine ⟨fun e he => ?_, fun e he => ?_, fun p hp => ?_, fun p hp => ?_⟩
  · exact (List.mem_append.mp he).elim (h.id_mem e) (h'.id_mem e)
  · exact (List.mem_append.mp he).elim (h.owner_mem e) (h'.owner_mem e)
  · exact (List.mem_append.mp hp).elim (h.pattern_mem p) (h'.pattern_mem p)
  · exact (List.mem_append.mp hp).elim (h.rule_mem p) (h'.rule_mem p)

theorem Within.of_mem_withEntry (h : l.Within lo hi) {e : Entry} {id : ComponentId}
    (hid : id ∈ l.withEntry e) : lo < id ∧ id ≤ hi := by
  obtain ⟨entry, hentry, rfl⟩ := List.mem_map.mp hid
  exact h.id_mem entry (List.mem_filter.mp hentry).1

theorem not_outside {id : ComponentId} (hmem : lo < id ∧ id ≤ hi) : ¬ (id ≤ lo ∨ hi < id) :=
  fun hout => hout.elim (Nat.not_le.mpr hmem.1) (Nat.not_lt.mpr hmem.2)

theorem Within.withEntry_restriction (h : l.Within lo hi) {pattern : ComponentId}
    (hout : pattern ≤ lo ∨ hi < pattern) : l.withEntry (.restriction pattern) = [] := by
  simp only [withEntry, List.map_eq_nil_iff, List.filter_eq_nil_iff, decide_eq_true_eq]
  intro e he heq
  exact not_outside (h.owner_mem e he pattern heq) hout

theorem Within.possibilitiesOf (h : l.Within lo hi) {pattern : ComponentId}
    (hout : pattern ≤ lo ∨ hi < pattern) : l.possibilitiesOf pattern = [] := by
  simp only [Log.possibilitiesOf, List.filter_eq_nil_iff, beq_iff_eq]
  rintro p hp rfl
  exact not_outside (h.pattern_mem p hp) hout

theorem Within.rulePossibilitiesOf (h : l.Within lo hi) {rule : ComponentId}
    (hout : rule ≤ lo ∨ hi < rule) : l.rulePossibilitiesOf rule = [] := by
  simp only [Log.rulePossibilitiesOf, List.filter_eq_nil_iff, beq_iff_eq]
  rintro p hp rfl
  exact not_outside (h.rule_mem p hp) hout

/-- The rules that own patterns are numbered in the interval too. -/
structure Owned (lo hi : Nat) (l : Log) : Prop extends Within lo hi l where
  ruleOwner_mem : ∀ e ∈ l.entries, ∀ rule, e.2 = .pattern rule → lo < rule ∧ rule ≤ hi

theorem owned_empty (lo hi : Nat) : Owned lo hi {} :=
  ⟨within_empty lo hi, by rintro _ ⟨⟩⟩

theorem Owned.mono (h : l.Owned lo hi) (hlo : lo' ≤ lo) (hhi : hi ≤ hi') : l.Owned lo' hi' where
  toWithin := h.toWithin.mono hlo hhi
  ruleOwner_mem e he rule hrule :=
    ⟨Nat.lt_of_le_of_lt hlo (h.ruleOwner_mem e he rule hrule).1,
      Nat.le_trans (h.ruleOwner_mem e he rule hrule).2 hhi⟩

theorem Owned.append (h : l.Owned lo hi) (h' : l'.Owned lo hi) : (l ++ l').Owned lo hi where
  toWithin := h.toWithin.append h'.toWithin
  ruleOwner_mem e he :=
    (List.mem_append.mp he).elim (h.ruleOwner_mem e) (h'.ruleOwner_mem e)

theorem Owned.withEntry_pattern (h : l.Owned lo hi) {rule : ComponentId}
    (hout : rule ≤ lo ∨ hi < rule) : l.withEntry (.pattern rule) = [] := by
  simp only [withEntry, List.map_eq_nil_iff, List.filter_eq_nil_iff, decide_eq_true_eq]
  intro e he heq
  exact not_outside (h.ruleOwner_mem e he rule heq) hout

end Log

/-! ## The log of a graph -/

/-- The log of a graph. -/
def log (g : Graph) : Log := ⟨g.ofKind Kind.logged?, g.patternPossibilities, g.rulePossibilities⟩

/-- The log of one new component. -/
def Log.single (id : ComponentId) (logged? : Option Entry) : Log :=
  { entries := (logged?.map (id, ·)).toList }

theorem log_add (g : Graph) (parent : Option ComponentId) (kind : Kind) :
    (g.add parent kind).log = g.log ++ Log.single g.nextId kind.logged? := by
  change Log.mk _ _ _ = Log.mk _ _ _
  cases hk : kind.logged? <;>
    simp [log, ofKind, add, newComponent, hk, Log.single]

theorem log_modify (g : Graph) (id : ComponentId) {change : Kind → Kind}
    (h : ∀ k, (change k).logged? = k.logged?) : (g.modify id change).log = g.log := by
  have hentries : (g.modify id change).ofKind Kind.logged? = g.ofKind Kind.logged? := by
    have hmap : ∀ (n : Nat) (l : List Component),
        (l.modify n fun c => { c with kind := change c.kind }).filterMap
            (fun c => c.kind.logged?.map (c.id, ·)) =
          l.filterMap fun c => c.kind.logged?.map (c.id, ·) := by
      intro n l
      induction l generalizing n with
      | nil => cases n <;> rfl
      | cons c l ih =>
        cases n with
        | zero => simp [List.filterMap_cons, h]
        | succ n => simp [List.filterMap_cons, ih]
    rw [ofKind, components_modify]
    cases id with
    | zero => rfl
    | succ n => exact hmap n g.components
  cases hc : g.get? id with
  | none => rw [modify_of_get?_eq_none hc]
  | some c =>
    have hrest : (g.modify id change).patternPossibilities = g.patternPossibilities ∧
        (g.modify id change).rulePossibilities = g.rulePossibilities := by
      simp [modify, hc]
    rw [log, log, hentries, hrest.1, hrest.2]

/-- The rules. -/
def rules (g : Graph) : List ComponentId := (g.ofKind Kind.rule?).map (·.1)

/-- The restrictions of a pattern. -/
def restrictionsOfPattern (g : Graph) (pattern : ComponentId) : List ComponentId :=
  ((g.ofKind Kind.restriction?).filter (·.2.pattern == pattern)).map (·.1)

theorem withEntry_log (g : Graph) (e : Entry) :
    g.log.withEntry e =
      g.components.filterMap fun c => if c.kind.logged? = some e then some c.id else none := by
  simp only [log, Log.withEntry, ofKind, List.filter_filterMap, List.map_filterMap]
  refine List.filterMap_congr fun c _ => ?_
  cases c.kind.logged? with
  | none => rfl
  | some e' => by_cases he : e' = e <;> simp [Option.filter, he]

/-- The components of one kind for which something holds are those with an entry, if kinds have this
entry just then. -/
theorem map_filter_ofKind (g : Graph) {α : Type} (project? : Kind → Option α) (P : α → Bool)
    {e : Entry} (hkind : ∀ k : Kind, k.logged? = some e ↔ ∃ x, project? k = some x ∧ P x) :
    ((g.ofKind project?).filter (P ·.2)).map (·.1) = g.log.withEntry e := by
  simp only [withEntry_log, ofKind, List.filter_filterMap, List.map_filterMap]
  refine List.filterMap_congr fun c _ => ?_
  simp only [hkind]
  cases project? c.kind with
  | none => simp
  | some x => by_cases hx : P x <;> simp [Option.filter, hx]

theorem rules_eq (g : Graph) : g.rules = g.log.withEntry .rule := by
  rw [← g.map_filter_ofKind Kind.rule? (fun _ => true)
    fun k => by cases k <;> simp [Kind.logged?, Kind.rule?], List.filter_true]
  rfl

theorem rules_add (g : Graph) (parent : Option ComponentId) (kind : Kind) :
    (g.add parent kind).rules =
      g.rules ++ if kind.logged? = some .rule then [g.nextId] else [] := by
  rw [rules_eq, rules_eq, log_add, Log.withEntry_append]
  refine congrArg (g.log.withEntry .rule ++ ·) ?_
  cases kind.logged? with
  | none => rfl
  | some e => by_cases he : e = .rule <;> simp [Log.withEntry, Log.single, he]

theorem rules_add_of_ne (g : Graph) (parent : Option ComponentId) {kind : Kind}
    (h : kind.logged? ≠ some .rule) : (g.add parent kind).rules = g.rules := by
  rw [rules_add, if_neg h, List.append_nil]

theorem rules_modify (g : Graph) (id : ComponentId) {change : Kind → Kind}
    (h : ∀ k, (change k).logged? = k.logged?) : (g.modify id change).rules = g.rules := by
  rw [rules_eq, rules_eq, log_modify g id h]

theorem patternsOfRule_eq (g : Graph) (rule : ComponentId) :
    g.patternsOfRule rule = g.log.withEntry (.pattern rule) :=
  g.map_filter_ofKind Kind.pattern? (·.rule == rule)
    fun k => by cases k <;> simp [Kind.logged?, Kind.pattern?]

theorem restrictionsOfPattern_eq (g : Graph) (pattern : ComponentId) :
    g.restrictionsOfPattern pattern = g.log.withEntry (.restriction pattern) :=
  g.map_filter_ofKind Kind.restriction? (·.pattern == pattern)
    fun k => by cases k <;> simp [Kind.logged?, Kind.restriction?]

end Graph

end RuleBase

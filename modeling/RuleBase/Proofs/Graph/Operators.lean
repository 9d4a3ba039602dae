import Mathlib.Data.List.Nodup
import RuleBase.Proofs.Ast.Negation
import RuleBase.Proofs.Graph.Numbered
import RuleBase.Proofs.Graph.Typing
import RuleBase.Proofs.Operator

/-!
# The operators of restrictions

A graph is told by its restrictions' operators, in the order of the restrictions, and by all the
rest. Two graphs that agree in the rest differ by their operators only.

* `Graph.neutral`: what is left without operators; **`Graph.commit_eq_of_neutral_eq`**: the rest and
  the operators tell a graph;
* `negateChosen`: operators of which chosen ones are turned round;
  **`Graph.Sound.commit_eq_negateAt`**: two graphs with such operators.
-/

namespace RuleBase.Graph

open RuleBase.Ast

variable {g g' : Graph}

/-! ## Kinds -/

/-- The operator of a restriction. -/
def Kind.operator? (k : Kind) : Option Operator := k.restriction?.map (·.operator)

/-- A kind with the operator of a restriction changed. -/
def Kind.mapOperator (f : Operator → Operator) : Kind → Kind
  | .restriction r => .restriction { r with operator := f r.operator }
  | other => other

/-- A kind with the same operator for all restrictions. -/
abbrev Kind.neutral : Kind → Kind := Kind.mapOperator fun _ => ⟨.equal, false⟩

theorem Kind.exists_restriction {k : Kind} {o : Operator} (h : k.operator? = some o) :
    ∃ r, k = .restriction r ∧ r.operator = o := by
  obtain ⟨r, hr, ho⟩ := Option.map_eq_some_iff.mp h
  cases k <;> cases hr
  exact ⟨r, rfl, ho⟩

theorem Kind.mapOperator_of_none {k : Kind} (h : k.operator? = none) (f : Operator → Operator) :
    k.mapOperator f = k := by
  cases k <;> first | rfl | cases h

@[simp]
theorem Kind.key?_mapOperator (k : Kind) (f : Operator → Operator) :
    (k.mapOperator f).key? = k.key? := by
  cases k <;> rfl

@[simp]
theorem Kind.operator?_mapOperator (k : Kind) (f : Operator → Operator) :
    (k.mapOperator f).operator? = k.operator?.map f := by
  cases k <;> rfl

@[simp]
theorem Kind.mapOperator_mapOperator (k : Kind) (f f' : Operator → Operator) :
    (k.mapOperator f).mapOperator f' = k.mapOperator (f' ∘ f) := by
  cases k <;> rfl

theorem Kind.eq_of_neutral_eq {k k' : Kind} (h : k.neutral = k'.neutral)
    (hoperator : k.operator? = k'.operator?) : k = k' := by
  cases hk : k.operator? with
  | none =>
    have hself : ∀ k : Kind, k.operator? = none → k.neutral = k := fun k hk =>
      mapOperator_of_none hk _
    rwa [hself k hk, hself k' (hoperator ▸ hk)] at h
  | some o =>
    obtain ⟨⟨⟩, rfl, rfl⟩ := exists_restriction hk
    obtain ⟨⟨⟩, rfl, hsame⟩ := exists_restriction (hoperator ▸ hk)
    simp_all [mapOperator]

/-! ## Graphs -/

/-- The operators of the restrictions in a graph, with the restrictions' numbers. -/
def operators (g : Graph) : List (ComponentId × Operator) := g.ofKind Kind.operator?

/-- A component with the operator of a restriction changed. -/
def Component.mapOperator (f : ComponentId → Operator → Operator) (c : Component) : Component :=
  { c with kind := c.kind.mapOperator (f c.id) }

/-- A graph with the operators of its restrictions changed. -/
def mapOperators (f : ComponentId → Operator → Operator) (g : Graph) : Graph :=
  { g with components := g.components.map (Component.mapOperator f) }

/-- A graph with the same operator for all restrictions, and without a journal. -/
def neutral (g : Graph) : Graph := mapOperators (fun _ _ => ⟨.equal, false⟩) g.commit

theorem get?_mapOperators (f : ComponentId → Operator → Operator) (g : Graph) (id : ComponentId) :
    (g.mapOperators f).get? id = (g.get? id).map (Component.mapOperator f) := by
  cases id with
  | zero => rfl
  | succ n => exact List.getElem?_map ..

theorem operators_mapOperators (f : ComponentId → Operator → Operator) (g : Graph) :
    (g.mapOperators f).operators = g.operators.map fun e => (e.1, f e.1 e.2) := by
  rw [operators, operators, ofKind, ofKind, mapOperators, List.filterMap_map, List.map_filterMap]
  refine List.filterMap_congr fun c _ => ?_
  simp only [Function.comp_apply, Component.mapOperator, Kind.operator?_mapOperator]
  cases c.kind.operator? <;> rfl

theorem neutral_mapOperators (f : ComponentId → Operator → Operator) (g : Graph) :
    (g.mapOperators f).neutral = g.neutral := by
  simp only [neutral, commit, mapOperators, List.map_map]
  congr 1
  refine List.map_congr_left fun c _ => ?_
  simp [Component.mapOperator, Function.comp_def]

/-- Components with the same rest and the same operators are the same ones. -/
theorem components_ext {cs cs' : List Component}
    (hrest : cs.map (Component.mapOperator fun _ _ => ⟨.equal, false⟩) =
      cs'.map (Component.mapOperator fun _ _ => ⟨.equal, false⟩))
    (hoperators : (cs.filterMap fun c => c.kind.operator?.map (c.id, ·)) =
      cs'.filterMap fun c => c.kind.operator?.map (c.id, ·)) : cs = cs' := by
  induction cs generalizing cs' with
  | nil => exact (List.map_eq_nil_iff.mp hrest.symm).symm
  | cons c rest ih =>
    obtain ⟨c', rest', rfl, hc, hlater⟩ := List.map_eq_cons_iff.mp hrest.symm
    obtain ⟨id, parent, place, kind⟩ := c
    obtain ⟨id', parent', place', kind'⟩ := c'
    simp only [Component.mapOperator, Component.mk.injEq] at hc
    obtain ⟨rfl, rfl, rfl, hkind⟩ := hc
    have hsome : kind'.operator?.map (fun _ => (⟨.equal, false⟩ : Operator)) =
        kind.operator?.map fun _ => ⟨.equal, false⟩ := by
      rw [← Kind.operator?_mapOperator, ← Kind.operator?_mapOperator, hkind]
    cases ho : kind.operator? with
    | none =>
      have ho' : kind'.operator? = none := by simpa [ho] using hsome
      simp only [List.filterMap_cons, ho, ho', Option.map_none] at hoperators
      rw [Kind.eq_of_neutral_eq hkind (ho'.trans ho.symm), ih hlater.symm hoperators]
    | some o =>
      obtain ⟨o', ho'⟩ : ∃ o', kind'.operator? = some o' := by
        simpa [ho, Option.map_eq_some_iff] using hsome
      simp only [List.filterMap_cons, ho, ho', Option.map_some, List.cons.injEq, Prod.mk.injEq,
        true_and] at hoperators
      obtain ⟨rfl, hoperators⟩ := hoperators
      rw [Kind.eq_of_neutral_eq hkind (ho'.trans ho.symm), ih hlater.symm hoperators]

/-- **The operators and the rest tell a graph**, but for the journal. -/
theorem commit_eq_of_neutral_eq (h : g.neutral = g'.neutral)
    (hoperators : g.operators = g'.operators) : g.commit = g'.commit := by
  obtain ⟨components, _, _, _, _, _, _⟩ := g
  obtain ⟨components', _, _, _, _, _, _⟩ := g'
  simp only [neutral, commit, mapOperators, Graph.mk.injEq] at h ⊢
  exact ⟨components_ext h.1 hoperators, h.2⟩

/-! ### Steps -/

theorem neutral_add (g : Graph) (parent : Option ComponentId) (kind : Kind) :
    (g.add parent kind).neutral = g.neutral.add parent kind.neutral := by
  simp only [neutral, commit, mapOperators, add, newComponent, nextId, Kind.key?_mapOperator,
    List.map_append, List.map_cons, List.map_nil, List.length_map]
  rfl

theorem neutral_modify (g : Graph) (id : ComponentId) {change : Kind → Kind}
    (h : ∀ k, (change k).neutral = change k.neutral) :
    (g.modify id change).neutral = g.neutral.modify id change := by
  have hget : g.neutral.get? id = (g.get? id).map (Component.mapOperator _) :=
    get?_mapOperators _ g.commit id
  have hcomponents : (changeKind id change g.components).map
      (Component.mapOperator fun _ _ => ⟨.equal, false⟩) =
        changeKind id change
          (g.components.map (Component.mapOperator fun _ _ => ⟨.equal, false⟩)) := by
    refine List.ext_getElem? fun i => ?_
    rw [List.getElem?_map, getElem?_changeKind, getElem?_changeKind, List.getElem?_map,
      Option.map_map, Option.map_map]
    refine congrArg (Option.map · g.components[i]?) (funext fun c => ?_)
    by_cases hi : id = i + 1 <;> simp [Component.mapOperator, hi, h]
  rw [modify, modify, hget]
  cases g.get? id with
  | none => rfl
  | some c =>
    simp only [neutral, commit, mapOperators, hcomponents, Option.map_some, Option.map_none]

theorem operators_add (g : Graph) (parent : Option ComponentId) {kind : Kind}
    (h : kind.operator? = none) : (g.add parent kind).operators = g.operators := by
  rw [operators, ofKind_add, h]
  exact List.append_nil _

/-! ## Chosen operators -/

/-- The chosen operators, by their places, are turned round. -/
def negateChosen (chosen : Choice) (operators : List (ComponentId × Operator)) :
    List (ComponentId × Operator) :=
  operators.mapIdx fun i e => if chosen i then (e.1, e.2.negate) else e

/-- A component is a chosen one of the given ones. -/
def isChosen (chosen : Choice) (ids : List ComponentId) (id : ComponentId) : Bool :=
  ids.contains id && chosen (ids.idxOf id)

/-- The operators of chosen restrictions, out of the given ones, are turned round. -/
def negateAt (chosen : Choice) (ids : List ComponentId) (g : Graph) : Graph :=
  g.mapOperators fun id o => if isChosen chosen ids id then o.negate else o

/-- Restrictions that stand in a list once are chosen by their places in the list. -/
theorem map_isChosen {chosen : Choice} {new : List (ComponentId × Operator)}
    (h : (new.map (·.1)).Nodup) :
    (new.map fun e =>
      (e.1, if isChosen chosen (new.map (·.1)) e.1 then e.2.negate else e.2)) =
        negateChosen chosen new := by
  refine List.ext_getElem (by simp [negateChosen]) fun i hi hi' => ?_
  rw [List.length_map] at hi
  have hplace : (new.map (·.1)).idxOf new[i].1 = i := by
    have hself := h.idxOf_getElem i (by simpa using hi)
    rwa [List.getElem_map] at hself
  have hmem : (new.map (·.1)).contains new[i].1 = true :=
    List.contains_iff_mem.mpr (List.mem_map_of_mem (List.getElem_mem hi))
  simp only [List.getElem_map, negateChosen, List.getElem_mapIdx, isChosen, hplace, hmem,
    Bool.true_and]
  cases chosen i <;> rfl

/-- **Two graphs that differ by chosen operators**: the one is the other with these operators turned
round. -/
theorem Sound.commit_eq_negateAt (h : g.Sound) {old new : List (ComponentId × Operator)}
    {chosen : Choice} (hneutral : g.neutral = g'.neutral) (hoperators : g.operators = old ++ new)
    (hoperators' : g'.operators = old ++ negateChosen chosen new) :
    g'.commit = negateAt chosen (new.map (·.1)) g.commit := by
  have hnodup : ((old ++ new).map (·.1)).Nodup := by
    have hsorted := List.pairwise_map.mpr (h.pairwise_ofKind Kind.operator?)
    rw [← hoperators]
    exact hsorted.imp Nat.ne_of_lt
  rw [List.map_append, List.nodup_append] at hnodup
  obtain ⟨-, hnew, hdisjoint⟩ := hnodup
  have hold : (old.map fun e =>
      (e.1, if isChosen chosen (new.map (·.1)) e.1 then e.2.negate else e.2)) = old := by
    refine (List.map_congr_left fun e he => ?_).trans (List.map_id old)
    have hnot : (new.map (·.1)).contains e.1 = false := by
      rw [Bool.eq_false_iff, ne_eq, List.contains_iff_mem]
      exact fun hmem => hdisjoint _ (List.mem_map_of_mem he) _ hmem rfl
    rw [isChosen, hnot]
    rfl
  have hsame : g'.commit = (negateAt chosen (new.map (·.1)) g).commit := by
    refine commit_eq_of_neutral_eq ?_ ?_
    · rw [negateAt, neutral_mapOperators, hneutral]
    · rw [negateAt, operators_mapOperators, hoperators, hoperators', List.map_append, hold,
        map_isChosen hnew]
  exact hsame

end RuleBase.Graph

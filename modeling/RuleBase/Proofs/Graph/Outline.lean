import RuleBase.Graph.Tree
import RuleBase.Proofs.Graph.Sound

/-!
# Outlines of trees

What a tree of components tells of the rule that it was made of: numbers and references are left
out, and so is what a component learns from its surroundings. Packages, classes and fields are
shared by rules and do not belong to the tree of one.

* `Graph.Shows`: a graph has an outline below a component; **`Graph.Shows.of_agrees`**: changes
  elsewhere do not count; **`Graph.Shows.outline?_eq`**: it is the outline of the tree.
-/

namespace RuleBase

namespace Graph

/-! ## Labels -/

/-- What the operand of a comparison tells. -/
inductive Term where
  | literal (text : Option String) (value : Literal)
  | var (name : String)
  | returnValue (content : String) (declarations : List String) (classMethodName : Option String)
  | qualified (name path : String)
  deriving DecidableEq

/-- What a component tells of the node that it was made of. -/
inductive Label where
  | rule (name : String) (salience : Int) (line : Nat)
  | consequence (ruleName text : String)
  | operator (connective : Connective)
  | pattern (ruleName name : String) (identifier : Option String)
  /-- A variable for a fact of a class or for the value of a field. -/
  | var (ruleName name objectName : String)
  | constraint (fieldName : String)
  | restriction (ruleName : String) (operator : Operator) (term : Term)
  | eval (ruleName content : String) (classMethodName : Option String)
  | predicate (ruleName content : String) (classMethodName : Option String)
  | accumulate (code : Ast.Accumulation)
  | collect (classMethodName : Option String)
  | supply
  | fieldAccess (fieldName : String) (argument : Option String)
  | methodAccess (methodName arguments : String)
  | functionCall (name arguments : String)
  | accessor (variableName : String)
  /-- Packages, classes and fields. -/
  | shared
  deriving DecidableEq

/-- What an operand tells. -/
def Operand.term : Operand → Term
  | .literal text value => .literal text value
  | .var _ name => .var name
  | .returnValue content declarations method => .returnValue content declarations method
  | .qualified _ name path => .qualified name path

/-- What a component tells. -/
def Kind.label : Kind → Label
  | .package _ => .shared
  | .rule r => .rule r.name r.salience r.line
  | .pattern p => .pattern p.ruleName p.name p.identifier
  | .constraint c => .constraint c.fieldName
  | .restriction r => .restriction r.ruleName r.operator r.operand.term
  | .var v => .var v.ruleName v.name v.objectName
  | .factClass _ => .shared
  | .field _ => .shared
  | .consequence c => .consequence c.ruleName c.text
  | .operator connective => .operator connective
  | .eval e => .eval e.ruleName e.content e.classMethodName
  | .predicate e => .predicate e.ruleName e.content e.classMethodName
  | .accumulate _ code => .accumulate code
  | .collect _ method => .collect method
  | .supply _ => .supply
  | .fieldAccess fieldName argument => .fieldAccess fieldName argument
  | .methodAccess methodName arguments => .methodAccess methodName arguments
  | .functionCall name arguments => .functionCall name arguments
  | .accessor name => .accessor name

/-! ## Outlines -/

/-- A tree of labels. -/
inductive Outline where
  | node (label : Label) (children : List Outline)

/-- An outline without children. -/
abbrev Outline.leaf (label : Label) : Outline := .node label []

/-- The outline of a tree. -/
def Tree.outline : Tree → Outline
  | .node c children => .node c.kind.label (children.map outline)

/-- The outline of the tree below a component. -/
def outline? (g : Graph) (id : ComponentId) : Option Outline := (g.tree? id).map Tree.outline

/-- The label of a component. -/
def labelOf? (g : Graph) (id : ComponentId) : Option Label := (g.get? id).map (·.kind.label)

/-- The place of a component among the children of its parent. -/
def placeOf? (g : Graph) (id : ComponentId) : Option Nat := (g.get? id).map (·.orderNumber)

/-- A component stands inside a rule, or is one. -/
def IsInner (g : Graph) (id : ComponentId) : Prop :=
  ∃ label, label ≠ .shared ∧ g.labelOf? id = some label

variable {g g' : Graph} {id : ComponentId}

theorem IsInner.ne_of_shared (h : g.IsInner id) {other : ComponentId}
    (hother : g.labelOf? other = some .shared) : id ≠ other := by
  obtain ⟨label, hlabel, hid⟩ := h
  rintro rfl
  exact hlabel (Option.some.inj (hid.symm.trans hother))

theorem le_size_of_labelOf? {label : Label} (h : g.labelOf? id = some label) : id ≤ g.size := by
  obtain ⟨c, hc, -⟩ := Option.map_eq_some_iff.mp h
  exact le_size_of_get? hc

theorem IsInner.le_size (h : g.IsInner id) : id ≤ g.size := by
  obtain ⟨label, -, hid⟩ := h
  exact le_size_of_labelOf? hid

/-! ## Additions and changes -/

theorem childIds_add (g : Graph) (parent : Option ComponentId) (kind : Kind)
    (parent' : Option ComponentId) :
    (g.add parent kind).childIds parent' =
      g.childIds parent' ++ if parent' = parent then [g.nextId] else [] := by
  rw [childIds, childIds, add]
  simp only [Table.find?_alter]
  by_cases h : parent' = parent
  · simp [h, withChild]
  · simp [h]

theorem labelOf?_add_of_le (parent : Option ComponentId) (kind : Kind) (h : id ≤ g.size) :
    (g.add parent kind).labelOf? id = g.labelOf? id := by
  rw [labelOf?, get?_add_of_le g parent kind h, labelOf?]

theorem labelOf?_add_nextId (g : Graph) (parent : Option ComponentId) (kind : Kind) :
    (g.add parent kind).labelOf? g.nextId = some kind.label := by
  rw [labelOf?, get?_add_nextId]
  rfl

@[simp]
theorem childIds_modify (g : Graph) (id : ComponentId) (change : Kind → Kind)
    (parent : Option ComponentId) : (g.modify id change).childIds parent = g.childIds parent := by
  cases hc : g.get? id with
  | none => rw [modify_of_get?_eq_none hc]
  | some c => simp [modify, hc, childIds]

theorem labelOf?_modify (g : Graph) (id : ComponentId) {change : Kind → Kind}
    (hchange : ∀ k, (change k).label = k.label) (other : ComponentId) :
    (g.modify id change).labelOf? other = g.labelOf? other := by
  rw [labelOf?, map_get?_modify g id _ fun c => hchange c.kind, labelOf?]

@[simp]
theorem placeOf?_modify (g : Graph) (id : ComponentId) (change : Kind → Kind) :
    (g.modify id change).placeOf? = g.placeOf? := by
  funext other
  rw [placeOf?, map_get?_modify g id _ fun _ => rfl, placeOf?]

/-! ## Arranged graphs -/

theorem Sound.le_size_of_mem_childIds (h : g.Sound) {parent : Option ComponentId}
    (hid : id ∈ g.childIds parent) : id ≤ g.size := by
  rw [h.childIds_eq] at hid
  obtain ⟨c, hc, rfl⟩ := List.mem_map.mp hid
  exact h.mem_id_le (List.mem_filter.mp hc).1

/-- Children come after their parent and in the order of their numbers. -/
structure Arranged (g : Graph) : Prop extends Sound g where
  /-- Children are younger than their parent. -/
  lt_of_mem : ∀ parent, ∀ id ∈ g.childIds (some parent), parent < id
  /-- Children are in the order of their numbers, from zero on. -/
  places_eq : ∀ parent, (g.childIds parent).map g.placeOf? =
    (List.range (g.childIds parent).length).map some

theorem arranged_empty : Arranged {} where
  toSound := sound_empty
  lt_of_mem _ _ h := by cases h
  places_eq _ := rfl

namespace Arranged

theorem of_eq (h : g.Arranged) (hcomponents : g'.components = g.components)
    (hchild : g'.childTable = g.childTable) (hkey : g'.keyTable = g.keyTable) : g'.Arranged := by
  obtain ⟨components, _, _, _, childTable, keyTable, _⟩ := g'
  subst hcomponents hchild hkey
  exact ⟨h.toSound.of_eq rfl rfl rfl, h.lt_of_mem, h.places_eq⟩

theorem childIds_of_size_le (h : g.Arranged) (hid : g.size ≤ id) : g.childIds (some id) = [] := by
  rw [List.eq_nil_iff_forall_not_mem]
  intro child hchild
  have hlt : id < child := h.lt_of_mem id child hchild
  exact absurd (h.le_size_of_mem_childIds hchild) (Nat.not_le.mpr (Nat.lt_of_le_of_lt hid hlt))

/-- **Additions keep a graph arranged** if their parents are there. -/
theorem add (h : g.Arranged) {parent : Option ComponentId} (kind : Kind)
    (hparent : ∀ id, parent = some id → id ≤ g.size) : (g.add parent kind).Arranged where
  toSound := h.toSound.add parent kind
  lt_of_mem parent' id hid := by
    rw [childIds_add] at hid
    rcases List.mem_append.mp hid with hold | hnew
    · exact h.lt_of_mem parent' id hold
    · by_cases hsame : some parent' = parent
      · rw [if_pos hsame] at hnew
        obtain rfl := List.mem_singleton.mp hnew
        exact Nat.lt_succ_of_le (hparent parent' hsame.symm)
      · simp [hsame] at hnew
  places_eq parent' := by
    have hold : (g.childIds parent').map (g.add parent kind).placeOf? =
        (List.range (g.childIds parent').length).map some := by
      rw [← h.places_eq parent']
      refine List.map_congr_left fun id hid => ?_
      rw [placeOf?, get?_add_of_le g parent kind (h.le_size_of_mem_childIds hid), placeOf?]
    have hnew : (g.add parent kind).placeOf? g.nextId = some (g.childIds parent).length := by
      rw [placeOf?, get?_add_nextId]
      rfl
    rw [childIds_add, List.map_append, hold]
    by_cases hsame : parent' = parent
    · simp [hsame, hnew, List.range_succ]
    · simp [hsame]

/-- **Changes that keep keys keep a graph arranged.** -/
theorem modify (h : g.Arranged) (id : ComponentId) {change : Kind → Kind}
    (hchange : ∀ k, (change k).key? = k.key?) : (g.modify id change).Arranged where
  toSound := h.toSound.modify id hchange
  lt_of_mem parent child hchild := by
    rw [childIds_modify] at hchild
    exact h.lt_of_mem parent child hchild
  places_eq parent := by
    rw [childIds_modify, placeOf?_modify]
    exact h.places_eq parent

theorem map_orderNumber (h : g.Arranged) (parent : Option ComponentId) :
    (g.childrenOf parent).map (·.orderNumber) = List.range (g.childrenOf parent).length := by
  have hplaces : (g.childrenOf parent).map (·.orderNumber) =
      List.range (g.childIds parent).length := by
    calc (g.childrenOf parent).map (·.orderNumber)
        = (g.childIds parent).filterMap g.placeOf? := List.map_filterMap
      _ = ((g.childIds parent).map g.placeOf?).filterMap id := by
          rw [List.filterMap_map, Function.id_comp]
      _ = List.range (g.childIds parent).length := by
          rw [h.places_eq parent, List.filterMap_map]
          exact List.filterMap_some
  rw [hplaces, ← List.length_map (f := fun c : Component => c.orderNumber), hplaces,
    List.length_range]

end Arranged

/-! ## Outlines below components -/

mutual
/-- A graph has an outline below a component. -/
def Shows (g : Graph) : Outline → ComponentId → Prop
  | .node label ts, id =>
    g.labelOf? id = some label ∧ label ≠ .shared ∧ g.ShowsAll ts (g.childIds (some id))

/-- A graph has outlines below components, one below each of them. -/
def ShowsAll (g : Graph) : List Outline → List ComponentId → Prop
  | [], ids => ids = []
  | t :: ts, ids => ∃ id rest, ids = id :: rest ∧ g.Shows t id ∧ g.ShowsAll ts rest
end

theorem Shows.isInner {t : Outline} (h : g.Shows t id) : g.IsInner id := by
  cases t with
  | node label ts =>
    rw [Shows] at h
    exact ⟨label, h.2.1, h.1⟩

theorem Shows.exists_component (h : g.Sound) {t : Outline} (hshows : g.Shows t id) :
    ∃ c, g.get? c.id = some c ∧ c.id = id := by
  obtain ⟨label, -, hlabel⟩ := hshows.isInner
  obtain ⟨c, hc, -⟩ := Option.map_eq_some_iff.mp hlabel
  obtain ⟨n, rfl, hn⟩ := exists_of_get? hc
  have hself : c.id = n + 1 := h.id_eq n c hn
  exact ⟨c, hself ▸ hc, hself⟩

theorem showsAll_append {ts ts' : List Outline} {ids ids' : List ComponentId}
    (h : g.ShowsAll ts ids) (h' : g.ShowsAll ts' ids') :
    g.ShowsAll (ts ++ ts') (ids ++ ids') := by
  induction ts generalizing ids with
  | nil =>
    rw [ShowsAll] at h
    subst h
    exact h'
  | cons t ts ih =>
    rw [ShowsAll] at h
    obtain ⟨id, rest, rfl, hid, hrest⟩ := h
    rw [List.cons_append, List.cons_append, ShowsAll]
    exact ⟨id, rest ++ ids', rfl, hid, ih hrest⟩

mutual
/-- **Changes elsewhere do not count**: an outline stays if the components inside rules that are not
older keep their labels and their children. -/
theorem Shows.of_agrees (h : g.Arranged) (lo : ComponentId)
    (hagree : ∀ i, lo ≤ i → g.IsInner i →
      g'.labelOf? i = g.labelOf? i ∧ g'.childIds (some i) = g.childIds (some i))
    (t : Outline) (id : ComponentId) (hlo : lo ≤ id) (hshows : g.Shows t id) : g'.Shows t id := by
  cases t with
  | node label ts =>
    obtain ⟨hlabel, hchildren⟩ := hagree id hlo hshows.isInner
    rw [Shows] at hshows ⊢
    obtain ⟨hold, hinner, hts⟩ := hshows
    rw [hlabel, hchildren]
    refine ⟨hold, hinner, ShowsAll.of_agrees h lo hagree ts _ (fun i hi => ?_) hts⟩
    exact Nat.le_trans hlo (Nat.le_of_lt (h.lt_of_mem id i hi))

theorem ShowsAll.of_agrees (h : g.Arranged) (lo : ComponentId)
    (hagree : ∀ i, lo ≤ i → g.IsInner i →
      g'.labelOf? i = g.labelOf? i ∧ g'.childIds (some i) = g.childIds (some i))
    (ts : List Outline) (ids : List ComponentId) (hlo : ∀ id ∈ ids, lo ≤ id)
    (hshows : g.ShowsAll ts ids) : g'.ShowsAll ts ids := by
  cases ts with
  | nil =>
    rw [ShowsAll] at hshows ⊢
    exact hshows
  | cons t ts =>
    rw [ShowsAll] at hshows ⊢
    obtain ⟨id, rest, rfl, hid, hrest⟩ := hshows
    obtain ⟨hfirst, hlater⟩ := List.forall_mem_cons.mp hlo
    exact ⟨id, rest, rfl, Shows.of_agrees h lo hagree t id hfirst hid,
      ShowsAll.of_agrees h lo hagree ts rest hlater hrest⟩
end

mutual
/-- A tree that goes deep enough has the outline that the graph shows. -/
theorem Shows.outline_treeWithin (h : g.Arranged) (t : Outline) {c : Component}
    (hc : g.get? c.id = some c) {depth : Nat} (hdepth : g.size ≤ c.id + depth)
    (hshows : g.Shows t c.id) : (g.treeWithin depth c).outline = t := by
  cases t with
  | node label ts =>
    rw [Shows, labelOf?, hc] at hshows
    obtain ⟨hlabel, -, hts⟩ := hshows
    obtain rfl := Option.some.inj hlabel
    cases depth with
    | zero =>
      -- the component is the youngest one, so it has no children that are left out
      rw [h.childIds_of_size_le (show g.size ≤ c.id from hdepth)] at hts
      cases ts with
      | nil => simp [treeWithin, Tree.outline]
      | cons t ts => simp [ShowsAll] at hts
    | succ depth =>
      have hdeeper : ∀ i ∈ g.childIds (some c.id), g.size ≤ i + depth := by
        intro i hi
        calc g.size ≤ c.id + (depth + 1) := hdepth
          _ = c.id + 1 + depth := (Nat.add_right_comm c.id 1 depth).symm
          _ ≤ i + depth := Nat.add_le_add_right (h.lt_of_mem c.id i hi) depth
      simp only [treeWithin, Tree.outline, List.map_map]
      exact congrArg _ (ShowsAll.outline_treeWithin h ts hdeeper hts)

theorem ShowsAll.outline_treeWithin (h : g.Arranged) (ts : List Outline)
    {ids : List ComponentId} {depth : Nat} (hdepth : ∀ id ∈ ids, g.size ≤ id + depth)
    (hshows : g.ShowsAll ts ids) :
    (ids.filterMap g.get?).map (fun c => (g.treeWithin depth c).outline) = ts := by
  cases ts with
  | nil =>
    rw [ShowsAll] at hshows
    subst hshows
    rfl
  | cons t ts =>
    rw [ShowsAll] at hshows
    obtain ⟨id, rest, rfl, hid, hrest⟩ := hshows
    obtain ⟨hfirst, hlater⟩ := List.forall_mem_cons.mp hdepth
    obtain ⟨c, hc, rfl⟩ := hid.exists_component h.toSound
    rw [List.filterMap_cons_some hc, List.map_cons,
      ShowsAll.outline_treeWithin h ts hlater hrest]
    exact congrArg (· :: ts) (Shows.outline_treeWithin h t hc hfirst hid)
end

/-- **What a graph shows below a component is the outline of its tree.** -/
theorem Shows.outline?_eq (h : g.Arranged) {t : Outline} (hshows : g.Shows t id) :
    g.outline? id = some t := by
  obtain ⟨c, hc, rfl⟩ := hshows.exists_component h.toSound
  rw [outline?, tree?, hc]
  exact congrArg some (Shows.outline_treeWithin h t hc (Nat.le_add_left _ _) hshows)

theorem ShowsAll.map_outline? (h : g.Arranged) {ts : List Outline} {ids : List ComponentId}
    (hshows : g.ShowsAll ts ids) : ids.map g.outline? = ts.map some := by
  induction ts generalizing ids with
  | nil =>
    rw [ShowsAll] at hshows
    subst hshows
    rfl
  | cons t ts ih =>
    rw [ShowsAll] at hshows
    obtain ⟨id, rest, rfl, hid, hrest⟩ := hshows
    rw [List.map_cons, List.map_cons, hid.outline?_eq h, ih hrest]

end Graph

end RuleBase

import Mathlib.Data.List.Induction
import RuleBase.Proofs.Graph.Numbered

/-!
# Graphs and their tables

All that a graph holds besides its components and its possibilities follows from them: the tables
are what one gets by going through the components from the oldest to the youngest one.

* **`Graph.Tabled.toIndexed`**: the tables of a graph tell what its components do;
* **`Graph.Tabled.eq_of_eq`**: graphs with the same components and possibilities are the same.
-/

namespace RuleBase

namespace Graph

/-! ## Tables of components -/

/-- The table of children that components ask for. -/
def childTableOf (components : List Component) : Table (Option ComponentId) (List ComponentId) :=
  (components.map fun c => (c.parent, c.id)).foldl
    (fun table entry => table.alter entry.1 (withChild entry.2)) .empty

/-- A table of keys with an entry for one more component. -/
def withKey (table : Table Key ComponentId) : Option Key × ComponentId → Table Key ComponentId
  | (some key, id) => table.alter key (foundWith key id)
  | (none, _) => table

/-- The table of keys that components ask for. -/
def keyTableOf (components : List Component) : Table Key ComponentId :=
  (components.map fun c => (c.kind.key?, c.id)).foldl withKey .empty

theorem childTableOf_append_singleton (components : List Component) (c : Component) :
    childTableOf (components ++ [c]) =
      (childTableOf components).alter c.parent (withChild c.id) := by
  rw [childTableOf, List.map_append, List.foldl_append]
  rfl

theorem keyTableOf_append_singleton (components : List Component) (c : Component) :
    keyTableOf (components ++ [c]) = withKey (keyTableOf components) (c.kind.key?, c.id) := by
  rw [keyTableOf, List.map_append, List.foldl_append]
  rfl

theorem find?_childTableOf (components : List Component) (parent : Option ComponentId) :
    ((childTableOf components).find? parent).getD [] = idsUnder parent components := by
  induction components using List.reverseRecOn with
  | nil => rfl
  | append_singleton components c ih =>
    rw [childTableOf_append_singleton, idsUnder_append_singleton, Table.find?_alter]
    by_cases hparent : parent = c.parent
    · subst hparent
      rw [if_pos rfl, if_pos rfl, withChild, Option.getD_some, ih]
    · rw [if_neg hparent, if_neg (Ne.symm hparent), ih, List.append_nil]

/-- The oldest of some components with a key. -/
def oldestOf? (key : Key) (components : List Component) : Option ComponentId :=
  (components.find? (·.kind.key? = some key)).map (·.id)

/-- The newest of some components with a key. -/
def newestOf? (key : Key) (components : List Component) : Option ComponentId :=
  (components.reverse.find? (·.kind.key? = some key)).map (·.id)

/-- **A key leads to the oldest component with it**, or to the newest one if these shadow others. -/
theorem find?_keyTableOf (components : List Component) (key : Key) :
    (keyTableOf components).find? key =
      if key.isShadowing then newestOf? key components else oldestOf? key components := by
  induction components using List.reverseRecOn with
  | nil => cases key.isShadowing <;> rfl
  | append_singleton components c ih =>
    rw [keyTableOf_append_singleton]
    by_cases hkey : c.kind.key? = some key
    · rw [hkey, withKey, Table.find?_alter, if_pos rfl, foundWith, ih]
      cases key.isShadowing with
      | true => simp [newestOf?, hkey]
      | false => simp [oldestOf?, List.find?_append, hkey]
    · have hsame : (withKey (keyTableOf components) (c.kind.key?, c.id)).find? key =
          (keyTableOf components).find? key := by
        cases hother : c.kind.key? with
        | none => rfl
        | some other =>
          rw [withKey, Table.find?_alter, if_neg]
          rintro rfl
          exact hkey hother
      rw [hsame, ih]
      cases key.isShadowing with
      | true => simp [newestOf?, hkey]
      | false => simp [oldestOf?, List.find?_append, hkey]

/-! ## Tabled graphs -/

/-- The tables of a graph are those that its components ask for, and its numbers are right. -/
structure Tabled (g : Graph) : Prop where
  id_eq : ∀ n c, g.components[n]? = some c → c.id = n + 1
  orderNumber_eq : ∀ n c, g.components[n]? = some c →
    c.orderNumber = (g.components.take n).countP (·.parent = c.parent)
  childTable_eq : g.childTable = childTableOf g.components
  keyTable_eq : g.keyTable = keyTableOf g.components
  numbered : g.Numbered
  /-- Possibilities are in the order of their numbers. -/
  increasing : (g.patternPossibilities.map (·.id)).Pairwise (· < ·) ∧
    (g.rulePossibilities.map (·.id)).Pairwise (· < ·)

theorem tabled_empty : Tabled {} where
  id_eq _ _ h := by cases h
  orderNumber_eq _ _ h := by cases h
  childTable_eq := rfl
  keyTable_eq := rfl
  numbered := numbered_empty
  increasing := ⟨.nil, .nil⟩

theorem length_idsUnder (parent : Option ComponentId) (components : List Component) :
    (idsUnder parent components).length = components.countP (·.parent = parent) := by
  rw [idsUnder, List.length_map, List.countP_eq_length_filter]

theorem getElem?_components_add {g : Graph} {parent : Option ComponentId} {kind : Kind} {n : Nat}
    {c : Component} (hc : (g.add parent kind).components[n]? = some c) :
    n < g.components.length ∧ g.components[n]? = some c ∨
      n = g.components.length ∧ c = g.newComponent parent kind := by
  obtain hlt | hle := Nat.lt_or_ge n g.components.length
  · rw [Graph.add, List.getElem?_append_left hlt] at hc
    exact .inl ⟨hlt, hc⟩
  · rw [Graph.add, List.getElem?_append_right hle, List.getElem?_singleton] at hc
    obtain ⟨hzero, hnew⟩ := Option.ite_none_right_eq_some.mp hc
    exact .inr ⟨Nat.le_antisymm (Nat.sub_eq_zero_iff_le.mp hzero) hle, (Option.some.inj hnew).symm⟩

namespace Tabled

variable {g : Graph}

theorem childIds_eq (h : g.Tabled) (parent : Option ComponentId) :
    g.childIds parent = idsUnder parent g.components := by
  rw [childIds, h.childTable_eq, find?_childTableOf]

/-- **Additions keep a graph tabled**, whatever the parent and the kind are. -/
theorem add (h : g.Tabled) (parent : Option ComponentId) (kind : Kind) :
    (g.add parent kind).Tabled where
  id_eq n c hc := by
    obtain ⟨-, hold⟩ | ⟨rfl, rfl⟩ := getElem?_components_add hc
    · exact h.id_eq n c hold
    · rfl
  orderNumber_eq n c hc := by
    obtain ⟨hlt, hold⟩ | ⟨rfl, rfl⟩ := getElem?_components_add hc
    · rw [Graph.add, List.take_append_of_le_length (Nat.le_of_lt hlt)]
      exact h.orderNumber_eq n c hold
    · rw [Graph.add, List.take_left]
      exact (congrArg List.length (h.childIds_eq parent)).trans (length_idsUnder _ _)
  childTable_eq := by
    rw [Graph.add, childTableOf_append_singleton, ← h.childTable_eq]
    rfl
  keyTable_eq := by
    rw [Graph.add, keyTableOf_append_singleton, ← h.keyTable_eq]
    cases hkey : kind.key? <;> simp [newComponent, hkey, withKey]
  numbered := h.numbered
  increasing := h.increasing

theorem of_eq (h : g.Tabled) (journal? : Option Journal) : Tabled { g with journal? } :=
  ⟨h.id_eq, h.orderNumber_eq, h.childTable_eq, h.keyTable_eq, h.numbered, h.increasing⟩

end Tabled

theorem map_changeKind {α : Type} (f : Component → α) (id : ComponentId) {change : Kind → Kind}
    (hf : ∀ c : Component, f { c with kind := change c.kind } = f c) (components : List Component) :
    (changeKind id change components).map f = components.map f := by
  apply List.ext_getElem?
  intro n
  rw [List.getElem?_map, getElem?_changeKind, List.getElem?_map, Option.map_map]
  refine congrArg (Option.map · components[n]?) (funext fun c => ?_)
  by_cases hid : id = n + 1
  · simp [hid, hf]
  · simp [hid]

theorem countP_take_parent (components : List Component) (n : Nat) (parent : Option ComponentId) :
    (components.take n).countP (·.parent = parent) =
      ((components.map (·.parent)).take n).countP (· = parent) := by
  rw [← List.map_take, List.countP_map]
  rfl

namespace Tabled

variable {g : Graph}

/-- **Changes that keep keys keep a graph tabled.** -/
theorem modify (h : g.Tabled) (id : ComponentId) {change : Kind → Kind}
    (hchange : ∀ k, (change k).key? = k.key?) : (g.modify id change).Tabled := by
  have hparents : (g.modify id change).components.map (·.parent) = g.components.map (·.parent) := by
    rw [components_modify, map_changeKind (·.parent) id fun c => rfl]
  have hold : ∀ (n : Nat) (c : Component), (g.modify id change).components[n]? = some c →
      ∃ c' : Component, g.components[n]? = some c' ∧ c'.id = c.id ∧ c'.orderNumber = c.orderNumber ∧
        c'.parent = c.parent := by
    intro n c hc
    rw [components_modify, getElem?_changeKind] at hc
    obtain ⟨c', hc', rfl⟩ := Option.map_eq_some_iff.mp hc
    refine ⟨c', hc', ?_⟩
    split <;> exact ⟨rfl, rfl, rfl⟩
  have htables : (g.modify id change).childTable = g.childTable ∧
      (g.modify id change).keyTable = g.keyTable ∧
      (g.modify id change).patternPossibilities = g.patternPossibilities ∧
      (g.modify id change).rulePossibilities = g.rulePossibilities := by
    cases hc : g.get? id with
    | none => simp [modify_of_get?_eq_none hc]
    | some c => simp [Graph.modify, hc]
  obtain ⟨hchild, hkey, hpatterns, hrules⟩ := htables
  refine ⟨fun n c hc => ?_, fun n c hc => ?_, ?_, ?_, h.numbered.modify id change, ?_⟩
  · obtain ⟨c', hc', hid, -⟩ := hold n c hc
    rw [← hid, h.id_eq n c' hc']
  · obtain ⟨c', hc', -, horder, hparent⟩ := hold n c hc
    rw [← horder, h.orderNumber_eq n c' hc', hparent, countP_take_parent, countP_take_parent,
      hparents]
  · rw [hchild, h.childTable_eq, childTableOf, childTableOf, components_modify,
      map_changeKind (fun c => (c.parent, c.id)) id fun c => rfl]
  · rw [hkey, h.keyTable_eq, keyTableOf, keyTableOf, components_modify,
      map_changeKind (fun c => (c.kind.key?, c.id)) id fun c => by rw [hchange]]
  · rw [hpatterns, hrules]
    exact h.increasing

theorem le_issued (h : g.Tabled) {id : PossibilityId}
    (hid : id ∈ g.patternPossibilities.map (·.id) ∨ id ∈ g.rulePossibilities.map (·.id)) :
    id ≤ g.issued := by
  have hmem : id ∈ List.range' 1 g.issued := h.numbered.mem_iff.mp (List.mem_append.mpr hid)
  have hlt : id < 1 + g.issued := (List.mem_range'_1.mp hmem).2
  exact Nat.le_of_lt_succ (Nat.lt_of_lt_of_eq hlt (Nat.add_comm 1 g.issued))

theorem pairwise_append_next (g : Graph) {ids : List PossibilityId} (hids : ids.Pairwise (· < ·))
    (hle : ∀ id ∈ ids, id ≤ g.issued) (count : Nat) :
    (ids ++ g.nextPossibilities count).Pairwise (· < ·) := by
  refine List.pairwise_append.mpr ⟨hids, List.pairwise_lt_range', fun id hid next hnext => ?_⟩
  exact Nat.lt_of_le_of_lt (hle id hid) (List.mem_range'_1.mp hnext).1

theorem addPatternPossibilities (h : g.Tabled) (rule pattern : ComponentId)
    (possibilities : List (List ComponentId)) :
    (g.addPatternPossibilities rule pattern possibilities).Tabled where
  id_eq := h.id_eq
  orderNumber_eq := h.orderNumber_eq
  childTable_eq := h.childTable_eq
  keyTable_eq := h.keyTable_eq
  numbered := h.numbered.addPatternPossibilities rule pattern possibilities
  increasing := by
    rw [map_id_addPatternPossibilities]
    exact ⟨pairwise_append_next g h.increasing.1 (fun _ hid => h.le_issued (.inl hid)) _,
      h.increasing.2⟩

theorem addRulePossibilities (h : g.Tabled) (rule : ComponentId)
    (possibilities : List (List PossibilityId)) :
    (g.addRulePossibilities rule possibilities).Tabled where
  id_eq := h.id_eq
  orderNumber_eq := h.orderNumber_eq
  childTable_eq := h.childTable_eq
  keyTable_eq := h.keyTable_eq
  numbered := h.numbered.addRulePossibilities rule possibilities
  increasing := by
    rw [map_id_addRulePossibilities]
    exact ⟨h.increasing.1,
      pairwise_append_next g h.increasing.2 (fun _ hid => h.le_issued (.inr hid)) _⟩

end Tabled

/-! ## Graphs that are put together -/

/-- What a graph can become by additions, one by one, whatever they are. -/
inductive Built : Graph → Prop where
  | empty : Built {}
  | add {g : Graph} (h : Built g) (parent : Option ComponentId) (kind : Kind) :
      Built (g.add parent kind)
  | patternPossibility {g : Graph} (h : Built g) (rule pattern : ComponentId)
      (restrictions : List ComponentId) :
      Built (g.addPatternPossibilities rule pattern [restrictions])
  | rulePossibility {g : Graph} (h : Built g) (rule : ComponentId)
      (patterns : List PossibilityId) : Built (g.addRulePossibilities rule [patterns])

/-- **Graphs that are put together are tabled.** -/
theorem Built.tabled {g : Graph} (h : Built g) : g.Tabled ∧ g.journal? = none := by
  induction h with
  | empty => exact ⟨tabled_empty, rfl⟩
  | add _ parent kind ih => exact ⟨ih.1.add parent kind, ih.2⟩
  | patternPossibility _ rule pattern restrictions ih =>
    exact ⟨ih.1.addPatternPossibilities rule pattern [restrictions], ih.2⟩
  | rulePossibility _ rule patterns ih =>
    exact ⟨ih.1.addRulePossibilities rule [patterns], ih.2⟩

/-! ## What the tables tell -/

/-- **The tables of a graph tell what its components do**, and its possibilities are numbered. -/
structure Indexed (g : Graph) : Prop where
  id_eq : ∀ n c, g.components[n]? = some c → c.id = n + 1
  orderNumber_eq : ∀ n c, g.components[n]? = some c →
    c.orderNumber = (g.components.take n).countP (·.parent = c.parent)
  children_eq : ∀ id, g.children id = g.components.filter (·.parent = some id)
  roots_eq : g.roots = g.components.filter (·.parent = none)
  findPackage?_eq : ∀ name, g.findPackage? name = oldestOf? (.package name) g.components
  findClass?_eq : ∀ name, g.findClass? name = oldestOf? (.factClass name) g.components
  findField?_eq : ∀ factClass name,
    g.findField? factClass name = oldestOf? (.field factClass name) g.components
  findVar?_eq : ∀ rule name, g.findVar? rule name = newestOf? (.var rule name) g.components
  possibilities_perm : (g.patternPossibilities.map (·.id) ++ g.rulePossibilities.map (·.id)).Perm
    (List.range' 1 g.issued)
  patternPossibilities_increasing : (g.patternPossibilities.map (·.id)).Pairwise (· < ·)
  rulePossibilities_increasing : (g.rulePossibilities.map (·.id)).Pairwise (· < ·)

namespace Tabled

variable {g g' : Graph}

theorem childrenOf_eq (h : g.Tabled) (parent : Option ComponentId) :
    g.childrenOf parent = g.components.filter (·.parent = parent) := by
  rw [childrenOf, h.childIds_eq, idsUnder, List.filterMap_map]
  refine (List.filterMap_congr fun c hc => ?_).trans List.filterMap_some
  obtain ⟨n, hn⟩ := List.mem_iff_getElem?.mp (List.mem_filter.mp hc).1
  rw [Function.comp_apply, h.id_eq n c hn]
  exact hn

theorem find?_eq (h : g.Tabled) (key : Key) :
    g.keyTable.find? key =
      if key.isShadowing then newestOf? key g.components else oldestOf? key g.components := by
  rw [h.keyTable_eq, find?_keyTableOf]

/-- **No component behind the newest one with a key has that key.** -/
theorem newest (h : g.Tabled) {key : Key} (hshadowing : key.isShadowing = true) {id : ComponentId}
    (hfind : g.keyTable.find? key = some id) :
    (∃ c, g.get? id = some c ∧ c.kind.key? = some key) ∧
      ∀ later c, id < later → g.get? later = some c → c.kind.key? ≠ some key := by
  rw [h.find?_eq, if_pos hshadowing] at hfind
  obtain ⟨c, hc, rfl⟩ := Option.map_eq_some_iff.mp hfind
  obtain ⟨hkey, after, before, hsplit, hafter⟩ := List.find?_eq_some_iff_append.mp hc
  have hcomponents : g.components = before.reverse ++ c :: after.reverse := by
    rw [← List.reverse_reverse g.components, hsplit]
    simp
  have hplace : g.components[before.length]? = some c := by simp [hcomponents]
  have hid := h.id_eq before.length c hplace
  refine ⟨⟨c, by rw [hid]; exact hplace, of_decide_eq_true hkey⟩, fun later c' hlt hc' hkey' => ?_⟩
  obtain ⟨n, rfl, hn⟩ := exists_of_get? hc'
  rw [hid] at hlt
  obtain ⟨k, rfl⟩ := Nat.exists_eq_add_of_lt (Nat.lt_of_succ_lt_succ hlt)
  have hmem : c' ∈ after := by
    rw [hcomponents, ← List.length_reverse, Nat.add_assoc,
      List.getElem?_append_right (Nat.le_add_right _ _), Nat.add_sub_cancel_left,
      List.getElem?_cons_succ] at hn
    exact List.mem_reverse.mp (List.mem_of_getElem? hn)
  simpa [hkey'] using hafter c' hmem

/-- **The tables of a tabled graph tell what its components do.** -/
theorem toIndexed (h : g.Tabled) : g.Indexed where
  id_eq := h.id_eq
  orderNumber_eq := h.orderNumber_eq
  children_eq _ := h.childrenOf_eq _
  roots_eq := h.childrenOf_eq none
  findPackage?_eq _ := h.find?_eq _
  findClass?_eq _ := h.find?_eq _
  findField?_eq _ _ := h.find?_eq _
  findVar?_eq _ _ := h.find?_eq _
  possibilities_perm := h.numbered
  patternPossibilities_increasing := h.increasing.1
  rulePossibilities_increasing := h.increasing.2

/-- **Components and possibilities tell all of a graph.** -/
theorem eq_of_eq (h : g.Tabled) (h' : g'.Tabled) (hcomponents : g'.components = g.components)
    (hpatterns : g'.patternPossibilities = g.patternPossibilities)
    (hrules : g'.rulePossibilities = g.rulePossibilities) (hjournal : g'.journal? = g.journal?) :
    g' = g := by
  have hissued : g'.issued = g.issued := by
    have hlength := h.numbered.length_eq
    have hlength' := h'.numbered.length_eq
    rw [hpatterns, hrules, hlength, List.length_range', List.length_range'] at hlength'
    exact hlength'.symm
  have hchild : g'.childTable = g.childTable := by
    rw [h.childTable_eq, h'.childTable_eq, hcomponents]
  have hkey : g'.keyTable = g.keyTable := by rw [h.keyTable_eq, h'.keyTable_eq, hcomponents]
  cases g
  cases g'
  simp_all

end Tabled

end Graph

end RuleBase

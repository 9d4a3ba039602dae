import RuleBase.Graph.Basic
import RuleBase.Proofs.Graph.Table

/-!
# Sound graphs

The tables of a graph agree with its components: a key leads to a component with that key, and a
parent to exactly its children, the oldest first.

* **`Graph.Sound.add`**, `Graph.Sound.modify`: additions and changes keep a graph sound.
-/

namespace RuleBase

namespace Graph

/-- The numbers of the components with a parent, the oldest first. -/
def idsUnder (parent : Option ComponentId) (components : List Component) : List ComponentId :=
  (components.filter (·.parent = parent)).map (·.id)

theorem idsUnder_append_singleton (parent : Option ComponentId) (components : List Component)
    (c : Component) :
    idsUnder parent (components ++ [c]) =
      idsUnder parent components ++ if c.parent = parent then [c.id] else [] := by
  by_cases h : c.parent = parent <;> simp [idsUnder, h]

/-- The numbers and the tables of a graph are right. -/
structure Sound (g : Graph) : Prop where
  /-- The `i`-th component has the number `i`. -/
  id_eq : ∀ n c, g.components[n]? = some c → c.id = n + 1
  /-- A key leads to a component with that key. -/
  key?_eq : ∀ key id, g.keyTable.find? key = some id →
    ∃ c, g.get? id = some c ∧ c.kind.key? = some key
  /-- A parent leads to its children. -/
  childIds_eq : ∀ parent, g.childIds parent = idsUnder parent g.components
  /-- Only parents stand in the table of children. -/
  find?_ne_nil : ∀ parent, g.childTable.find? parent ≠ some []

theorem sound_empty : Sound {} where
  id_eq _ _ h := by cases h
  key?_eq _ _ h := by cases h
  childIds_eq _ := rfl
  find?_ne_nil _ h := by cases h

theorem exists_of_get? {g : Graph} {id : ComponentId} {c : Component} (h : g.get? id = some c) :
    ∃ n, id = n + 1 ∧ g.components[n]? = some c := by
  cases id with
  | zero => cases h
  | succ n => exact ⟨n, rfl, h⟩

theorem le_size_of_get? {g : Graph} {id : ComponentId} {c : Component} (h : g.get? id = some c) :
    id ≤ g.size := by
  obtain ⟨n, rfl, hn⟩ := exists_of_get? h
  exact (List.getElem?_eq_some_iff.mp hn).1

theorem map_get?_modify {β : Type} (g : Graph) (id : ComponentId) {change : Kind → Kind}
    (tell : Component → β) (h : ∀ c : Component, tell { c with kind := change c.kind } = tell c)
    (other : ComponentId) :
    ((g.modify id change).get? other).map tell = (g.get? other).map tell := by
  rw [get?_modify, Option.map_map]
  refine congrArg (Option.map · (g.get? other)) (funext fun c => ?_)
  by_cases hid : id = other <;> simp [hid, h]

theorem keyTable_modify (g : Graph) (id : ComponentId) (change : Kind → Kind) :
    (g.modify id change).keyTable = g.keyTable := by
  cases hc : g.get? id with
  | none => rw [modify_of_get?_eq_none hc]
  | some c => simp [Graph.modify, hc]

theorem findVar?_modify (g : Graph) (id : ComponentId) (change : Kind → Kind) (r : ComponentId)
    (name : String) : (g.modify id change).findVar? r name = g.findVar? r name := by
  rw [findVar?, keyTable_modify, findVar?]

namespace Sound

variable {g : Graph}

theorem le_size_of_find? (h : g.Sound) {key : Key} {id : ComponentId}
    (hkey : g.keyTable.find? key = some id) : id ≤ g.size := by
  obtain ⟨c, hc, -⟩ := h.key?_eq key id hkey
  exact le_size_of_get? hc

theorem id_eq_of_get? (h : g.Sound) {id : ComponentId} {c : Component} (hc : g.get? id = some c) :
    c.id = id := by
  obtain ⟨n, rfl, hn⟩ := exists_of_get? hc
  exact h.id_eq n c hn

theorem mem_id_le (h : g.Sound) {c : Component} (hc : c ∈ g.components) : c.id ≤ g.size := by
  obtain ⟨n, hn⟩ := List.mem_iff_getElem?.mp hc
  rw [h.id_eq n c hn]
  exact (List.getElem?_eq_some_iff.mp hn).1

theorem of_eq (h : g.Sound) {g' : Graph} (hcomponents : g'.components = g.components)
    (hchild : g'.childTable = g.childTable) (hkey : g'.keyTable = g.keyTable) : g'.Sound := by
  obtain ⟨components, _, _, _, childTable, keyTable, _⟩ := g'
  subst hcomponents hchild hkey
  exact ⟨h.id_eq, h.key?_eq, h.childIds_eq, h.find?_ne_nil⟩

/-- What stands under a parent is exactly the list of its children. -/
theorem find?_childTable (h : g.Sound) {parent : Option ComponentId} {ids : List ComponentId}
    (hids : g.childTable.find? parent = some ids) : ids = idsUnder parent g.components := by
  rw [← h.childIds_eq, childIds, hids]
  rfl

theorem idsUnder_of_find?_eq_none (h : g.Sound) {parent : Option ComponentId}
    (hnone : g.childTable.find? parent = none) : idsUnder parent g.components = [] := by
  rw [← h.childIds_eq, childIds, hnone]
  rfl

/-- **Additions keep a graph sound**, whatever the parent and the kind are. -/
theorem add (h : g.Sound) (parent : Option ComponentId) (kind : Kind) :
    (g.add parent kind).Sound where
  id_eq n c hc := by
    rcases Nat.lt_trichotomy n g.components.length with hn | rfl | hn
    · rw [Graph.add, List.getElem?_append_left hn] at hc
      exact h.id_eq n c hc
    · have hnew : some (g.newComponent parent kind) = some c := by
        simpa [Graph.add] using hc
      obtain rfl := Option.some.inj hnew
      rfl
    · rw [List.getElem?_eq_none (by simp [Graph.add]; omega)] at hc
      cases hc
  key?_eq key id hkey := by
    have hold : ∀ id, g.keyTable.find? key = some id →
        ∃ c, (g.add parent kind).get? id = some c ∧ c.kind.key? = some key := by
      intro id hid
      obtain ⟨c, hc, hckey⟩ := h.key?_eq key id hid
      exact ⟨c, by rw [get?_add_of_le g parent kind (h.le_size_of_find? hid)]; exact hc, hckey⟩
    cases hk : kind.key? with
    | none =>
      simp only [Graph.add, hk] at hkey
      exact hold id hkey
    | some new =>
      simp only [Graph.add, hk, Table.find?_alter] at hkey
      by_cases hnew : key = new
      · subst hnew
        rw [if_pos rfl, foundWith] at hkey
        have hfound : g.keyTable.find? key = some id ∨ g.nextId = id := by
          split at hkey
          · exact Or.inr (Option.some.inj hkey)
          · rcases Option.or_eq_some_iff.mp hkey with hid | ⟨-, hid⟩
            · exact Or.inl hid
            · exact Or.inr (Option.some.inj hid)
        rcases hfound with hid | rfl
        · exact hold id hid
        · exact ⟨_, get?_add_nextId g parent kind, hk⟩
      · rw [if_neg hnew] at hkey
        exact hold id hkey
  childIds_eq parent' := by
    have hold := h.childIds_eq parent'
    rw [childIds] at hold ⊢
    simp only [Graph.add, Table.find?_alter, idsUnder_append_singleton, newComponent]
    by_cases hp : parent' = parent
    · subst hp
      simp [withChild, hold]
    · simp [hp, Ne.symm hp, hold]
  find?_ne_nil parent' := by
    simp only [Graph.add, Table.find?_alter]
    by_cases hp : parent' = parent
    · simp [hp, withChild]
    · rw [if_neg hp]
      exact h.find?_ne_nil parent'

/-- **Putting other kinds in keeps a graph sound** if its table of keys fits them. -/
theorem of_kinds (h : g.Sound) {g' : Graph}
    (hcomponents : ∀ n : Nat, ∃ f : Kind → Kind,
      g'.components[n]? = g.components[n]?.map fun c => { c with kind := f c.kind })
    (hchild : g'.childTable = g.childTable)
    (hkey : ∀ key id, g'.keyTable.find? key = some id →
      ∃ c, g'.get? id = some c ∧ c.kind.key? = some key) : g'.Sound := by
  have hids : ∀ parent, idsUnder parent g'.components = idsUnder parent g.components := by
    have hmap : g'.components.map (fun c => (c.parent, c.id)) =
        g.components.map (fun c => (c.parent, c.id)) := by
      apply List.ext_getElem?
      intro n
      obtain ⟨f, hf⟩ := hcomponents n
      simp only [List.getElem?_map, hf, Option.map_map]
      rfl
    intro parent
    have hunder : ∀ l : List Component, idsUnder parent l =
        ((l.map fun c => (c.parent, c.id)).filter (·.1 = parent)).map (·.2) := by
      intro l
      simp [idsUnder, List.filter_map, Function.comp_def]
    rw [hunder, hunder, hmap]
  refine ⟨fun n c hc => ?_, hkey, fun parent => ?_, fun parent => ?_⟩
  · obtain ⟨f, hf⟩ := hcomponents n
    rw [hf] at hc
    obtain ⟨c', hc', rfl⟩ := Option.map_eq_some_iff.mp hc
    exact h.id_eq n c' hc'
  · rw [hids, childIds, hchild]
    exact h.childIds_eq parent
  · rw [hchild]
    exact h.find?_ne_nil parent

/-- **Changes that keep keys keep a graph sound.** -/
theorem modify (h : g.Sound) (id : ComponentId) {change : Kind → Kind}
    (hchange : ∀ k, (change k).key? = k.key?) : (g.modify id change).Sound := by
  have hchild : (g.modify id change).childTable = g.childTable := by
    cases hc : g.get? id with
    | none => rw [modify_of_get?_eq_none hc]
    | some c => simp [Graph.modify, hc]
  refine h.of_kinds (fun n => ?_) hchild fun key other hother => ?_
  · refine ⟨if id = n + 1 then change else fun k => k, ?_⟩
    rw [components_modify, getElem?_changeKind]
    split <;> rfl
  · rw [keyTable_modify] at hother
    obtain ⟨c, hc, hkey⟩ := h.key?_eq key other hother
    rw [get?_modify, hc]
    refine ⟨_, rfl, ?_⟩
    split
    · exact (hchange c.kind).trans hkey
    · exact hkey

end Sound

end Graph

end RuleBase

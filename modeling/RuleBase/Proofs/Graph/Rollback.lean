import RuleBase.Proofs.Graph.Sound

/-!
# Rolling back

A graph that is rolled back is what it was at its checkpoint, however it has grown and changed
since. The components that came later leave one by one, and each takes its own entries out of the
tables; what is left of the tables are the entries of the older components.

* **`Graph.Since.rollback_eq`**: rolling back gives the earlier graph.
-/

namespace RuleBase

namespace Graph

/-! ## The first components of a graph -/

/-- A number, if it is among the first ones. -/
def idUpTo (n : Nat) (id : ComponentId) : Option ComponentId := if id ≤ n then some id else none

/-- Those of some children whose numbers are among the first ones, if there are any. -/
def idsUpTo (n : Nat) (ids : List ComponentId) : Option (List ComponentId) :=
  (some (ids.filter (· ≤ n))).filter (!·.isEmpty)

/-- A graph with its first components only, and what the tables tell about them. -/
def upTo (n : Nat) (g : Graph) : Graph :=
  { g with
    components := g.components.take n
    childTable := g.childTable.restrict (idsUpTo n)
    keyTable := g.keyTable.restrict (idUpTo n) }

theorem idUpTo_bind {m n : Nat} (h : m ≤ n) (id : ComponentId) :
    (idUpTo n id).bind (idUpTo m) = idUpTo m id := by
  by_cases hn : id ≤ n
  · simp [idUpTo, hn]
  · have hm : ¬ id ≤ m := fun hm => hn (Nat.le_trans hm h)
    simp [idUpTo, hn, hm]

theorem idsUpTo_bind {m n : Nat} (h : m ≤ n) (ids : List ComponentId) :
    (idsUpTo n ids).bind (idsUpTo m) = idsUpTo m ids := by
  have hfilter : (ids.filter (· ≤ n)).filter (· ≤ m) = ids.filter (· ≤ m) := by
    rw [List.filter_filter]
    refine List.filter_congr fun id _ => ?_
    by_cases hm : id ≤ m
    · simp [hm, Nat.le_trans hm h]
    · simp [hm]
  by_cases hn : ids.filter (· ≤ n) = []
  · have hm : ids.filter (· ≤ m) = [] := by rw [← hfilter, hn]; rfl
    simp [idsUpTo, Option.filter, hn, hm]
  · simp [idsUpTo, Option.filter, hn, hfilter]

theorem upTo_upTo {m n : Nat} (h : m ≤ n) (g : Graph) : (g.upTo n).upTo m = g.upTo m := by
  simp only [upTo, List.take_take, Nat.min_eq_left h, Table.restrict_restrict, idUpTo_bind h,
    idsUpTo_bind h]

namespace Sound

variable {g : Graph}

theorem upTo_size (h : g.Sound) : g.upTo g.size = g := by
  have hkey : g.keyTable.restrict (idUpTo g.size) = g.keyTable :=
    Table.restrict_eq_self fun key id hid => by simp [idUpTo, h.le_size_of_find? hid]
  have hchild : g.childTable.restrict (idsUpTo g.size) = g.childTable := by
    refine Table.restrict_eq_self fun parent ids hids => ?_
    have hle : ∀ id ∈ ids, id ≤ g.size := by
      rw [h.find?_childTable hids]
      intro id hid
      obtain ⟨c, hc, rfl⟩ := List.mem_map.mp hid
      exact h.mem_id_le (List.mem_of_mem_filter hc)
    have hne : ids ≠ [] := fun hnil => h.find?_ne_nil parent (hnil ▸ hids)
    rw [idsUpTo, List.filter_eq_self.mpr (by simpa using hle)]
    simp [Option.filter, hne]
  rw [upTo, hkey, hchild, size, List.take_length]

theorem id_le_of_mem_take (h : g.Sound) {n : Nat} {c : Component}
    (hc : c ∈ g.components.take n) : c.id ≤ n := by
  obtain ⟨i, hi⟩ := List.mem_iff_getElem?.mp hc
  by_cases hin : i < n
  · rw [List.getElem?_take_of_lt hin] at hi
    rw [h.id_eq i c hi]
    exact hin
  · rw [List.getElem?_take_eq_none (Nat.le_of_not_lt hin)] at hi
    cases hi

theorem lt_id_of_mem_drop (h : g.Sound) {n : Nat} {c : Component}
    (hc : c ∈ g.components.drop n) : n < c.id := by
  obtain ⟨i, hi⟩ := List.mem_iff_getElem?.mp hc
  rw [List.getElem?_drop] at hi
  rw [h.id_eq (n + i) c hi]
  omega

theorem filter_id_le (h : g.Sound) (n : Nat) :
    g.components.filter (·.id ≤ n) = g.components.take n := by
  have hfirst : (g.components.take n).filter (·.id ≤ n) = g.components.take n :=
    List.filter_eq_self.mpr fun c hc => decide_eq_true (h.id_le_of_mem_take hc)
  have hrest : (g.components.drop n).filter (·.id ≤ n) = [] :=
    List.filter_eq_nil_iff.mpr fun c hc =>
      Bool.not_eq_true _ ▸ decide_eq_false (Nat.not_le.mpr (h.lt_id_of_mem_drop hc))
  calc g.components.filter (·.id ≤ n)
      = (g.components.take n ++ g.components.drop n).filter (·.id ≤ n) := by
        rw [List.take_append_drop]
    _ = g.components.take n := by rw [List.filter_append, hfirst, hrest, List.append_nil]

theorem filter_idsUnder (h : g.Sound) (parent : Option ComponentId) (n : Nat) :
    (idsUnder parent g.components).filter (· ≤ n) = idsUnder parent (g.components.take n) := by
  simp only [idsUnder, ← h.filter_id_le n, List.filter_map, List.filter_filter, Function.comp_def]
  refine congrArg _ (List.filter_congr fun c _ => Bool.and_comm _ _)

theorem upTo (h : g.Sound) (n : Nat) : (g.upTo n).Sound where
  id_eq i c hc := by
    by_cases hin : i < n
    · exact h.id_eq i c (by rwa [Graph.upTo, List.getElem?_take_of_lt hin] at hc)
    · rw [Graph.upTo, List.getElem?_take_eq_none (Nat.le_of_not_lt hin)] at hc
      cases hc
  key?_eq key id hkey := by
    simp only [Graph.upTo, Table.find?_restrict, Option.bind_eq_some_iff, idUpTo] at hkey
    obtain ⟨id', hid', hle⟩ := hkey
    split at hle
    · next hn =>
      obtain rfl := Option.some.inj hle
      obtain ⟨c, hc, hckey⟩ := h.key?_eq key id' hid'
      refine ⟨c, ?_, hckey⟩
      cases id' with
      | zero => cases hc
      | succ i => exact (List.getElem?_take_of_lt hn).trans hc
    · cases hle
  childIds_eq parent := by
    simp only [childIds, Graph.upTo, Table.find?_restrict]
    rw [← h.filter_idsUnder]
    cases hp : g.childTable.find? parent with
    | none => simp [h.idsUnder_of_find?_eq_none hp]
    | some ids =>
      rw [← h.find?_childTable hp, Option.bind_some]
      by_cases hnil : ids.filter (· ≤ n) = [] <;> simp [idsUpTo, Option.filter, hnil]
  find?_ne_nil parent hp := by
    simp only [Graph.upTo, Table.find?_restrict, Option.bind_eq_some_iff, idsUpTo,
      Option.filter_eq_some_iff] at hp
    obtain ⟨ids, -, -, hne⟩ := hp
    exact Bool.noConfusion hne

end Sound

section Drop

variable {g : Graph} {init : List Component} {c : Component}

theorem size_of_components (hinit : g.components = init ++ [c]) : g.size = init.length + 1 := by
  rw [size, hinit, List.length_append, List.length_singleton]

theorem get?_size (hinit : g.components = init ++ [c]) : g.get? g.size = some c := by
  rw [size_of_components hinit, get?, hinit]
  exact List.getElem?_concat_length

theorem Sound.id_last (h : g.Sound) (hinit : g.components = init ++ [c]) : c.id = g.size := by
  have hget := get?_size hinit
  rw [size_of_components hinit] at hget ⊢
  exact h.id_eq init.length c hget

theorem idUpTo_pred {id size : Nat} (hle : id ≤ size) (hpos : 0 < size) :
    idUpTo (size - 1) id = if id = size then none else some id := by
  by_cases hid : id = size
  · rw [idUpTo, if_neg (show ¬ id ≤ size - 1 by omega), if_pos hid]
  · rw [idUpTo, if_pos (show id ≤ size - 1 by omega), if_neg hid]

/-- A key of another component than the youngest one keeps its entry. -/
theorem Sound.idUpTo_of_find? (h : g.Sound) (hinit : g.components = init ++ [c]) {key : Key}
    {id : ComponentId} (hkey : g.keyTable.find? key = some id) (hne : c.kind.key? ≠ some key) :
    idUpTo (g.size - 1) id = some id := by
  have hpos : 0 < g.size := by rw [size_of_components hinit]; exact Nat.succ_pos _
  rw [idUpTo_pred (h.le_size_of_find? hkey) hpos, if_neg]
  rintro rfl
  obtain ⟨c', hc', hckey⟩ := h.key?_eq key g.size hkey
  rw [get?_size hinit] at hc'
  obtain rfl := Option.some.inj hc'
  exact hne hckey

theorem Sound.keyTable_dropYoungest (h : g.Sound) (hinit : g.components = init ++ [c]) :
    g.dropYoungest.keyTable = g.keyTable.restrict (idUpTo (g.size - 1)) := by
  have hpos : 0 < g.size := by rw [size_of_components hinit]; exact Nat.succ_pos _
  have hlast : g.components.getLast? = some c := by rw [hinit, List.getLast?_concat]
  rw [dropYoungest, hlast]
  cases hk : c.kind.key? with
  | none =>
    simp only [hk]
    exact (Table.restrict_eq_self fun key id hkey =>
      h.idUpTo_of_find? hinit hkey (by simp [hk])).symm
  | some key =>
    simp only [hk]
    refine Table.alter_eq_restrict ?_ fun key' id hne hkey =>
      h.idUpTo_of_find? hinit hkey fun heq => hne (Option.some.inj (hk ▸ heq)).symm
    cases hkey : g.keyTable.find? key with
    | none => rfl
    | some id =>
      rw [h.id_last hinit, Option.bind_some, idUpTo_pred (h.le_size_of_find? hkey) hpos]
      by_cases hid : id = g.size <;> simp [foundWithout, Option.filter, hid]

theorem Sound.childTable_dropYoungest (h : g.Sound) (hinit : g.components = init ++ [c]) :
    g.dropYoungest.childTable = g.childTable.restrict (idsUpTo (g.size - 1)) := by
  have hlast : g.components.getLast? = some c := by rw [hinit, List.getLast?_concat]
  have htake : g.components.take (g.size - 1) = init := by
    rw [size_of_components hinit, hinit, Nat.add_sub_cancel, List.take_left]
  have hfilter : ∀ parent, (idsUnder parent g.components).filter (· ≤ g.size - 1) =
      idsUnder parent init := by
    intro parent
    rw [h.filter_idsUnder, htake]
  rw [dropYoungest, hlast]
  refine Table.alter_eq_restrict ?_ fun parent ids hne hids => ?_
  · cases hids : g.childTable.find? c.parent with
    | none => rfl
    | some ids =>
      have hfilter := hfilter c.parent
      rw [← h.find?_childTable hids] at hfilter
      have hdrop : ids.dropLast = idsUnder c.parent init := by
        rw [h.find?_childTable hids, hinit, idsUnder_append_singleton, if_pos rfl,
          List.dropLast_concat]
      simp [withoutChild, idsUpTo, hfilter, hdrop]
  · have hsame : idsUnder parent init = ids := by
      rw [h.find?_childTable hids, hinit, idsUnder_append_singleton, if_neg (Ne.symm hne),
        List.append_nil]
    have hfilter := hfilter parent
    rw [← h.find?_childTable hids] at hfilter
    have hnil : ids ≠ [] := fun hnil => h.find?_ne_nil parent (hnil ▸ hids)
    simp [idsUpTo, Option.filter, hfilter, hsame, hnil]

/-- The youngest component takes exactly its own entries with it. -/
theorem Sound.dropYoungest_eq (h : g.Sound) : g.dropYoungest = g.upTo (g.size - 1) := by
  cases hlast : g.components.getLast? with
  | none =>
    have hnil : g.components = [] := List.getLast?_eq_none_iff.mp hlast
    have hsize : g.size - 1 = g.size := by rw [size, hnil]; rfl
    rw [hsize, h.upTo_size, dropYoungest, hlast]
  | some c =>
    obtain ⟨init, hinit⟩ := List.getLast?_eq_some_iff.mp hlast
    have hkey := h.keyTable_dropYoungest hinit
    have hchild := h.childTable_dropYoungest hinit
    rw [dropYoungest, hlast] at hkey hchild ⊢
    simp only at hkey hchild
    rw [Graph.upTo, ← hkey, ← hchild, size, List.dropLast_eq_take]

/-- **Dropping components one by one leaves the first ones**, with their entries. -/
theorem Sound.dropManyYoungest_eq (h : g.Sound) (n : Nat) :
    dropManyYoungest n g = g.upTo (g.size - n) := by
  induction n generalizing g with
  | zero => rw [dropManyYoungest, Nat.sub_zero, h.upTo_size]
  | succ n ih =>
    have hsize : (g.upTo (g.size - 1)).size = g.size - 1 := by
      simp only [size, Graph.upTo, List.length_take]
      omega
    rw [dropManyYoungest, h.dropYoungest_eq, ih (h.upTo _), hsize, upTo_upTo (by omega),
      Nat.sub_sub, Nat.add_comm 1 n]

end Drop

/-! ## Kinds put back -/

theorem getElem?_restore (t : Table ComponentId Kind) (components : List Component) (n : Nat) :
    (restore t.entries components)[n]? =
      components[n]?.map fun c => { c with kind := (t.find? (n + 1)).getD c.kind } := by
  obtain ⟨l, hl⟩ := t
  simp only [Table.find?]
  induction l with
  | nil =>
    change components[n]? = components[n]?.map fun c => c
    simp
  | cons e rest ih =>
    obtain ⟨id, kind⟩ := e
    have ih := ih (List.nodup_cons.mp hl).2
    rw [restore, List.foldr_cons, getElem?_changeKind]
    rw [restore] at ih
    rw [ih, Option.map_map, Table.lookup_cons_eq]
    by_cases hid : n + 1 = id
    · subst hid
      simp [Function.comp_def]
    · simp [hid, Ne.symm hid, Function.comp_def]

/-- The graph with the kinds of its journal put back. -/
def restored (g : Graph) (overwritten : Table ComponentId Kind) : Graph :=
  { g with components := restore overwritten.entries g.components, journal? := none }

theorem size_restored (g : Graph) (overwritten : Table ComponentId Kind) :
    (g.restored overwritten).size = g.size := by
  simp only [size, restored, restore]
  induction overwritten.entries with
  | nil => rfl
  | cons e rest ih => rw [List.foldr_cons, length_changeKind, ih]

/-! ## Growing from a checkpoint -/

/-- The journal of a graph, with the kinds that have been overwritten since. -/
def journalOf (g : Graph) (overwritten : Table ComponentId Kind) : Journal :=
  ⟨g.size, g.patternPossibilities.length, g.rulePossibilities.length, g.issued, overwritten⟩

/-- What a graph keeps of an earlier one while it is being extended. -/
structure Since (g₀ g : Graph) (overwritten : Table ComponentId Kind) : Prop where
  journal?_eq : g.journal? = some (journalOf g₀ overwritten)
  size_le : g₀.size ≤ g.size
  /-- Only older components are in the journal. -/
  le_size : ∀ id kind, overwritten.find? id = some kind → id ≤ g₀.size
  /-- The older components are there, with their kinds in the journal if they have changed. -/
  getElem?_eq : ∀ n < g₀.size, g₀.components[n]? =
    g.components[n]?.map fun c => { c with kind := (overwritten.find? (n + 1)).getD c.kind }
  childTable_eq : g.childTable.restrict (idsUpTo g₀.size) = g₀.childTable
  keyTable_eq : g.keyTable.restrict (idUpTo g₀.size) = g₀.keyTable
  patternPossibilities_le : g₀.patternPossibilities <+: g.patternPossibilities
  rulePossibilities_le : g₀.rulePossibilities <+: g.rulePossibilities

theorem Sound.since_checkpoint {g : Graph} (h : g.Sound) : Since g g.checkpoint .empty where
  journal?_eq := rfl
  size_le := Nat.le_refl _
  le_size _ _ hid := by cases hid
  getElem?_eq n _ := by
    change _ = g.components[n]?.map fun c => c
    simp
  childTable_eq := congrArg Graph.childTable h.upTo_size
  keyTable_eq := congrArg Graph.keyTable h.upTo_size
  patternPossibilities_le := List.prefix_rfl
  rulePossibilities_le := List.prefix_rfl

namespace Since

variable {g₀ g : Graph} {overwritten : Table ComponentId Kind}

/-- **A new component does not reach what was there before**, unless it takes the place of an older
one under a key. -/
theorem add (h : Since g₀ g overwritten) (parent : Option ComponentId) {kind : Kind}
    (hkey : ∀ key, kind.key? = some key → key.isShadowing = true → g₀.keyTable.find? key = none) :
    Since g₀ (g.add parent kind) overwritten where
  journal?_eq := h.journal?_eq
  size_le := by rw [size_add]; exact Nat.le_succ_of_le h.size_le
  le_size := h.le_size
  getElem?_eq n hn := by
    rw [Graph.add, List.getElem?_append_left (Nat.lt_of_lt_of_le hn h.size_le)]
    exact h.getElem?_eq n hn
  childTable_eq := by
    have hnew : ¬ g.nextId ≤ g₀.size := Nat.not_le.mpr (Nat.lt_succ_of_le h.size_le)
    refine (Table.restrict_alter ?_).trans h.childTable_eq
    cases g.childTable.find? parent <;> simp [withChild, idsUpTo, hnew]
  keyTable_eq := by
    have hnew : idUpTo g₀.size g.nextId = none :=
      if_neg (Nat.not_le.mpr (Nat.lt_succ_of_le h.size_le))
    cases hk : kind.key? with
    | none =>
      simp only [Graph.add, hk]
      exact h.keyTable_eq
    | some key =>
      simp only [Graph.add, hk]
      refine (Table.restrict_alter ?_).trans h.keyTable_eq
      by_cases hs : key.isShadowing = true
      · have hold : (g.keyTable.find? key).bind (idUpTo g₀.size) = none := by
          rw [← Table.find?_restrict, h.keyTable_eq]
          exact hkey key hk hs
        rw [hold, foundWith, if_pos hs, Option.bind_some, hnew]
      · rw [foundWith, if_neg hs]
        cases g.keyTable.find? key with
        | none => exact hnew
        | some id => rfl
  patternPossibilities_le := h.patternPossibilities_le
  rulePossibilities_le := h.rulePossibilities_le

/-- **A change of an older component is in the journal.** -/
theorem modify (h : Since g₀ g overwritten) (id : ComponentId) (change : Kind → Kind) :
    ∃ overwritten, Since g₀ (g.modify id change) overwritten := by
  cases hc : g.get? id with
  | none =>
    rw [modify_of_get?_eq_none hc]
    exact ⟨overwritten, h⟩
  | some c =>
    obtain ⟨n, rfl, hn⟩ := exists_of_get? hc
    have hmodify : g.modify (n + 1) change = { g with
        components := changeKind (n + 1) change g.components
        journal? := some ((journalOf g₀ overwritten).record (n + 1) c.kind) } := by
      rw [Graph.modify, hc, h.journal?_eq]
      rfl
    have hsize : g₀.size ≤ (changeKind (n + 1) change g.components).length := by
      rw [length_changeKind]
      exact h.size_le
    rw [hmodify]
    by_cases hid : n + 1 ≤ g₀.size
    · -- the kind that the component had at the checkpoint is in the journal from now on
      refine ⟨overwritten.alter (n + 1) fun old => old.or (some c.kind),
        congrArg some (if_pos hid), hsize, fun other kind hother => ?_, fun m hm => ?_,
        h.childTable_eq, h.keyTable_eq, h.patternPossibilities_le, h.rulePossibilities_le⟩
      · rw [Table.find?_alter] at hother
        split at hother
        · next heq => exact heq ▸ hid
        · exact h.le_size other kind hother
      · rw [h.getElem?_eq m hm, getElem?_changeKind, Option.map_map]
        by_cases hmn : m = n
        · subst hmn
          rw [hn]
          cases hold : overwritten.find? (m + 1) <;> simp [Table.find?_alter, hold]
        · have hne : ¬ n = m := Ne.symm hmn
          simp [Table.find?_alter, hmn, hne, Function.comp_def]
    · refine ⟨overwritten, congrArg some (if_neg hid), hsize, h.le_size, fun m hm => ?_,
        h.childTable_eq, h.keyTable_eq, h.patternPossibilities_le, h.rulePossibilities_le⟩
      have hne : ¬ n = m := fun heq => hid (heq ▸ hm)
      rw [h.getElem?_eq m hm, getElem?_changeKind, Option.map_map]
      simp [hne, Function.comp_def]

theorem addPatternPossibilities (h : Since g₀ g overwritten) (rule pattern : ComponentId)
    (possibilities : List (List ComponentId)) :
    Since g₀ (g.addPatternPossibilities rule pattern possibilities) overwritten :=
  { h with
    patternPossibilities_le := h.patternPossibilities_le.trans (List.prefix_append _ _) }

theorem addRulePossibilities (h : Since g₀ g overwritten) (rule : ComponentId)
    (possibilities : List (List PossibilityId)) :
    Since g₀ (g.addRulePossibilities rule possibilities) overwritten :=
  { h with rulePossibilities_le := h.rulePossibilities_le.trans (List.prefix_append _ _) }

/-! ## Back to the checkpoint -/

theorem take_restored (h : Since g₀ g overwritten) :
    (g.restored overwritten).components.take g₀.size = g₀.components := by
  apply List.ext_getElem?
  intro n
  by_cases hn : n < g₀.size
  · rw [List.getElem?_take_of_lt hn, h.getElem?_eq n hn]
    exact getElem?_restore overwritten g.components n
  · rw [List.getElem?_take_eq_none (Nat.le_of_not_lt hn),
      List.getElem?_eq_none (Nat.le_of_not_lt hn)]

theorem sound_restored (h : Since g₀ g overwritten) (h₀ : g₀.Sound) (hg : g.Sound) :
    (g.restored overwritten).Sound := by
  refine hg.of_kinds (fun n => ⟨fun k => (overwritten.find? (n + 1)).getD k, ?_⟩) rfl
    fun key id hkey => ?_
  · exact getElem?_restore overwritten g.components n
  obtain ⟨c, hc, hckey⟩ := hg.key?_eq key id hkey
  obtain ⟨n, rfl, hcn⟩ := exists_of_get? hc
  have hget := getElem?_restore overwritten g.components n
  by_cases hn : n < g₀.size
  · -- an older component: its key led to it at the checkpoint already
    have hold : g₀.keyTable.find? key = some (n + 1) := by
      rw [← h.keyTable_eq, Table.find?_restrict, show g.keyTable.find? key = some (n + 1) from hkey]
      exact if_pos hn
    obtain ⟨c₀, hc₀, hkey₀⟩ := h₀.key?_eq key (n + 1) hold
    exact ⟨c₀, (hget.trans (h.getElem?_eq n hn).symm).trans hc₀, hkey₀⟩
  · have hnone : overwritten.find? (n + 1) = none := by
      cases hsome : overwritten.find? (n + 1) with
      | none => rfl
      | some kind => exact absurd (h.le_size _ _ hsome) hn
    refine ⟨c, hget.trans ?_, hckey⟩
    rw [hnone, hcn]
    rfl

/-- **Rolling back gives the graph that there was at the checkpoint.** -/
theorem rollback_eq (h : Since g₀ g overwritten) (h₀ : g₀.Sound) (hg : g.Sound)
    (hnone : g₀.journal? = none) : g.rollback = g₀ := by
  have hdrop := (h.sound_restored h₀ hg).dropManyYoungest_eq (g.components.length - g₀.size)
  have hsub : (g.restored overwritten).size - (g.components.length - g₀.size) = g₀.size := by
    rw [size_restored]
    exact Nat.sub_sub_self h.size_le
  have hroll : g.rollback = { (g.restored overwritten).upTo g₀.size with
      patternPossibilities := g.patternPossibilities.take g₀.patternPossibilities.length
      rulePossibilities := g.rulePossibilities.take g₀.rulePossibilities.length
      issued := g₀.issued } := by
    rw [rollback, h.journal?_eq, ← hsub, ← hdrop]
    rfl
  rw [hroll, upTo, h.take_restored]
  rw [show (g.restored overwritten).childTable.restrict (idsUpTo g₀.size) = g₀.childTable from
      h.childTable_eq,
    show (g.restored overwritten).keyTable.restrict (idUpTo g₀.size) = g₀.keyTable from
      h.keyTable_eq,
    ← List.prefix_iff_eq_take.mp h.patternPossibilities_le,
    ← List.prefix_iff_eq_take.mp h.rulePossibilities_le,
    show (g.restored overwritten).journal? = g₀.journal? from hnone.symm]

end Since

end Graph

end RuleBase

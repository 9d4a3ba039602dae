import RuleBase.Analysis.Walk
import RuleBase.Proofs.Graph.Indexed
import RuleBase.Proofs.Graph.Numbered
import RuleBase.Proofs.Graph.References

/-!
# Types of fields

The type of a field comes from the restrictions on it, one after another: each tells a type or none,
and the first type other than null counts. Fields are shared by all rules, so their types are an
invariant of the graph as a whole: a new field has no restrictions yet, and a new restriction is the
youngest one on its field.

* `Operand.told?`, `typesTold`: the types that operands and restrictions tell;
* `Operand.comparedType?_eq`: the analysis goes by what operands tell;
* `Graph.TypesSettled`, **`TypesSettled.restrict`**: all fields have the types that the
  restrictions come to.
-/

namespace RuleBase

/-! ## Types one after another -/

namespace FieldType

theorem foldl_refine_of_not_isRefinable {t : FieldType} (h : t.isRefinable = false)
    (types : List FieldType) : types.foldl refine t = t := by
  induction types with
  | nil => rfl
  | cons u rest ih => rw [List.foldl_cons, refine_of_not_isRefinable u h, ih]

theorem foldl_refine_null {types : List FieldType} (h : .unknown ∉ types) :
    types.foldl refine .null = (types.find? (· ≠ .null)).getD .null := by
  induction types with
  | nil => rfl
  | cons t rest ih =>
    obtain ⟨hne, hrest⟩ : FieldType.unknown ≠ t ∧ .unknown ∉ rest := by simpa using h
    rw [List.foldl_cons, refine_of_isRefinable t rfl]
    by_cases ht : t = .null
    · subst ht
      rw [ih hrest]
      rfl
    · have hsettled : t.isRefinable = false := by simp [isRefinable, ht, hne.symm]
      rw [foldl_refine_of_not_isRefinable hsettled, List.find?_cons_of_pos (by simpa using ht)]
      rfl

/-- **The first type other than null counts**; null is better than nothing. -/
theorem foldl_refine {types : List FieldType} (h : .unknown ∉ types) :
    types.foldl refine .unknown =
      (types.find? (· ≠ .null)).getD (if types = [] then .unknown else .null) := by
  cases types with
  | nil => rfl
  | cons t rest =>
    rw [if_neg (List.cons_ne_nil t rest), ← foldl_refine_null h]
    rfl

end FieldType

namespace Graph

section OfKind

variable {α : Type} {project? : Kind → Option α}

theorem ofKind_add (g : Graph) (parent : Option ComponentId) (kind : Kind)
    (project? : Kind → Option α) :
    (g.add parent kind).ofKind project? =
      g.ofKind project? ++ ((project? kind).map (g.nextId, ·)).toList := by
  have hnew : [g.newComponent parent kind].filterMap
      (fun c => (project? c.kind).map (c.id, ·)) = ((project? kind).map (g.nextId, ·)).toList := by
    cases hkind : project? kind <;> simp [newComponent, hkind]
  rw [ofKind, Graph.add, List.filterMap_append, hnew]
  rfl

theorem ofKind_modify (g : Graph) (id : ComponentId) {change : Kind → Kind}
    (h : ∀ k, project? (change k) = project? k) :
    (g.modify id change).ofKind project? = g.ofKind project? := by
  have hmap := map_changeKind (fun c => (project? c.kind).map (c.id, ·)) id
    (fun c => by rw [h]) g.components
  have hof : ∀ g : Graph, g.ofKind project? =
      (g.components.map fun c => (project? c.kind).map (c.id, ·)).filterMap fun o => o := by
    intro g
    rw [List.filterMap_map]
    rfl
  rw [hof, hof, components_modify, hmap]

theorem ofKind?_modify_self (g : Graph) (id : ComponentId) (change : Kind → Kind)
    (project? : Kind → Option α) :
    (g.modify id change).ofKind? project? id = g.ofKind? (fun k => project? (change k)) id := by
  rw [ofKind?, get?_modify, ofKind?]
  cases g.get? id <;> simp

theorem ofKind?_modify_of_ne (g : Graph) {other id : ComponentId} (h : other ≠ id)
    (change : Kind → Kind) (project? : Kind → Option α) :
    (g.modify other change).ofKind? project? id = g.ofKind? project? id := by
  rw [ofKind?, get?_modify, ofKind?]
  cases g.get? id <;> simp [h]

theorem ofKind?_modify (g : Graph) (other id : ComponentId) {change : Kind → Kind}
    (h : ∀ k, project? (change k) = project? k) :
    (g.modify other change).ofKind? project? id = g.ofKind? project? id := by
  by_cases hid : other = id
  · rw [hid, ofKind?_modify_self, funext h]
  · exact ofKind?_modify_of_ne g hid change project?

theorem ofKind?_add_cases {g : Graph} {parent : Option ComponentId} {kind : Kind}
    {id : ComponentId} {x : α} (h : (g.add parent kind).ofKind? project? id = some x) :
    g.ofKind? project? id = some x ∨ id = g.nextId ∧ project? kind = some x := by
  obtain ⟨c, hc, hkind⟩ := Option.bind_eq_some_iff.mp h
  obtain hold | ⟨rfl, rfl⟩ := get?_add_eq_some hc
  · exact .inl (Option.bind_eq_some_iff.mpr ⟨c, hold, hkind⟩)
  · exact .inr ⟨rfl, hkind⟩

theorem ofKind?_add_of_some {g : Graph} (parent : Option ComponentId) (kind : Kind)
    {id : ComponentId} {x : α} (h : g.ofKind? project? id = some x) :
    (g.add parent kind).ofKind? project? id = some x := by
  obtain ⟨c, hc, hkind⟩ := Option.bind_eq_some_iff.mp h
  rw [ofKind?, get?_add_of_le g parent kind (le_size_of_get? hc)]
  exact h

theorem ofKind?_add_nextId (g : Graph) (parent : Option ComponentId) (kind : Kind)
    (project? : Kind → Option α) :
    (g.add parent kind).ofKind? project? g.nextId = project? kind := by
  rw [ofKind?, get?_add_nextId]
  rfl

end OfKind

/-! ## What restrictions tell -/

/-- The type that an operand tells of the field that is compared with it. A literal tells the type
of its value, a variable and a path from one tell that there is a variable, and what is computed
tells nothing. -/
def Operand.told? : Operand → Option FieldType
  | .literal _ .null => some .null
  | .literal _ (.int _) => some .int
  | .literal _ (.decimal _) => some .decimal
  | .literal _ (.date _) => some .date
  | .literal _ (.bool _) => some .bool
  | .literal _ (.text _) => some .string
  | .var _ _ => some .var
  | .qualified _ _ _ => some .var
  | .returnValue _ _ _ => none

theorem Operand.comparedType?_eq (operand : Operand) : operand.comparedType? = operand.told? := by
  cases operand with
  | literal text value => cases value <;> rfl
  | _ => rfl

theorem Operand.told?_ne_unknown {operand : Operand} {type : FieldType}
    (h : operand.told? = some type) : type ≠ .unknown := by
  rintro rfl
  cases operand with
  | literal text value => cases value <;> cases h
  | _ => cases h

theorem Operand.comparedType?_ne_unknown {operand : Operand} {type : FieldType}
    (h : operand.comparedType? = some type) : type ≠ .unknown :=
  told?_ne_unknown (operand.comparedType?_eq ▸ h)

/-- The types that restrictions tell of a field. -/
def typesTold (field : ComponentId) (restrictions : List (ComponentId × Restriction)) :
    List FieldType :=
  (restrictions.filter (·.2.field = field)).filterMap (·.2.operand.told?)

theorem typesTold_append (field : ComponentId) (l l' : List (ComponentId × Restriction)) :
    typesTold field (l ++ l') = typesTold field l ++ typesTold field l' := by
  rw [typesTold, List.filter_append, List.filterMap_append]
  rfl

theorem typesTold_singleton (field id : ComponentId) (r : Restriction) :
    typesTold field [(id, r)] =
      if r.field = field then r.operand.told?.toList else [] := by
  by_cases h : r.field = field
  · cases htype : r.operand.told? <;> simp [typesTold, h, htype]
  · simp [typesTold, h]

/-- The types that the restrictions of a graph tell of a field. -/
def typesOf (g : Graph) (field : ComponentId) : List FieldType :=
  typesTold field (g.ofKind Kind.restriction?)

theorem unknown_notMem_typesOf (g : Graph) (field : ComponentId) : .unknown ∉ g.typesOf field := by
  intro hmem
  obtain ⟨entry, -, htype⟩ := List.mem_filterMap.mp hmem
  exact Operand.told?_ne_unknown htype rfl

/-- The restrictions that are younger than a component. -/
def restrictionsAfter (g : Graph) (id : ComponentId) : List (ComponentId × Restriction) :=
  (g.ofKind Kind.restriction?).filter (id < ·.1)

/-- If restrictions are younger than their fields, all of them count. -/
theorem typesTold_restrictionsAfter {g : Graph}
    (h : ∀ entry ∈ g.ofKind Kind.restriction?, entry.2.field < entry.1) (field : ComponentId) :
    typesTold field (g.restrictionsAfter field) = g.typesOf field := by
  rw [typesTold, restrictionsAfter, List.filter_filter]
  refine congrArg (List.filterMap _) (List.filter_congr fun entry hentry => ?_)
  by_cases hfield : entry.2.field = field
  · have hlt : field < entry.1 := hfield ▸ h entry hentry
    simp [hfield, hlt]
  · simp [hfield]

/-- All fields have the types that the restrictions come to which are younger than them. -/
structure TypesSettled (g : Graph) : Prop where
  sound : g.Sound
  fieldType_eq : ∀ id f, g.ofKind? Kind.field? id = some f →
    f.fieldType = (typesTold id (g.restrictionsAfter id)).foldl .refine .unknown

/-- The graph with the type of a field settled as far as a comparison tells one. -/
def settle (g : Graph) (field : ComponentId) : Option FieldType → Graph
  | some t => g.modify field (Analysis.onField (Field.refine t))
  | none => g

section TypesSettled

variable {g : Graph}

theorem typesSettled_empty : TypesSettled {} where
  sound := sound_empty
  fieldType_eq := by
    intro id f hf
    cases id <;> cases hf

theorem le_size_of_ofKind? {α : Type} {project? : Kind → Option α} {id : ComponentId} {x : α}
    (h : g.ofKind? project? id = some x) : id ≤ g.size := by
  obtain ⟨c, hc, -⟩ := Option.bind_eq_some_iff.mp h
  exact le_size_of_get? hc

theorem restrictionsAfter_nextId (h : g.Sound) : g.restrictionsAfter g.nextId = [] := by
  rw [restrictionsAfter, List.filter_eq_nil_iff]
  rintro ⟨id, r⟩ hr
  have hlt : id < g.nextId := Nat.lt_succ_of_le (le_size_of_ofKind? (h.mem_ofKind_iff.mp hr))
  exact fun hyoung => absurd (of_decide_eq_true hyoung) (Nat.lt_asymm hlt)

theorem restrictionsAfter_add (g : Graph) (parent : Option ComponentId) {kind : Kind}
    (hkind : kind.restriction? = none) (id : ComponentId) :
    (g.add parent kind).restrictionsAfter id = g.restrictionsAfter id := by
  rw [restrictionsAfter, ofKind_add, hkind, Option.map_none, Option.toList_none, List.append_nil]
  rfl

theorem restrictionsAfter_modify (g : Graph) (other : ComponentId) {change : Kind → Kind}
    (hchange : ∀ k, (change k).restriction? = k.restriction?) (id : ComponentId) :
    (g.modify other change).restrictionsAfter id = g.restrictionsAfter id := by
  rw [restrictionsAfter, ofKind_modify g other hchange]
  rfl

/-- A new restriction is the last one to tell a type. -/
theorem typesTold_add_restriction (g : Graph) (parent : Option ComponentId) (r : Restriction)
    {id : ComponentId} (hid : id ≤ g.size) :
    typesTold id ((g.add parent (.restriction r)).restrictionsAfter id) =
      typesTold id (g.restrictionsAfter id) ++
        if r.field = id then r.operand.told?.toList else [] := by
  have hnew : (g.add parent (.restriction r)).restrictionsAfter id =
      g.restrictionsAfter id ++ [(g.nextId, r)] := by
    have hlt : id < g.nextId := Nat.lt_succ_of_le hid
    rw [restrictionsAfter, ofKind_add, List.filter_append]
    simp [Kind.restriction?, hlt, restrictionsAfter]
  rw [hnew, typesTold_append, typesTold_singleton]

namespace TypesSettled

theorem of_eq (h : g.TypesSettled) {g' : Graph} (hcomponents : g'.components = g.components)
    (hsound : g'.Sound) : g'.TypesSettled := by
  have hget : g'.get? = g.get? := by
    funext id
    cases id with
    | zero => rfl
    | succ n => rw [Graph.get?, Graph.get?, hcomponents]
  refine ⟨hsound, fun id f hf => ?_⟩
  rw [restrictionsAfter, ofKind, hcomponents]
  exact h.fieldType_eq id f (by rwa [ofKind?, ← hget])

theorem add (h : g.TypesSettled) (parent : Option ComponentId) {kind : Kind}
    (hrestriction : kind.restriction? = none)
    (hfield : ∀ f, kind.field? = some f → f.fieldType = .unknown) :
    (g.add parent kind).TypesSettled := by
  refine ⟨h.sound.add parent kind, fun id f hf => ?_⟩
  rw [restrictionsAfter_add g parent hrestriction]
  obtain hold | ⟨rfl, hnew⟩ := ofKind?_add_cases hf
  · exact h.fieldType_eq id f hold
  · rw [restrictionsAfter_nextId h.sound]
    exact hfield f hnew

theorem modify (h : g.TypesSettled) (other : ComponentId) {change : Kind → Kind}
    (hkey : ∀ k, (change k).key? = k.key?)
    (hrestriction : ∀ k, (change k).restriction? = k.restriction?)
    (hfield : ∀ k, (change k).field?.map (·.fieldType) = k.field?.map (·.fieldType)) :
    (g.modify other change).TypesSettled := by
  refine ⟨h.sound.modify other hkey, fun id f hf => ?_⟩
  rw [restrictionsAfter_modify g other hrestriction]
  obtain ⟨f', hf', hsame⟩ : ∃ f', g.ofKind? Kind.field? id = some f' ∧
      f'.fieldType = f.fieldType := by
    by_cases hid : other = id
    · subst hid
      rw [ofKind?_modify_self] at hf
      obtain ⟨c, hc, hkind⟩ := Option.bind_eq_some_iff.mp hf
      have htype : c.kind.field?.map (·.fieldType) = some f.fieldType := by
        rw [← hfield]
        exact congrArg (Option.map (·.fieldType)) hkind
      obtain ⟨f', hf', hsame⟩ := Option.map_eq_some_iff.mp htype
      exact ⟨f', Option.bind_eq_some_iff.mpr ⟨c, hc, hf'⟩, hsame⟩
    · rw [ofKind?_modify_of_ne g hid] at hf
      exact ⟨f, hf, rfl⟩
  rw [← hsame]
  exact h.fieldType_eq id f' hf'

/-- **A restriction tells the type of its field**, unless it is settled already. -/
theorem restrict (h : g.TypesSettled) (parent : Option ComponentId) (r : Restriction) :
    ((g.add parent (.restriction r)).settle r.field r.operand.comparedType?).TypesSettled := by
  have hadd : (g.add parent (.restriction r)).Sound := h.sound.add parent _
  -- fields are as old as before, and the new restriction comes last
  have hbefore : ∀ id f, (g.add parent (.restriction r)).ofKind? Kind.field? id = some f →
      (typesTold id ((g.add parent (.restriction r)).restrictionsAfter id)).foldl
          .refine .unknown =
        (if r.field = id then r.operand.told?.toList else []).foldl .refine f.fieldType := by
    intro id f hf
    obtain hold | ⟨-, hnew⟩ := ofKind?_add_cases hf
    · rw [typesTold_add_restriction g parent r (le_size_of_ofKind? hold), List.foldl_append,
        h.fieldType_eq id f hold]
    · cases hnew
  rw [Operand.comparedType?_eq]
  cases htype : r.operand.told? with
  | none =>
    refine ⟨hadd, fun id f hf => ?_⟩
    rw [settle, hbefore id f hf, htype, Option.toList_none, ite_self, List.foldl_nil]
  | some t =>
    refine ⟨hadd.modify r.field fun k => by cases k <;> rfl, fun id f hf => ?_⟩
    rw [settle] at hf ⊢
    rw [restrictionsAfter_modify _ _ fun k => by cases k <;> rfl]
    by_cases hid : r.field = id
    · subst hid
      rw [ofKind?_modify_self] at hf
      obtain ⟨c, hc, hkind⟩ := Option.bind_eq_some_iff.mp hf
      obtain ⟨f', hf', rfl⟩ : ∃ f', c.kind.field? = some f' ∧ f'.refine t = f := by
        cases hk : c.kind <;> rw [hk] at hkind <;> cases hkind
        exact ⟨_, rfl, rfl⟩
      rw [hbefore r.field f' (Option.bind_eq_some_iff.mpr ⟨c, hc, hf'⟩), if_pos rfl, htype]
      rfl
    · rw [ofKind?_modify_of_ne _ hid] at hf
      rw [hbefore id f hf, if_neg hid, List.foldl_nil]

end TypesSettled

end TypesSettled

end Graph

end RuleBase

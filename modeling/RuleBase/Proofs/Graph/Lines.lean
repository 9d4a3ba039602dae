import RuleBase.Analysis.Walk
import RuleBase.Proofs.Ast.Mentions
import RuleBase.Proofs.Graph.Continued
import RuleBase.Proofs.Graph.Typing

/-!
# Lines of fields

The line of a field comes from the mentions of the field, one after another: the first one that
knows its line counts. That needs each mention to find the field of the ones before, so names lead
to classes, and to their fields, all the time.

* `Lined.addClass`, `Lined.addField`, **`Lined.mention`**: what mentions bring about.
-/

namespace RuleBase.Graph

open Analysis

/-- The fields of a graph have been mentioned in the given order, and their lines are the first ones
that are known. The given classes are found by their names. -/
structure Lined (classes : List (String × ComponentId)) (ms : List Ast.Mention) (g : Graph) :
    Prop where
  sound : g.Sound
  classes_found : ∀ c ∈ classes, g.findClass? c.1 = some c.2
  /-- A field is the one that is found by its name and that of its class. -/
  field_found : ∀ id f, g.ofKind? Kind.field? id = some f →
    g.findClass? f.className = some f.factClass ∧ g.findField? f.factClass f.name = some id
  mentioned : ∀ m ∈ ms, (g.findFieldByNames? m.className m.fieldName).isSome
  line_eq : ∀ id f, g.ofKind? Kind.field? id = some f →
    f.line = Ast.firstLine f.className f.name ms

namespace Lined

variable {g g' : Graph} {classes : List (String × ComponentId)} {ms : List Ast.Mention}

theorem empty : Lined [] [] {} where
  sound := sound_empty
  classes_found := nofun
  field_found := by
    intro id f hf
    cases id <;> cases hf
  mentioned := nofun
  line_eq := by
    intro id f hf
    cases id <;> cases hf

theorem of_eq (h : Lined classes ms g) (hcomponents : g'.components = g.components)
    (hchild : g'.childTable = g.childTable) (hkey : g'.keyTable = g.keyTable) :
    Lined classes ms g' := by
  obtain ⟨components, _, _, _, childTable, keyTable, _⟩ := g'
  subst hcomponents hchild hkey
  exact ⟨h.sound.of_eq rfl rfl rfl, h.classes_found, h.field_found, h.mentioned, h.line_eq⟩

theorem of_subset {fewer : List (String × ComponentId)} (h : Lined classes ms g)
    (hsubset : fewer ⊆ classes) : Lined fewer ms g :=
  { h with classes_found := fun c hc => h.classes_found c (hsubset hc) }

/-! ### Updates that are no mentions -/

theorem findFieldByNames?_of_find? {className fieldName : String} {id : ComponentId}
    (hkeys : ∀ key id, key.isShadowing = false → g.keyTable.find? key = some id →
      g'.keyTable.find? key = some id)
    (h : g.findFieldByNames? className fieldName = some id) :
    g'.findFieldByNames? className fieldName = some id := by
  obtain ⟨factClass, hclass, hfield⟩ := Option.bind_eq_some_iff.mp h
  exact Option.bind_eq_some_iff.mpr
    ⟨factClass, hkeys _ _ rfl hclass, hkeys _ _ rfl hfield⟩

theorem findFieldByNames?_modify (g : Graph) (id : ComponentId) (change : Kind → Kind)
    (className fieldName : String) :
    (g.modify id change).findFieldByNames? className fieldName =
      g.findFieldByNames? className fieldName := by
  simp only [findFieldByNames?, findClass?, findField?, keyTable_modify]

theorem find?_add (g : Graph) (parent : Option ComponentId) (kind : Kind) (key : Key)
    (id : ComponentId) (hshadowing : key.isShadowing = false)
    (h : g.keyTable.find? key = some id) : (g.add parent kind).keyTable.find? key = some id :=
  find?_add_of_some h fun _ => hshadowing

theorem add (h : Lined classes ms g) (parent : Option ComponentId) {kind : Kind}
    (hfield : kind.field? = none) : Lined classes ms (g.add parent kind) := by
  have hkeys := find?_add g parent kind
  have hold : ∀ id f, (g.add parent kind).ofKind? Kind.field? id = some f →
      g.ofKind? Kind.field? id = some f := by
    intro id f hf
    obtain hold | ⟨-, hnew⟩ := ofKind?_add_cases hf
    · exact hold
    · rw [hfield] at hnew
      cases hnew
  refine ⟨h.sound.add parent kind, fun c hc => hkeys _ _ rfl (h.classes_found c hc),
    fun id f hf => ?_, fun m hm => ?_, fun id f hf => h.line_eq id f (hold id f hf)⟩
  · obtain ⟨hclass, hname⟩ := h.field_found id f (hold id f hf)
    exact ⟨hkeys _ _ rfl hclass, hkeys _ _ rfl hname⟩
  · obtain ⟨id, hid⟩ := Option.isSome_iff_exists.mp (h.mentioned m hm)
    exact Option.isSome_of_eq_some (findFieldByNames?_of_find? hkeys hid)

theorem modify (h : Lined classes ms g) (other : ComponentId) {change : Kind → Kind}
    (hkey : ∀ k, (change k).key? = k.key?)
    (hfield : ∀ k, (change k).field?.map (fun f => (f.factClass, f.className, f.name, f.line)) =
      k.field?.map fun f => (f.factClass, f.className, f.name, f.line)) :
    Lined classes ms (g.modify other change) := by
  have hsame := keyTable_modify g other change
  have hold : ∀ id f, (g.modify other change).ofKind? Kind.field? id = some f →
      ∃ f', g.ofKind? Kind.field? id = some f' ∧ f'.factClass = f.factClass ∧
        f'.className = f.className ∧ f'.name = f.name ∧ f'.line = f.line := by
    intro id f hf
    have htold : (g.modify other change).ofKind?
        (fun k => k.field?.map fun f => (f.factClass, f.className, f.name, f.line)) id =
          some (f.factClass, f.className, f.name, f.line) := by
      rw [Graph.ofKind?_map, hf]
      rfl
    rw [ofKind?_modify g other id hfield, Graph.ofKind?_map] at htold
    obtain ⟨f', hf', htold⟩ := Option.map_eq_some_iff.mp htold
    simp only [Prod.mk.injEq] at htold
    exact ⟨f', hf', htold⟩
  refine ⟨h.sound.modify other hkey, fun c hc => ?_, fun id f hf => ?_, fun m hm => ?_,
    fun id f hf => ?_⟩
  · rw [findClass?, hsame]
    exact h.classes_found c hc
  · obtain ⟨f', hf', hclass, hclassName, hname, -⟩ := hold id f hf
    rw [findClass?, findField?, hsame, ← hclass, ← hclassName, ← hname]
    exact h.field_found id f' hf'
  · rw [findFieldByNames?_modify]
    exact h.mentioned m hm
  · obtain ⟨f', hf', -, hclassName, hname, hline⟩ := hold id f hf
    rw [← hline, ← hclassName, ← hname]
    exact h.line_eq id f' hf'

/-! ### Mentions -/

theorem addClass (h : Lined classes ms g) {name : String} (hnone : g.findClass? name = none) :
    Lined ((name, g.nextId) :: classes) ms (g.add none (.factClass name)) := by
  have hadd : Lined classes ms (g.add none (.factClass name)) := h.add none rfl
  refine { hadd with classes_found := List.forall_mem_cons.mpr ⟨?_, hadd.classes_found⟩ }
  exact find?_add_of_none rfl hnone

variable {className name : String} {factClass : ComponentId}

theorem firstLine_eq_zero (h : Lined classes ms g) (hclass : (className, factClass) ∈ classes)
    (hnone : g.findField? factClass name = none) : Ast.firstLine className name ms = 0 := by
  refine Ast.firstLine_of_forall_not fun m hm => ?_
  rintro ⟨rfl, rfl⟩
  have hmentioned := h.mentioned m hm
  rw [findFieldByNames?, h.classes_found _ hclass, Option.bind_some, hnone] at hmentioned
  cases hmentioned

theorem addField (h : Lined classes ms g) (hclass : (className, factClass) ∈ classes)
    (hnone : g.findField? factClass name = none) (line : Nat) (type : FieldType) :
    Lined classes (ms ++ [⟨className, name, line⟩])
      (g.add (some factClass) (.field ⟨factClass, className, name, line, type⟩)) := by
  have hfound := h.classes_found _ hclass
  have hkeys := find?_add g (some factClass) (.field ⟨factClass, className, name, line, type⟩)
  have hnew : (g.add (some factClass) (.field ⟨factClass, className, name, line, type⟩)).findField?
      factClass name = some g.nextId := find?_add_of_none rfl hnone
  refine ⟨h.sound.add _ _, fun c hc => hkeys _ _ rfl (h.classes_found c hc), fun id f hf => ?_,
    fun m hm => ?_, fun id f hf => ?_⟩
  · obtain hold | ⟨rfl, hfield⟩ := ofKind?_add_cases hf
    · obtain ⟨hclass', hname⟩ := h.field_found id f hold
      exact ⟨hkeys _ _ rfl hclass', hkeys _ _ rfl hname⟩
    · cases hfield
      exact ⟨hkeys _ _ rfl hfound, hnew⟩
  · obtain hold | rfl := List.mem_append.mp hm |>.imp_right List.mem_singleton.mp
    · obtain ⟨id, hid⟩ := Option.isSome_iff_exists.mp (h.mentioned m hold)
      exact Option.isSome_of_eq_some (findFieldByNames?_of_find? hkeys hid)
    · exact Option.isSome_of_eq_some
        (Option.bind_eq_some_iff.mpr ⟨factClass, hkeys _ _ rfl hfound, hnew⟩)
  · rw [Ast.firstLine_append, Ast.firstLine_singleton]
    obtain hold | ⟨-, hfield⟩ := ofKind?_add_cases hf
    · have hother : ¬ Ast.Mention.IsOf ⟨className, name, line⟩ f.className f.name := by
        rintro ⟨rfl, rfl⟩
        obtain ⟨hclass', hname⟩ := h.field_found id f hold
        obtain rfl := Option.some.inj (hfound.symm.trans hclass')
        rw [hnone] at hname
        cases hname
      rw [if_neg hother, h.line_eq id f hold]
      split <;> simp_all
    · cases hfield
      rw [h.firstLine_eq_zero hclass hnone, if_pos rfl, if_pos ⟨rfl, rfl⟩]

theorem mentioned_append (h : Lined classes ms g) (hclass : (className, factClass) ∈ classes)
    {field : ComponentId} (hfind : g.findField? factClass name = some field) (line : Nat) :
    ∀ m ∈ ms ++ [⟨className, name, line⟩],
      (g.findFieldByNames? m.className m.fieldName).isSome := by
  refine List.forall_mem_append.mpr ⟨h.mentioned, List.forall_mem_singleton.mpr ?_⟩
  exact Option.isSome_of_eq_some
    (Option.bind_eq_some_iff.mpr ⟨factClass, h.classes_found _ hclass, hfind⟩)

theorem isOf_iff (h : Lined classes ms g) (hclass : (className, factClass) ∈ classes)
    {field id : ComponentId} (hfind : g.findField? factClass name = some field) {f : Field}
    (hf : g.ofKind? Kind.field? id = some f) (line : Nat) :
    Ast.Mention.IsOf ⟨className, name, line⟩ f.className f.name ↔ field = id := by
  have hfound := h.classes_found _ hclass
  obtain ⟨hclass', hname⟩ := h.field_found id f hf
  constructor
  · rintro ⟨rfl, rfl⟩
    obtain rfl := Option.some.inj (hfound.symm.trans hclass')
    exact Option.some.inj (hfind.symm.trans hname)
  · rintro rfl
    obtain ⟨f', hf', rfl, rfl⟩ := h.sound.field?_of_findField? hfind
    obtain rfl := Option.some.inj (hf.symm.trans hf')
    have hsame := (h.sound.className?_of_findClass? hfound).symm.trans
      (h.sound.className?_of_findClass? hclass')
    exact ⟨Option.some.inj hsame, rfl⟩

/-- **A field that is mentioned once more** keeps its line if it is known, else it has the line of
the mention. -/
theorem mention (h : Lined classes ms g) (hclass : (className, factClass) ∈ classes)
    {field : ComponentId} (hfind : g.findField? factClass name = some field) (line : Nat) :
    Lined classes (ms ++ [⟨className, name, line⟩])
      (g.modify field (onField (Field.mention line))) := by
  have hsame := keyTable_modify g field (onField (Field.mention line))
  have hold : ∀ id f, (g.modify field (onField (Field.mention line))).ofKind? Kind.field? id =
      some f → ∃ f', g.ofKind? Kind.field? id = some f' ∧
        f = if field = id then f'.mention line else f' := by
    intro id f hf
    by_cases hid : field = id
    · subst hid
      rw [ofKind?_modify_self] at hf
      obtain ⟨c, hc, hkind⟩ := Option.bind_eq_some_iff.mp hf
      obtain ⟨f', hf', rfl⟩ : ∃ f', c.kind.field? = some f' ∧ f'.mention line = f := by
        cases hk : c.kind <;> rw [hk] at hkind <;> cases hkind
        exact ⟨_, rfl, rfl⟩
      exact ⟨f', Option.bind_eq_some_iff.mpr ⟨c, hc, hf'⟩, (if_pos rfl).symm⟩
    · rw [ofKind?_modify_of_ne g hid] at hf
      exact ⟨f, hf, (if_neg hid).symm⟩
  refine ⟨h.sound.modify field fun k => by cases k <;> rfl, fun c hc => ?_, fun id f hf => ?_,
    fun m hm => ?_, fun id f hf => ?_⟩
  · rw [findClass?, hsame]
    exact h.classes_found c hc
  · obtain ⟨f', hf', rfl⟩ := hold id f hf
    rw [findClass?, findField?, hsame]
    have hfound := h.field_found id f' hf'
    split <;> exact hfound
  · rw [findFieldByNames?_modify]
    exact h.mentioned_append hclass hfind line m hm
  · obtain ⟨f', hf', rfl⟩ := hold id f hf
    have hline := h.line_eq id f' hf'
    have hof := h.isOf_iff hclass hfind hf' line
    rw [Ast.firstLine_append, Ast.firstLine_singleton]
    by_cases hid : field = id
    · simp only [if_pos hid, Field.mention, if_pos (hof.mpr hid), hline]
    · simp only [if_neg hid, if_neg (mt hof.mp hid), hline]
      split <;> simp_all

theorem mention_zero (h : Lined classes ms g) (hclass : (className, factClass) ∈ classes)
    {field : ComponentId} (hfind : g.findField? factClass name = some field) :
    Lined classes (ms ++ [⟨className, name, 0⟩]) g := by
  refine { h with
    mentioned := h.mentioned_append hclass hfind 0
    line_eq := fun id f hf => ?_ }
  rw [Ast.firstLine_append, Ast.firstLine_singleton, ite_self, h.line_eq id f hf]
  split <;> simp_all

end Lined

end RuleBase.Graph

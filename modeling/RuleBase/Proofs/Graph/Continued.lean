import RuleBase.Proofs.Graph.References
import RuleBase.Proofs.Graph.Sound

/-!
# Graphs that go on

A graph that goes on from another one has what the other one has, at the same places: new
components, children and possibilities come behind the old ones, and a key that has been found still
leads where it led. Only the kinds of old components may become others.

* `Continues`, **`Continues.add`**, `Continues.modify`, …: graphs that go on.
-/

namespace RuleBase.Graph

/-! ## Kinds -/

/-- What may become of a field: a line that is not known yet may be told, and a type may be settled
that is not yet. -/
structure Field.MayBecome (f f' : Field) : Prop where
  factClass_eq : f'.factClass = f.factClass
  className_eq : f'.className = f.className
  name_eq : f'.name = f.name
  line : f'.line = f.line ∨ f.line = 0 ∧ f'.line ≠ 0
  fieldType : f'.fieldType = f.fieldType ∨
    (f.fieldType = .unknown ∨ f.fieldType = .null) ∧ f'.fieldType ≠ .unknown

/-- What may become of a component: another one if it is a field, else nothing. -/
inductive Kind.MayBecome : Kind → Kind → Prop where
  | same (k : Kind) : MayBecome k k
  | field {f f' : Field} (h : f.MayBecome f') : MayBecome (.field f) (.field f')

theorem isRefinable_iff {t : FieldType} :
    t.isRefinable = true ↔ t = .unknown ∨ t = .null := by
  simp [FieldType.isRefinable]

namespace Field

variable {f f' : Field}

theorem MayBecome.mention (h : f.MayBecome f') {line : Nat} (hline : line ≠ 0) :
    f.MayBecome (f'.mention line) := by
  by_cases hold : f'.line = 0
  · have hnew : f'.mention line = { f' with line } := by simp [Field.mention, hold]
    rw [hnew]
    refine { h with line := ?_ }
    obtain hsame | ⟨-, hne⟩ := h.line
    · exact .inr ⟨hsame ▸ hold, hline⟩
    · exact absurd hold hne
  · have hnew : f'.mention line = f' := by simp [Field.mention, hold]
    rwa [hnew]

theorem MayBecome.refine (h : f.MayBecome f') {type : FieldType} (htype : type ≠ .unknown) :
    f.MayBecome (f'.refine type) := by
  cases hopen : f'.fieldType.isRefinable with
  | false =>
    have hnew : f'.refine type = f' := by
      rw [Field.refine, FieldType.refine_of_not_isRefinable type hopen]
    rwa [hnew]
  | true =>
    have hnew : f'.refine type = { f' with fieldType := type } := by
      rw [Field.refine, FieldType.refine_of_isRefinable type hopen]
    rw [hnew]
    refine { h with fieldType := .inr ⟨?_, htype⟩ }
    obtain hsame | ⟨hbefore, -⟩ := h.fieldType
    · exact hsame ▸ isRefinable_iff.mp hopen
    · exact hbefore

theorem MayBecome.trans {f'' : Field} (h : f.MayBecome f') (h' : f'.MayBecome f'') :
    f.MayBecome f'' where
  factClass_eq := h'.factClass_eq.trans h.factClass_eq
  className_eq := h'.className_eq.trans h.className_eq
  name_eq := h'.name_eq.trans h.name_eq
  line := by
    obtain hsame | hnew := h.line
    · exact hsame ▸ h'.line
    · obtain hsame | ⟨hopen, -⟩ := h'.line
      · exact .inr (hsame ▸ hnew)
      · exact absurd hopen hnew.2
  fieldType := by
    obtain hsame | ⟨hopen, hne⟩ := h.fieldType
    · exact hsame ▸ h'.fieldType
    · obtain hsame | ⟨-, hne'⟩ := h'.fieldType
      · exact .inr ⟨hopen, hsame ▸ hne⟩
      · exact .inr ⟨hopen, hne'⟩

end Field

namespace Kind

variable {k k' : Kind}

theorem MayBecome.trans {k'' : Kind} (h : k.MayBecome k') (h' : k'.MayBecome k'') :
    k.MayBecome k'' := by
  cases h with
  | same => exact h'
  | field h =>
    cases h' with
    | same => exact .field h
    | field h' => exact .field (h.trans h')

theorem MayBecome.essence_eq (h : k.MayBecome k') : k'.essence = k.essence := by
  cases h with
  | same => rfl
  | @field f f' h =>
    obtain ⟨hclass, hname, hfield, -, -⟩ := h
    simp [Kind.essence, hclass, hname, hfield]

theorem MayBecome.key?_eq (h : k.MayBecome k') : k'.key? = k.key? := by
  rw [← Kind.key?_essence, h.essence_eq, Kind.key?_essence]

end Kind

/-! ## Graphs -/

theorem exists_modify_eq (g : Graph) (id : ComponentId) (change : Kind → Kind) :
    ∃ journal?, g.modify id change =
      { g with components := changeKind id change g.components, journal? } := by
  cases hc : g.get? id with
  | some c => exact ⟨_, by rw [modify, hc]⟩
  | none =>
    have hsame := components_modify g id change
    rw [modify_of_get?_eq_none hc] at hsame ⊢
    exact ⟨g.journal?, by rw [← hsame]⟩

/-- A graph goes on from another one, where kinds may become others. -/
structure Continues (becomes : Kind → Kind → Prop) (g g' : Graph) : Prop where
  /-- A component keeps its number, its parent and its order number. -/
  get? : ∀ id c, g.get? id = some c →
    ∃ kind, g'.get? id = some { c with kind } ∧ becomes c.kind kind
  /-- New children come behind the old ones. -/
  childIds : ∀ parent, g.childIds parent <+: g'.childIds parent
  patternPossibilities : g.patternPossibilities <+: g'.patternPossibilities
  rulePossibilities : g.rulePossibilities <+: g'.rulePossibilities
  /-- What is found by a key still is. -/
  find? : ∀ key id, g.keyTable.find? key = some id → g'.keyTable.find? key = some id

/-- What is found by a key still is, unless a new component hides it. -/
theorem find?_add_of_some {g : Graph} {parent : Option ComponentId} {kind : Kind} {key : Key}
    {id : ComponentId} (hfind : g.keyTable.find? key = some id)
    (h : kind.key? = some key → key.isShadowing = false) :
    (g.add parent kind).keyTable.find? key = some id := by
  cases hkey : kind.key? with
  | none => simpa [add, hkey] using hfind
  | some new =>
    simp only [add, hkey, Table.find?_alter]
    by_cases hsame : key = new
    · subst hsame
      simp [foundWith, h hkey, hfind]
    · rwa [if_neg hsame]

theorem find?_add_of_none {g : Graph} {parent : Option ComponentId} {kind : Kind} {key : Key}
    (hkey : kind.key? = some key) (hnone : g.keyTable.find? key = none) :
    (g.add parent kind).keyTable.find? key = some g.nextId := by
  simp [add, hkey, Table.find?_alter, foundWith, hnone]

section Continues

variable {becomes : Kind → Kind → Prop} {g g' : Graph}

theorem continues_refl (h : ∀ k, becomes k k) (g : Graph) : Continues becomes g g where
  get? _ c hc := ⟨c.kind, hc, h c.kind⟩
  childIds _ := List.prefix_rfl
  patternPossibilities := List.prefix_rfl
  rulePossibilities := List.prefix_rfl
  find? _ _ h := h

namespace Continues

theorem of_eq (h : Continues becomes g g') (journal? : Option Journal) :
    Continues becomes g { g' with journal? } where
  get? id c hc := by
    obtain ⟨kind, hkind, hbecomes⟩ := h.get? id c hc
    exact ⟨kind, by cases id <;> exact hkind, hbecomes⟩
  childIds := h.childIds
  patternPossibilities := h.patternPossibilities
  rulePossibilities := h.rulePossibilities
  find? := h.find?

/-- **A graph that goes on by a new component goes on**, unless the component hides an old one. -/
theorem add (h : Continues becomes g g') (parent : Option ComponentId) {kind : Kind}
    (hfresh : ∀ key, kind.key? = some key → key.isShadowing = true →
      g.keyTable.find? key = none) : Continues becomes g (g'.add parent kind) where
  get? id c hc := by
    obtain ⟨kind', hkind', hbecomes⟩ := h.get? id c hc
    exact ⟨kind', (get?_add_of_le g' parent kind (le_size_of_get? hkind')).trans hkind', hbecomes⟩
  childIds p := by
    refine (h.childIds p).trans ?_
    rw [Graph.childIds, Graph.childIds, Graph.add, Table.find?_alter]
    split
    · next hp => exact hp ▸ List.prefix_append _ _
    · exact List.prefix_rfl
  patternPossibilities := h.patternPossibilities
  rulePossibilities := h.rulePossibilities
  find? key id hid := by
    refine find?_add_of_some (h.find? key id hid) fun hkey => Bool.eq_false_iff.mpr ?_
    intro hshadowing
    rw [hfresh key hkey hshadowing] at hid
    cases hid

theorem modify (h : Continues becomes g g') (id : ComponentId) {change : Kind → Kind}
    (hchange : ∀ c kind, g.get? id = some c → g'.get? id = some { c with kind } →
      becomes c.kind kind → becomes c.kind (change kind)) :
    Continues becomes g (g'.modify id change) where
  get? other c hc := by
    obtain ⟨kind, hkind, hbecomes⟩ := h.get? other c hc
    rw [get?_modify_of_some hkind]
    by_cases hid : id = other
    · subst hid
      rw [if_pos rfl]
      exact ⟨change kind, rfl, hchange c kind hc hkind hbecomes⟩
    · rw [if_neg hid]
      exact ⟨kind, rfl, hbecomes⟩
  childIds p := by
    rw [childIds_modify]
    exact h.childIds p
  patternPossibilities := by
    obtain ⟨journal?, hsame⟩ := exists_modify_eq g' id change
    exact hsame ▸ h.patternPossibilities
  rulePossibilities := by
    obtain ⟨journal?, hsame⟩ := exists_modify_eq g' id change
    exact hsame ▸ h.rulePossibilities
  find? key other hother := by
    obtain ⟨journal?, hsame⟩ := exists_modify_eq g' id change
    exact hsame ▸ h.find? key other hother

theorem addPatternPossibilities (h : Continues becomes g g') (rule pattern : ComponentId)
    (possibilities : List (List ComponentId)) :
    Continues becomes g (g'.addPatternPossibilities rule pattern possibilities) where
  get? := h.get?
  childIds := h.childIds
  patternPossibilities := h.patternPossibilities.trans (List.prefix_append _ _)
  rulePossibilities := h.rulePossibilities
  find? := h.find?

theorem addRulePossibilities (h : Continues becomes g g') (rule : ComponentId)
    (possibilities : List (List PossibilityId)) :
    Continues becomes g (g'.addRulePossibilities rule possibilities) where
  get? := h.get?
  childIds := h.childIds
  patternPossibilities := h.patternPossibilities
  rulePossibilities := h.rulePossibilities.trans (List.prefix_append _ _)
  find? := h.find?

end Continues

end Continues

end RuleBase.Graph

import Mathlib.Logic.Relation
import RuleBase.Analysis.Package
import RuleBase.Proofs.Graph.Indexed
import RuleBase.Proofs.Graph.References

/-!
# Moves

What analyses do to a graph, move by move. A new component is put where it fits: under a key that is
not taken, unless it shadows the older ones, with references that lead where they should, and a
restriction refers to the variable that is found at that moment. Changes of a component leave its
essence alone.

* **`Moves.fitsIn`**: all components agree with what is above them; `Moves.tellsType`: and all
  variables with their objects;
* `ResolvesIn`, **`Moves.resolvesIn`**: restrictions refer to the latest variables before them.
-/

namespace RuleBase.Analysis

open RuleBase.Graph

/-! ## Moves -/

/-- The changes of components. -/
inductive Change : (Kind → Kind) → Prop where
  | mention (line : Nat) : Change (onField (Field.mention line))
  | refine (type : FieldType) : Change (onField (Field.refine type))
  | asField : Change (onVar asField)
  | withSource (source : Option Reference) : Change (withSource source)
  | withInput (input : ComponentId) : Change (withInput input)
  | withDataSource (dataSource : Option Reference) : Change (withDataSource dataSource)
  | withConsequence (id : ComponentId) : Change (withConsequence id)

theorem Change.essence_eq {change : Kind → Kind} (h : Change change) (k : Kind) :
    (change k).essence = k.essence := by
  cases h <;> cases k <;> rfl

theorem Change.restriction?_eq {change : Kind → Kind} (h : Change change) (k : Kind) :
    (change k).restriction? = k.restriction? := by
  cases h <;> cases k <;> rfl

theorem Change.key?_eq {change : Kind → Kind} (h : Change change) (k : Kind) :
    (change k).key? = k.key? := by
  rw [← Kind.key?_essence, h.essence_eq, Kind.key?_essence]

/-- A component may come about. -/
structure Suits (g : Graph) (parent : Option ComponentId) (kind : Kind) : Prop where
  parent_le : ∀ id, parent = some id → id ≤ g.size
  /-- No older component is hidden behind it. -/
  fresh : ∀ key, kind.key? = some key → key.isShadowing = false → g.keyTable.find? key = none
  fits : (g.newComponent parent kind).FitsIn (g.add parent kind)
  /-- The variable that a restriction refers to is the one that is found. -/
  resolved : ∀ r id name, kind = .restriction r → r.operand.var? = some (id, name) →
    g.findVar? r.rule name = some id
  /-- A variable tells the type of its object. -/
  typed : ∀ v, kind = .var v → v.TellsTypeIn g

/-- One move on a graph. -/
inductive Move (g : Graph) : Graph → Prop where
  | add (parent : Option ComponentId) (kind : Kind) (h : Suits g parent kind) :
      Move g (g.add parent kind)
  | change (id : ComponentId) (change : Kind → Kind) (h : Change change) :
      Move g (g.modify id change)
  | patternPossibilities (rule pattern : ComponentId) (possibilities : List (List ComponentId)) :
      Move g (g.addPatternPossibilities rule pattern possibilities)
  | rulePossibilities (rule : ComponentId) (possibilities : List (List PossibilityId)) :
      Move g (g.addRulePossibilities rule possibilities)
  | journal (journal? : Option Journal) : Move g { g with journal? }

/-- Several moves on a graph. -/
def Moves : Graph → Graph → Prop := Relation.ReflTransGen Move

theorem moves_refl (g : Graph) : Moves g g := .refl

theorem Moves.trans {g g' g'' : Graph} (h : Moves g g') (h' : Moves g' g'') : Moves g g'' :=
  Relation.ReflTransGen.trans h h'

theorem Move.moves {g g' : Graph} (h : Move g g') : Moves g g' := .single h

section Keep

variable {g g' : Graph}

theorem Move.kept (h : Move g g') : Kept g g' := by
  cases h with
  | add parent kind => exact kept_add g parent kind
  | change id change hchange => exact kept_modify g id hchange.essence_eq
  | _ => exact kept_refl g

/-- **Moves keep what components are.** -/
theorem Moves.kept (h : Moves g g') : Kept g g' := by
  induction h with
  | refl => exact kept_refl g
  | tail _ hmove ih => exact ih.trans hmove.kept

theorem Move.arranged (h : Move g g') (harranged : g.Arranged) : g'.Arranged := by
  cases h with
  | add parent kind hsuits => exact harranged.add kind hsuits.parent_le
  | change id change hchange => exact harranged.modify id hchange.key?_eq
  | _ => exact harranged.of_eq rfl rfl rfl

theorem Moves.arranged (h : Moves g g') (harranged : g.Arranged) : g'.Arranged := by
  induction h with
  | refl => exact harranged
  | tail _ hmove ih => exact hmove.arranged ih

end Keep

/-! ## What holds after any moves -/

/-- A move keeps the components of a graph in agreement with what is above them. -/
theorem Move.fitsIn {g g' : Graph} (h : Move g g')
    (hfits : ∀ id c, g.get? id = some c → c.FitsIn g) :
    ∀ id c, g'.get? id = some c → c.FitsIn g' := by
  have hkept := h.kept
  intro id c hc
  cases h with
  | add parent kind hsuits =>
    obtain hold | ⟨-, rfl⟩ := get?_add_eq_some hc
    · exact (hfits id c hold).keep hkept
    · exact hsuits.fits
  | change other change hchange =>
    rw [get?_modify] at hc
    obtain ⟨old, hold, rfl⟩ := Option.map_eq_some_iff.mp hc
    have hfit := (hfits id old hold).keep hkept
    by_cases hid : other = id
    · rw [if_pos hid]
      exact Kind.fits_essence.mp (hchange.essence_eq old.kind ▸ Kind.fits_essence.mpr hfit)
    · rwa [if_neg hid]
  | _ => exact (hfits id c hc).keep hkept

/-- **All components agree with what is above them.** -/
theorem Moves.fitsIn {g : Graph} (h : Moves {} g) : ∀ id c, g.get? id = some c → c.FitsIn g := by
  induction h with
  | refl =>
    intro id c hc
    cases id <;> cases hc
  | tail _ hmove ih => exact hmove.fitsIn ih

/-- A change of a variable at most makes it count as standing for the value of a field. -/
theorem Change.var?_eq {change : Kind → Kind} (h : Change change) {k : Kind} {v : Variable}
    (hv : (change k).var? = some v) :
    ∃ v', k.var? = some v' ∧ v'.objectId = v.objectId ∧
      (v.objectType = .field ∨ v.objectType = v'.objectType) := by
  cases h <;> cases k <;> cases hv
  all_goals first
    | exact ⟨_, rfl, rfl, .inl rfl⟩
    | exact ⟨_, rfl, rfl, .inr rfl⟩

theorem Move.tellsType {g g' : Graph} (h : Move g g')
    (htells : ∀ id v, g.ofKind? Kind.var? id = some v → v.TellsTypeIn g) :
    ∀ id v, g'.ofKind? Kind.var? id = some v → v.TellsTypeIn g' := by
  have hkept := h.kept
  intro id v hv
  obtain ⟨c, hc, hkind⟩ := Option.bind_eq_some_iff.mp hv
  clear hv
  have hold : ∀ c : Component, g.get? id = some c → c.kind.var? = some v → v.TellsTypeIn g' :=
    fun c hc hkind => (htells id v (Option.bind_eq_some_iff.mpr ⟨c, hc, hkind⟩)).keep hkept
  cases h with
  | add parent kind hsuits =>
    obtain hget | ⟨-, rfl⟩ := get?_add_eq_some hc
    · exact hold c hget hkind
    · obtain rfl : kind = .var v := by
        cases kind <;> cases hkind
        rfl
      exact (hsuits.typed v rfl).keep hkept
  | change other change hchange =>
    rw [get?_modify] at hc
    obtain ⟨c', hget, rfl⟩ := Option.map_eq_some_iff.mp hc
    by_cases hid : other = id
    · rw [if_pos hid] at hkind
      obtain ⟨v', hv', hobject, htype⟩ := hchange.var?_eq hkind
      have htells' := (htells id v' (Option.bind_eq_some_iff.mpr ⟨c', hget, hv'⟩)).keep hkept
      exact htells'.of_eq hobject.symm htype
    · rw [if_neg hid] at hkind
      exact hold c' hget hkind
  | _ => exact hold c hc hkind

/-- **All variables tell the types of their objects**, or count as standing for a field. -/
theorem Moves.tellsType {g : Graph} (h : Moves {} g) :
    ∀ id v, g.ofKind? Kind.var? id = some v → v.TellsTypeIn g := by
  induction h with
  | refl =>
    intro id v hv
    cases id <;> cases hv
  | tail _ hmove ih => exact hmove.tellsType ih

section Tables

variable {g g' : Graph}

theorem Move.tabled (h : Move g g') (htabled : g.Tabled) : g'.Tabled := by
  cases h with
  | add parent kind => exact htabled.add parent kind
  | change id change hchange => exact htabled.modify id hchange.key?_eq
  | patternPossibilities rule pattern possibilities =>
    exact htabled.addPatternPossibilities rule pattern possibilities
  | rulePossibilities rule possibilities =>
    exact htabled.addRulePossibilities rule possibilities
  | journal journal? => exact htabled.of_eq journal?

/-- **Moves keep the tables in agreement with the components.** -/
theorem Moves.tabled (h : Moves {} g) : g.Tabled := by
  induction h with
  | refl => exact tabled_empty
  | tail _ hmove ih => exact hmove.tabled ih

/-- At most one component has a key that does not shadow others. -/
theorem Move.countP_key_le (h : Move g g') (htabled : g.Tabled) {key : Key}
    (hkey : key.isShadowing = false) (hle : g.components.countP (·.kind.key? = some key) ≤ 1) :
    g'.components.countP (·.kind.key? = some key) ≤ 1 := by
  cases h with
  | add parent kind hsuits =>
    rw [Graph.add, List.countP_append, List.countP_singleton]
    by_cases hnew : kind.key? = some key
    · -- the key has not led to a component, so there has been none
      have hnone := hsuits.fresh key hnew hkey
      rw [htabled.find?_eq, hkey, if_neg Bool.false_ne_true, oldestOf?, Option.map_eq_none_iff,
        List.find?_eq_none] at hnone
      rw [List.countP_eq_zero.mpr hnone, newComponent, hnew]
      simp
    · simpa [newComponent, hnew] using hle
  | change id change hchange =>
    have hmap := map_changeKind (·.kind.key?) id (fun c => hchange.key?_eq c.kind) g.components
    have hcount : ∀ l : List Component, l.countP (·.kind.key? = some key) =
        (l.map (·.kind.key?)).countP (· = some key) := fun l => by
      rw [List.countP_map]
      rfl
    rwa [hcount, components_modify, hmap, ← hcount]
  | _ => exact hle

/-- **Keys are not given twice.** -/
theorem Moves.countP_key_le (h : Moves {} g) {key : Key} (hkey : key.isShadowing = false) :
    g.components.countP (·.kind.key? = some key) ≤ 1 := by
  induction h with
  | refl => exact Nat.zero_le 1
  | tail hmoves hmove ih => exact hmove.countP_key_le (Moves.tabled hmoves) hkey ih

/-! ## Variables -/

/-- The variable that a restriction refers to is the newest one of its rule and its name that is
older than the restriction. -/
def ResolvesIn (r : Graph.Restriction) (id : ComponentId) (g : Graph) : Prop :=
  ∀ other name, r.operand.var? = some (other, name) →
    other < id ∧ (∃ c, g.get? other = some c ∧ c.kind.key? = some (.var r.rule name)) ∧
      ∀ between c, other < between → between < id → g.get? between = some c →
        c.kind.key? ≠ some (.var r.rule name)

/-- A change of kinds that keeps keys, or a younger component, keeps it so. -/
theorem ResolvesIn.of_keys {r : Graph.Restriction} {id : ComponentId} (h : ResolvesIn r id g)
    (hid : id ≤ g.size)
    (hkeys : ∀ other ≤ g.size,
      (g'.get? other).map (·.kind.key?) = (g.get? other).map (·.kind.key?)) :
    ResolvesIn r id g' := by
  intro other name hvar
  obtain ⟨hlt, ⟨c, hc, hkey⟩, hbetween⟩ := h other name hvar
  refine ⟨hlt, ?_, fun between c' hlo hhi hc' hkey' => ?_⟩
  · have hsame := hkeys other (Nat.le_trans (Nat.le_of_lt hlt) hid)
    rw [hc, Option.map_some, hkey] at hsame
    exact Option.map_eq_some_iff.mp hsame
  · have hsame := hkeys between (Nat.le_trans (Nat.le_of_lt hhi) hid)
    rw [hc', Option.map_some, hkey', eq_comm] at hsame
    obtain ⟨c, hc, hkey⟩ := Option.map_eq_some_iff.mp hsame
    exact hbetween between c hlo hhi hc hkey

theorem Suits.resolvesIn {parent : Option ComponentId} {r : Graph.Restriction}
    (h : Suits g parent (.restriction r)) (htabled : g.Tabled) :
    ResolvesIn r g.nextId (g.add parent (.restriction r)) := by
  intro other name hvar
  obtain ⟨⟨c, hc, hkey⟩, hlater⟩ := htabled.newest rfl (h.resolved r other name rfl hvar)
  have hle : other ≤ g.size := le_size_of_get? hc
  refine ⟨Nat.lt_succ_of_le hle, ⟨c, ?_, hkey⟩, fun between c' hlo hhi hc' => ?_⟩
  · rw [get?_add_of_le g parent _ hle, hc]
  · rw [get?_add_of_le g parent _ (Nat.le_of_lt_succ hhi)] at hc'
    exact hlater between c' hlo hc'

theorem Move.resolvesIn (h : Move g g') (htabled : g.Tabled)
    (hresolves : ∀ id r, g.ofKind? Kind.restriction? id = some r → ResolvesIn r id g) :
    ∀ id r, g'.ofKind? Kind.restriction? id = some r → ResolvesIn r id g' := by
  intro id r hr
  obtain ⟨c, hc, hkind⟩ := Option.bind_eq_some_iff.mp hr
  clear hr
  cases h with
  | add parent kind hsuits =>
    obtain hget | ⟨rfl, rfl⟩ := get?_add_eq_some hc
    · refine (hresolves id r (Option.bind_eq_some_iff.mpr ⟨c, hget, hkind⟩)).of_keys
        (le_size_of_get? hget) fun other hle => ?_
      rw [get?_add_of_le g parent kind hle]
    · obtain rfl : kind = .restriction r := by
        cases kind <;> cases hkind
        rfl
      exact hsuits.resolvesIn htabled
  | change other change hchange =>
    rw [get?_modify] at hc
    obtain ⟨c', hget, rfl⟩ := Option.map_eq_some_iff.mp hc
    have hsame : c'.kind.restriction? = some r := by
      split at hkind
      · rwa [← hchange.restriction?_eq]
      · exact hkind
    refine (hresolves id r (Option.bind_eq_some_iff.mpr ⟨c', hget, hsame⟩)).of_keys
      (le_size_of_get? hget) fun between _ => ?_
    exact map_get?_modify g other _ (fun c => hchange.key?_eq c.kind) between
  | _ =>
    exact (hresolves id r (Option.bind_eq_some_iff.mpr ⟨c, hc, hkind⟩)).of_keys
      (le_size_of_get? hc) fun _ _ => rfl

/-- **Every restriction refers to the newest variable** of its rule and its name that there was. -/
theorem Moves.resolvesIn (h : Moves {} g) :
    ∀ id r, g.ofKind? Kind.restriction? id = some r → ResolvesIn r id g := by
  induction h with
  | refl =>
    intro id r hr
    cases id <;> cases hr
  | tail hmoves hmove ih => exact hmove.resolvesIn (Moves.tabled hmoves) ih

end Tables

end RuleBase.Analysis

import Mathlib.Logic.Function.Basic
import Mathlib.Logic.Relation
import RuleBase.Proofs.Graph.References

/-!
# Components in reading order

A component that comes about below another one is younger than all others. If moreover everything
above it comes last among its siblings, whatever stands below an older sibling is older than the
younger one: the numbers of components increase in reading order. Fields come about at any time, so
they are left aside until the whole graph is there.

* **`Preordered.update`**: a tree that grows at its edge stays in reading order.
-/

namespace RuleBase.Graph

section Trees

variable {parent : ComponentId → Option ComponentId} {p q id new : ComponentId}

/-- A component is another one or stands below it. -/
abbrev AtOrBelow (parent : ComponentId → Option ComponentId) : ComponentId → ComponentId → Prop :=
  Relation.ReflTransGen fun p id => parent id = some p

/-- A component comes last among its siblings, and so does everything above it. -/
inductive OnEdge (parent : ComponentId → Option ComponentId) : ComponentId → Prop
  | root {id : ComponentId} (h : parent id = none) : OnEdge parent id
  | child {id p : ComponentId} (h : parent id = some p)
      (hlast : ∀ sibling, parent sibling = some p → sibling ≤ id) (hp : OnEdge parent p) :
      OnEdge parent id

/-- The numbers of components increase in reading order. -/
structure Preordered (parent : ComponentId → Option ComponentId) : Prop where
  parent_lt : ∀ id p, parent id = some p → p < id
  /-- What stands below an older sibling is older than the younger one. -/
  below_lt : ∀ p older younger id, parent older = some p → parent younger = some p →
    older < younger → AtOrBelow parent older id → id < younger

theorem Preordered.le_of_atOrBelow (h : Preordered parent) (hbelow : AtOrBelow parent p id) :
    p ≤ id := by
  induction hbelow with
  | refl => exact Nat.le_refl p
  | tail _ hparent ih => exact Nat.le_trans ih (Nat.le_of_lt (h.parent_lt _ _ hparent))

/-- The component above one on the edge is on the edge, too. -/
theorem OnEdge.of_child (h : OnEdge parent id) (hparent : parent id = some p) :
    OnEdge parent p := by
  cases h with
  | root hnone =>
    rw [hnone] at hparent
    cases hparent
  | child hother _ hp =>
    obtain rfl := Option.some.inj (hother.symm.trans hparent)
    exact hp

theorem OnEdge.le_of_atOrBelow (h : OnEdge parent p) (hbelow : AtOrBelow parent id p)
    {above sibling : ComponentId} (hid : parent id = some above)
    (hsibling : parent sibling = some above) : sibling ≤ id := by
  induction hbelow with
  | refl =>
    cases h with
    | root hnone =>
      rw [hnone] at hid
      cases hid
    | child hother hlast _ =>
      obtain rfl := Option.some.inj (hother.symm.trans hid)
      exact hlast sibling hsibling
  | tail _ hparent ih => exact ih (h.of_child hparent)

section Update

variable (h : Preordered parent) (hnew : ∀ id q, parent id = some q → id < new)
include h hnew

/-- What stood below a component before still does, and nothing else but the new one. -/
theorem Preordered.atOrBelow_of_update
    (hbelow : AtOrBelow (Function.update parent new (some p)) id q) (hq : q ≠ new) :
    AtOrBelow parent id q := by
  induction hbelow with
  | refl => exact .refl
  | tail _ hparent ih =>
    rw [Function.update_of_ne hq] at hparent
    have hlt := Nat.lt_trans (h.parent_lt _ _ hparent) (hnew _ _ hparent)
    exact (ih (Nat.ne_of_lt hlt)).tail hparent

variable (hp : p < new)
include hp

theorem Preordered.eq_or_atOrBelow_of_update
    (hbelow : AtOrBelow (Function.update parent new (some p)) id new) :
    id = new ∨ AtOrBelow parent id p := by
  obtain rfl | ⟨q, hq, hparent⟩ := Relation.ReflTransGen.cases_tail hbelow
  · exact .inl rfl
  · rw [Function.update_self] at hparent
    cases hparent
    exact .inr (h.atOrBelow_of_update hnew hq (Nat.ne_of_lt hp))

/-- **A tree that grows at its edge stays in reading order.** -/
theorem Preordered.update (hedge : OnEdge parent p) :
    Preordered (Function.update parent new (some p)) where
  parent_lt id q hparent := by
    by_cases hid : id = new
    · subst hid
      rw [Function.update_self] at hparent
      exact Option.some.inj hparent ▸ hp
    · rw [Function.update_of_ne hid] at hparent
      exact h.parent_lt id q hparent
  below_lt q older younger id holder hyounger hlt hbelow := by
    by_cases hlatest : younger = new
    · -- everything else is older than the new component
      subst hlatest
      rw [Function.update_self] at hyounger
      cases hyounger
      rw [Function.update_of_ne (Nat.ne_of_lt hlt)] at holder
      have hid : id ≠ younger := by
        rintro rfl
        obtain rfl | habove := h.eq_or_atOrBelow_of_update hnew hp hbelow
        · exact Nat.lt_irrefl _ hlt
        · exact absurd (h.le_of_atOrBelow habove) (Nat.not_le.mpr (h.parent_lt _ _ holder))
      obtain rfl | ⟨above, -, hparent⟩ := Relation.ReflTransGen.cases_tail hbelow
      · exact hlt
      · rw [Function.update_of_ne hid] at hparent
        exact hnew _ _ hparent
    · rw [Function.update_of_ne hlatest] at hyounger
      have holder' : older ≠ new := Nat.ne_of_lt (Nat.lt_trans hlt (hnew _ _ hyounger))
      rw [Function.update_of_ne holder'] at holder
      by_cases hid : id = new
      · -- nothing above the new component has a younger sibling
        subst hid
        obtain rfl | habove := h.eq_or_atOrBelow_of_update hnew hp hbelow
        · exact absurd rfl holder'
        · exact absurd (hedge.le_of_atOrBelow habove holder hyounger) (Nat.not_le.mpr hlt)
      · exact h.below_lt q older younger id holder hyounger hlt
          (h.atOrBelow_of_update hnew hbelow hid)

/-- The edge goes on to the new component. -/
theorem Preordered.onEdge_update (hedge : OnEdge parent p) :
    OnEdge (Function.update parent new (some p)) new := by
  have hstays : ∀ id, OnEdge parent id → id ≤ p →
      OnEdge (Function.update parent new (some p)) id := by
    intro id hid
    induction hid with
    | @root id hnone =>
      intro hle
      exact .root (by rw [Function.update_of_ne (Nat.ne_of_lt (Nat.lt_of_le_of_lt hle hp)), hnone])
    | @child id above hparent hlast _ ih =>
      intro hle
      have hlt := h.parent_lt _ _ hparent
      refine .child (p := above) ?_ (fun sibling hsibling => ?_)
        (ih (Nat.le_trans (Nat.le_of_lt hlt) hle))
      · rw [Function.update_of_ne (Nat.ne_of_lt (Nat.lt_of_le_of_lt hle hp)), hparent]
      · by_cases hnewest : sibling = new
        · subst hnewest
          rw [Function.update_self] at hsibling
          cases hsibling
          exact absurd hle (Nat.not_le.mpr hlt)
        · rw [Function.update_of_ne hnewest] at hsibling
          exact hlast sibling hsibling
  refine .child (Function.update_self ..) (fun sibling hsibling => ?_)
    (hstays p hedge (Nat.le_refl p))
  by_cases hnewest : sibling = new
  · exact Nat.le_of_eq hnewest
  · rw [Function.update_of_ne hnewest] at hsibling
    exact Nat.le_of_lt (hnew _ _ hsibling)

end Update

end Trees

section Graphs

variable {g g' : Graph} {p id : ComponentId}

/-- The parent of a component that is no field. -/
def nodeParent? (g : Graph) (id : ComponentId) : Option ComponentId :=
  if g.typeOf? id = some .field then none else g.parentOf? id

theorem nodeParent?_of_type {id : ComponentId} (h : g.typeOf? id ≠ some .field) :
    g.nodeParent? id = g.parentOf? id := if_neg h

theorem le_size_of_nodeParent? {q : ComponentId} (h : g.nodeParent? id = some q) :
    id ≤ g.size := by
  obtain ⟨-, hparent⟩ := Option.ite_none_left_eq_some.mp h
  obtain ⟨c, hc, -⟩ := Option.bind_eq_some_iff.mp hparent
  exact le_size_of_get? hc

theorem nodeParent?_add (g : Graph) (parent : Option ComponentId) (kind : Kind) :
    (g.add parent kind).nodeParent? =
      Function.update g.nodeParent? g.nextId (if kind.type = .field then none else parent) := by
  funext id
  by_cases hid : id = g.nextId
  · subst hid
    rw [Function.update_self, nodeParent?, typeOf?, parentOf?, get?_add_nextId]
    simp [newComponent]
  · rw [Function.update_of_ne hid]
    rw [nodeParent?, typeOf?, parentOf?, get?_add_of_ne hid]
    rfl

theorem nodeParent?_add_of_none (g : Graph) (parent : Option ComponentId) {kind : Kind}
    (h : kind.type = .field ∨ parent = none) : (g.add parent kind).nodeParent? = g.nodeParent? := by
  have hnone : (if kind.type = .field then none else parent) = none := by
    obtain htype | rfl := h
    · exact if_pos htype
    · exact ite_self _
  rw [nodeParent?_add, hnone, Function.update_eq_self_iff, eq_comm,
    Option.eq_none_iff_forall_ne_some]
  exact fun q hq => absurd (le_size_of_nodeParent? hq) (Nat.not_succ_le_self _)

theorem nodeParent?_modify (g : Graph) (other : ComponentId) {change : Kind → Kind}
    (h : ∀ k, (change k).type = k.type) : (g.modify other change).nodeParent? = g.nodeParent? := by
  funext id
  have htype : (g.modify other change).typeOf? id = g.typeOf? id := by
    rw [typeOf?, map_get?_modify g other _ fun c => h c.kind, typeOf?]
  have hparent : (g.modify other change).parentOf? id = g.parentOf? id := by
    rw [parentOf?, get?_modify, parentOf?]
    cases g.get? id with
    | none => rfl
    | some c => by_cases hid : other = id <;> simp [hid]
  rw [nodeParent?, htype, hparent]
  rfl

/-- A graph is in reading order and can grow at a component. -/
structure EdgeAt (p : ComponentId) (g : Graph) : Prop where
  preordered : Preordered g.nodeParent?
  onEdge : OnEdge g.nodeParent? p
  le_size : p ≤ g.size

namespace EdgeAt

theorem of_eq (h : EdgeAt p g) (hsame : g'.nodeParent? = g.nodeParent?) (hle : g.size ≤ g'.size) :
    EdgeAt p g' where
  preordered := hsame ▸ h.preordered
  onEdge := hsame ▸ h.onEdge
  le_size := Nat.le_trans h.le_size hle

/-- **A graph can grow at a new component** at its edge. -/
theorem add (h : EdgeAt p g) {kind : Kind} (htype : kind.type ≠ .field) :
    EdgeAt g.nextId (g.add (some p) kind) := by
  have hsame : (g.add (some p) kind).nodeParent? =
      Function.update g.nodeParent? g.nextId (some p) := by
    rw [nodeParent?_add, if_neg htype]
  have hnew : ∀ id q, g.nodeParent? id = some q → id < g.nextId := fun _ _ hid =>
    Nat.lt_succ_of_le (le_size_of_nodeParent? hid)
  have hp : p < g.nextId := Nat.lt_succ_of_le h.le_size
  refine ⟨?_, ?_, Nat.le_of_eq (size_add g (some p) kind).symm⟩
  · rw [hsame]
    exact h.preordered.update hnew hp h.onEdge
  · rw [hsame]
    exact h.preordered.onEdge_update hnew hp h.onEdge

theorem of_child (h : EdgeAt id g) (hparent : g.nodeParent? id = some p) : EdgeAt p g where
  preordered := h.preordered
  onEdge := h.onEdge.of_child hparent
  le_size := Nat.le_trans (Nat.le_of_lt (h.preordered.parent_lt _ _ hparent)) h.le_size

end EdgeAt

/-! ## Fields again -/

section Fits

variable (hfits : ∀ id c, g.get? id = some c → c.id = id ∧ c.FitsIn g)
include hfits

theorem above_of_parentOf? (hparent : g.parentOf? id = some p) :
    g.typeOf? id = some .field ∧ g.typeOf? p = some .factClass ∨
      g.typeOf? id ≠ some .field ∧ g.Hosts p := by
  obtain ⟨c, hc, hp⟩ := Option.bind_eq_some_iff.mp hparent
  have htype : g.typeOf? id = some c.kind.type := by rw [typeOf?, hc]; rfl
  obtain ⟨rfl, hfit⟩ := hfits id c hc
  obtain ⟨-, hnone⟩ | ⟨hfield, q, hq, hclass⟩ | ⟨-, hfield, q, hq, hhosts⟩ := hfit.above hc
  · rw [hnone] at hp
    cases hp
  · obtain rfl := Option.some.inj (hp.symm.trans hq)
    exact .inl ⟨by rw [htype, hfield], hclass⟩
  · obtain rfl := Option.some.inj (hp.symm.trans hq)
    exact .inr ⟨by rwa [htype, ne_eq, Option.some.injEq], hhosts⟩

theorem parentOf?_of_factClass (h : g.typeOf? id = some .factClass) : g.parentOf? id = none := by
  obtain ⟨c, hc, htype⟩ := Option.map_eq_some_iff.mp h
  obtain ⟨rfl, hfit⟩ := hfits id c hc
  rw [parentOf?, hc, Option.bind_some]
  obtain ⟨-, hnone⟩ | ⟨hfield, -⟩ | ⟨hne, -⟩ := hfit.above hc
  · exact hnone
  · rw [hfield] at htype
    cases htype
  · exact absurd (.inr htype) hne

theorem Hosts.not_shared (h : g.Hosts p) :
    g.typeOf? p ≠ some .factClass ∧ g.typeOf? p ≠ some .field := by
  obtain h | h | ⟨rule, hnear⟩ := h
  · rw [h]
    exact ⟨nofun, nofun⟩
  · rw [h]
    exact ⟨nofun, nofun⟩
  · cases hnear with
    | here h =>
      rw [h]
      exact ⟨nofun, nofun⟩
    | @above _ above _ _ hparent hnext =>
      have hclass : ∀ id, g.typeOf? id = some .factClass → ¬ g.Nearest .rule id rule := by
        intro id hid hnear
        cases hnear with
        | here h => rw [hid] at h; cases h
        | above _ hparent _ => rw [parentOf?_of_factClass hfits hid] at hparent; cases hparent
      refine ⟨fun hid => ?_, fun hid => ?_⟩
      · rw [parentOf?_of_factClass hfits hid] at hparent
        cases hparent
      · obtain ⟨-, habove⟩ | ⟨hne, -⟩ := above_of_parentOf? hfits hparent
        · exact hclass above habove hnext
        · exact hne hid

/-- Nothing on the way down from a component with a parent is a field, but for the component. -/
theorem atOrBelow_nodeParent? (hp : g.parentOf? p ≠ none) (h : AtOrBelow g.parentOf? p id) :
    AtOrBelow g.nodeParent? p id := by
  induction h with
  | refl => exact .refl
  | @tail above id _ hparent ih =>
    refine ih.tail ?_
    obtain ⟨-, hclass⟩ | ⟨hne, -⟩ := above_of_parentOf? hfits hparent
    · -- a class has no parent, so it would be the component itself
      have hnone := parentOf?_of_factClass hfits hclass
      obtain rfl | ⟨q, -, hq⟩ := Relation.ReflTransGen.cases_tail ih
      · exact absurd hnone hp
      · obtain ⟨-, hq⟩ := Option.ite_none_left_eq_some.mp hq
        rw [hnone] at hq
        cases hq
    · rw [nodeParent?_of_type hne, hparent]

/-- **Whatever stands below an older sibling is older than a younger one**, with fields. -/
theorem Preordered.lt_of_siblings (h : Preordered g.nodeParent?) {older younger : ComponentId}
    (holder : g.parentOf? older = some p) (hyounger : g.parentOf? younger = some p)
    (hlt : older < younger) (hbelow : AtOrBelow g.parentOf? older id) : id < younger := by
  obtain ⟨hfield, -⟩ | ⟨hne, hhosts⟩ := above_of_parentOf? hfits holder
  · -- nothing stands below a field
    obtain rfl | ⟨child, hchild, -⟩ := Relation.ReflTransGen.cases_head hbelow
    · exact hlt
    · obtain ⟨-, hclass⟩ | ⟨-, hhosts⟩ := above_of_parentOf? hfits hchild
      · rw [hfield] at hclass
        cases hclass
      · exact absurd hfield (hhosts.not_shared hfits).2
  · have hne' : g.typeOf? younger ≠ some .field := by
      obtain ⟨-, hclass⟩ | ⟨hne', -⟩ := above_of_parentOf? hfits hyounger
      · exact absurd hclass (hhosts.not_shared hfits).1
      · exact hne'
    rw [← nodeParent?_of_type hne] at holder
    rw [← nodeParent?_of_type hne'] at hyounger
    refine h.below_lt p older younger id holder hyounger hlt
      (atOrBelow_nodeParent? hfits ?_ hbelow)
    rw [← nodeParent?_of_type hne, holder]
    nofun

end Fits

end Graphs

end RuleBase.Graph

import RuleBase.Analysis.Restriction
import RuleBase.Proofs.Graph.Typing

/-!
# Variables that paths start from

A variable counts as standing for the value of a field if it was declared as such, or if the path of
some restriction starts from it. It comes to count so just before there is the restriction, so in
between a path is pending.

* `Graph.HasPathFrom`, `Variable.IsOfField`: the two reasons;
* `Graph.PathsTold`, **`PathsTold.startPath`**: exactly the variables with a reason count as
  standing for fields.
-/

namespace RuleBase.Graph

open Analysis

/-- The path of a restriction starts from a component. -/
def HasPathFrom (g : Graph) (id : ComponentId) : Prop :=
  ∃ restriction r name path, g.ofKind? Kind.restriction? restriction = some r ∧
    r.operand = .qualified id name path

/-- The object of a variable is a field. -/
def Variable.IsOfField (v : Variable) (g : Graph) : Prop :=
  ∃ field f, v.objectId = some field ∧ g.ofKind? Kind.field? field = some f

/-- Exactly those variables count as standing for fields that are declared so, or that paths start
from, or are about to. -/
structure PathsTold (pending : Option ComponentId) (g : Graph) : Prop where
  sound : g.Sound
  counts : ∀ id, g.HasPathFrom id → ∃ v, g.ofKind? Kind.var? id = some v ∧ v.objectType = .field
  reason : ∀ id v, g.ofKind? Kind.var? id = some v → v.objectType = .field →
    v.IsOfField g ∨ g.HasPathFrom id ∨ pending = some id

variable {g g' : Graph} {pending : Option ComponentId}

theorem HasPathFrom.keep (hkept : Kept g g') {id : ComponentId} (h : g.HasPathFrom id) :
    g'.HasPathFrom id := by
  obtain ⟨restriction, r, name, path, hr, hpath⟩ := h
  exact ⟨restriction, r, name, path, hkept.ofKind? (fun k => by cases k <;> rfl) hr, hpath⟩

theorem Variable.IsOfField.keep (hkept : Kept g g') {v : Variable} (h : v.IsOfField g) :
    v.IsOfField g' := by
  obtain ⟨field, f, hobject, hf⟩ := h
  obtain ⟨f', hf', -⟩ := hkept.field? hf
  exact ⟨field, f', hobject, hf'⟩

namespace PathsTold

theorem empty : PathsTold none {} where
  sound := sound_empty
  counts := by
    rintro id ⟨restriction, r, name, path, hr, -⟩
    cases restriction <;> cases hr
  reason := by
    intro id v hv
    cases id <;> cases hv

theorem of_eq (h : PathsTold pending g) (hcomponents : g'.components = g.components)
    (hchild : g'.childTable = g.childTable) (hkey : g'.keyTable = g.keyTable) :
    PathsTold pending g' := by
  obtain ⟨components, _, _, _, childTable, keyTable, _⟩ := g'
  subst hcomponents hchild hkey
  exact ⟨h.sound.of_eq rfl rfl rfl, h.counts, h.reason⟩

/-- A new path starts from a variable that counts already, and a new variable counts only if its
object is a field. -/
theorem add (h : PathsTold pending g) (parent : Option ComponentId) {kind : Kind}
    (hpath : ∀ r id name path, kind.restriction? = some r → r.operand = .qualified id name path →
      ∃ v, g.ofKind? Kind.var? id = some v ∧ v.objectType = .field)
    (hvar : ∀ v, kind.var? = some v → v.objectType = .field → v.IsOfField g) :
    PathsTold pending (g.add parent kind) where
  sound := h.sound.add parent kind
  counts := by
    rintro id ⟨restriction, r, name, path, hr, hoperand⟩
    have hold : ∃ v, g.ofKind? Kind.var? id = some v ∧ v.objectType = .field := by
      obtain hr | ⟨-, hr⟩ := ofKind?_add_cases hr
      · exact h.counts id ⟨restriction, r, name, path, hr, hoperand⟩
      · exact hpath r id name path hr hoperand
    obtain ⟨v, hv, htype⟩ := hold
    exact ⟨v, ofKind?_add_of_some parent kind hv, htype⟩
  reason id v hv htype := by
    have hkept := kept_add g parent kind
    obtain hold | ⟨-, hnew⟩ := ofKind?_add_cases hv
    · exact (h.reason id v hold htype).imp (·.keep hkept) (Or.imp_left (·.keep hkept))
    · exact .inl ((hvar v hnew htype).keep hkept)

theorem modify (h : PathsTold pending g) (other : ComponentId) {change : Kind → Kind}
    (hessence : ∀ k, (change k).essence = k.essence) (hvar : ∀ k, (change k).var? = k.var?) :
    PathsTold pending (g.modify other change) := by
  have hkept := kept_modify g other hessence
  have hrestriction : ∀ k, (change k).restriction? = k.restriction? := fun k => by
    have hsame : ∀ k : Kind, k.restriction? = k.essence.restriction? := fun k => by cases k <;> rfl
    rw [hsame, hessence, ← hsame]
  have hkey : ∀ k, (change k).key? = k.key? := fun k => by
    rw [← Kind.key?_essence, hessence, Kind.key?_essence]
  refine ⟨h.sound.modify other hkey, fun id => ?_, fun id v hv htype => ?_⟩
  · rintro ⟨restriction, r, name, path, hr, hoperand⟩
    rw [ofKind?_modify g other restriction hrestriction] at hr
    rw [ofKind?_modify g other id hvar]
    exact h.counts id ⟨restriction, r, name, path, hr, hoperand⟩
  · rw [ofKind?_modify g other id hvar] at hv
    exact (h.reason id v hv htype).imp (·.keep hkept) (Or.imp_left (·.keep hkept))

/-- **A path is about to start from a variable**, which counts as standing for a field from now
on. -/
theorem startPath (h : PathsTold none g) {rule id : ComponentId} {name : String}
    (hfind : g.findVar? rule name = some id) :
    PathsTold (some id) (g.modify id (onVar asField)) ∧
      ∃ v, (g.modify id (onVar asField)).ofKind? Kind.var? id = some v ∧
        v.objectType = .field := by
  have hessence : ∀ k, (onVar asField k).essence = k.essence := fun k => by cases k <;> rfl
  have hkept := kept_modify g id hessence
  have hthere : ∃ v, (g.modify id (onVar asField)).ofKind? Kind.var? id = some v ∧
      v.objectType = .field := by
    obtain ⟨v, hv, -⟩ := h.sound.var?_of_findVar? hfind
    obtain ⟨c, hc, hkind⟩ := Option.bind_eq_some_iff.mp hv
    refine ⟨asField v, ?_, rfl⟩
    rw [ofKind?_modify_self, ofKind?, hc]
    cases hk : c.kind <;> rw [hk] at hkind <;> cases hkind
    simp [hk, onVar, Kind.var?]
  refine ⟨⟨h.sound.modify id fun k => by cases k <;> rfl, fun other => ?_, ?_⟩, hthere⟩
  · rintro ⟨restriction, r, name', path, hr, hoperand⟩
    rw [ofKind?_modify g id restriction fun k => by cases k <;> rfl] at hr
    by_cases hid : id = other
    · exact hid ▸ hthere
    · rw [ofKind?_modify_of_ne g hid]
      exact h.counts other ⟨restriction, r, name', path, hr, hoperand⟩
  · intro other v hv htype
    by_cases hid : id = other
    · exact .inr (.inr (congrArg some hid))
    · rw [ofKind?_modify_of_ne g hid] at hv
      obtain hobject | hpath | hnone := h.reason other v hv htype
      · exact .inl (hobject.keep hkept)
      · exact .inr (.inl (hpath.keep hkept))
      · cases hnone

/-- Nothing is pending once there is the restriction. -/
theorem reached {id : ComponentId} (h : PathsTold (some id) g) (hpath : g.HasPathFrom id) :
    PathsTold none g := by
  refine ⟨h.sound, h.counts, fun other v hv htype => ?_⟩
  obtain hobject | hother | hpending := h.reason other v hv htype
  · exact .inl hobject
  · exact .inr (.inl hother)
  · cases hpending
    exact .inr (.inl hpath)

end PathsTold

end RuleBase.Graph

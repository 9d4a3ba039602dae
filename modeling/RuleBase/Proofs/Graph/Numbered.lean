import Mathlib.Data.List.Nodup
import Mathlib.Data.List.Perm.Basic
import RuleBase.Proofs.Graph.Log
import RuleBase.Proofs.Graph.Sound

/-!
# Numbers stand for one thing each

Components are numbered in one sequence, possibilities of patterns and of rules together in another
one. So a number is never that of two components, nor of two possibilities.

* **`Graph.Sound.pairwise_withEntry`**, `Graph.Sound.nodup_withEntry`: the patterns of a rule and
  the restrictions of a pattern are different components, in the order of their numbers.
-/

namespace RuleBase

namespace Graph

variable {g : Graph}

/-! ## Possibilities -/

/-- The possibilities of patterns and rules together have consecutive numbers. -/
def Numbered (g : Graph) : Prop :=
  (g.patternPossibilities.map (·.id) ++ g.rulePossibilities.map (·.id)).Perm
    (List.range' 1 g.issued)

theorem numbered_empty : Numbered {} := List.Perm.refl _

/-- What is numbered next follows on the numbers there are. -/
theorem Numbered.perm_append (h : g.Numbered) (count : Nat) :
    (g.patternPossibilities.map (·.id) ++ g.rulePossibilities.map (·.id) ++
      g.nextPossibilities count).Perm (List.range' 1 (g.issued + count)) := by
  have hrange : List.range' 1 (g.issued + count) =
      List.range' 1 g.issued ++ g.nextPossibilities count := by
    rw [nextPossibilities, Nat.add_comm g.issued 1, List.range'_append_1]
  rw [hrange]
  exact h.append_right _

theorem map_id_addPatternPossibilities (g : Graph) (rule pattern : ComponentId)
    (possibilities : List (List ComponentId)) :
    (g.addPatternPossibilities rule pattern possibilities).patternPossibilities.map (·.id) =
      g.patternPossibilities.map (·.id) ++ g.nextPossibilities possibilities.length := by
  rw [← map_fst_number]
  simp [Graph.addPatternPossibilities, Function.comp_def]

theorem map_id_addRulePossibilities (g : Graph) (rule : ComponentId)
    (possibilities : List (List PossibilityId)) :
    (g.addRulePossibilities rule possibilities).rulePossibilities.map (·.id) =
      g.rulePossibilities.map (·.id) ++ g.nextPossibilities possibilities.length := by
  rw [← map_fst_number]
  simp [Graph.addRulePossibilities, Function.comp_def]

theorem Numbered.addPatternPossibilities (h : g.Numbered) (rule pattern : ComponentId)
    (possibilities : List (List ComponentId)) :
    (g.addPatternPossibilities rule pattern possibilities).Numbered := by
  rw [Numbered, map_id_addPatternPossibilities, List.append_assoc]
  refine List.Perm.trans ?_ (h.perm_append possibilities.length)
  rw [List.append_assoc]
  exact List.perm_append_comm.append_left _

theorem Numbered.addRulePossibilities (h : g.Numbered) (rule : ComponentId)
    (possibilities : List (List PossibilityId)) :
    (g.addRulePossibilities rule possibilities).Numbered := by
  rw [Numbered, map_id_addRulePossibilities, ← List.append_assoc]
  exact h.perm_append possibilities.length

theorem Numbered.modify (h : g.Numbered) (id : ComponentId) (change : Kind → Kind) :
    (g.modify id change).Numbered := by
  cases hc : g.get? id with
  | none => rwa [modify_of_get?_eq_none hc]
  | some c => simpa [Numbered, Graph.modify, hc] using h

theorem Numbered.eq_of_id_eq (h : g.Numbered) {p p' : PatternPossibility}
    (hp : p ∈ g.patternPossibilities) (hp' : p' ∈ g.patternPossibilities) (hid : p.id = p'.id) :
    p = p' := by
  have hnodup := (List.nodup_append.mp (h.nodup_iff.mpr List.nodup_range')).1
  exact List.inj_on_of_nodup_map hnodup hp hp' hid

theorem Numbered.patternPossibility?_eq (h : g.Numbered) {p : PatternPossibility}
    (hp : p ∈ g.patternPossibilities) : g.patternPossibility? p.id = some p := by
  obtain ⟨p', hp'⟩ : ∃ p', g.patternPossibility? p.id = some p' := by
    rw [← Option.isSome_iff_exists, patternPossibility?, List.find?_isSome]
    exact ⟨p, hp, beq_self_eq_true _⟩
  have hid : p'.id = p.id := by simpa using List.find?_some hp'
  rw [hp', h.eq_of_id_eq (List.mem_of_find?_eq_some hp') hp hid]

/-! ## Components -/

theorem Sound.map_id (h : g.Sound) : g.components.map (·.id) = List.range' 1 g.size := by
  refine List.ext_getElem (by simp [size]) fun n hn _ => ?_
  rw [List.length_map] at hn
  simp [h.id_eq n _ (List.getElem?_eq_getElem hn), Nat.add_comm]

theorem Sound.pairwise_components (h : g.Sound) : g.components.Pairwise (·.id < ·.id) := by
  rw [← List.pairwise_map, h.map_id]
  exact List.pairwise_lt_range'

theorem Sound.pairwise_childIds (h : g.Sound) (parent : Option ComponentId) :
    (g.childIds parent).Pairwise (· < ·) := by
  rw [h.childIds_eq, idsUnder, List.pairwise_map]
  exact h.pairwise_components.filter _

/-- **Components are found in the order of their numbers** by what they are to others. -/
theorem Sound.pairwise_withEntry (h : g.Sound) (e : Entry) :
    (g.log.withEntry e).Pairwise (· < ·) := by
  refine (List.pairwise_map.mpr h.pairwise_components).sublist ?_
  rw [withEntry_log]
  induction g.components with
  | nil => exact List.Sublist.slnil
  | cons c rest ih =>
    rw [List.filterMap_cons, List.map_cons]
    split
    · exact ih.cons _
    · next id hid =>
      obtain rfl : c.id = id := by simpa using (Option.ite_none_right_eq_some.mp hid).2
      exact ih.cons_cons _

theorem Sound.nodup_withEntry (h : g.Sound) (e : Entry) : (g.log.withEntry e).Nodup :=
  (h.pairwise_withEntry e).imp Nat.ne_of_lt

theorem Sound.mem_ofKind_iff (h : g.Sound) {α : Type} {project? : Kind → Option α}
    {id : ComponentId} {x : α} :
    (id, x) ∈ g.ofKind project? ↔ g.ofKind? project? id = some x := by
  simp only [ofKind, List.mem_filterMap, Option.map_eq_some_iff, Prod.mk.injEq]
  constructor
  · rintro ⟨c, hc, x, hx, rfl, rfl⟩
    obtain ⟨n, hn⟩ := List.mem_iff_getElem?.mp hc
    have hget : g.get? c.id = some c := by rw [h.id_eq n c hn]; exact hn
    rw [ofKind?, hget, Option.bind_some, hx]
  · intro hx
    obtain ⟨c, hc, hkind⟩ := Option.bind_eq_some_iff.mp hx
    obtain ⟨n, rfl, hn⟩ := exists_of_get? hc
    exact ⟨c, List.mem_of_getElem? hn, x, hkind, h.id_eq n c hn, rfl⟩

/-- **Components of one kind stand in the order of their numbers.** -/
theorem Sound.pairwise_ofKind (h : g.Sound) {α : Type} (project? : Kind → Option α) :
    (g.ofKind project?).Pairwise (·.1 < ·.1) := by
  rw [ofKind, List.pairwise_filterMap]
  refine h.pairwise_components.imp fun {c c'} hlt entry hentry entry' hentry' => ?_
  obtain ⟨x, -, rfl⟩ := Option.map_eq_some_iff.mp hentry
  obtain ⟨x', -, rfl⟩ := Option.map_eq_some_iff.mp hentry'
  exact hlt

theorem Sound.mem_withEntry_rule (h : g.Sound) {id : ComponentId} :
    id ∈ g.log.withEntry .rule ↔ ∃ r, g.ofKind? Kind.rule? id = some r := by
  simp [← rules_eq, rules, h.mem_ofKind_iff]

theorem Sound.mem_withEntry_pattern (h : g.Sound) {id rule : ComponentId} :
    id ∈ g.log.withEntry (.pattern rule) ↔
      ∃ p, g.ofKind? Kind.pattern? id = some p ∧ p.rule = rule := by
  simp [← patternsOfRule_eq, patternsOfRule, h.mem_ofKind_iff]

theorem Sound.mem_withEntry_restriction (h : g.Sound) {id pattern : ComponentId} :
    id ∈ g.log.withEntry (.restriction pattern) ↔
      ∃ r, g.ofKind? Kind.restriction? id = some r ∧ r.pattern = pattern := by
  simp [← restrictionsOfPattern_eq, restrictionsOfPattern, h.mem_ofKind_iff]

end Graph

end RuleBase

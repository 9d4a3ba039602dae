import RuleBase.Proofs.Graph.Numbered
import RuleBase.Proofs.Graph.Outline
import RuleBase.Proofs.Graph.Preorder

/-!
# Whole trees

A walk down from a component to all that is below it ends, as children are younger than their
parents. What it meets is a tree that leaves nothing out, whatever the depth it may go to. If the
graph is in reading order, the numbers increase from one component of the tree to the next one.

* `Graph.Whole`, **`Graph.Arranged.whole_treeWithin`**: trees with everything below their tops;
* `Graph.Way`, **`Graph.Whole.mem_listing_iff`**: a tree holds what its top has a way to;
* **`Graph.Whole.pairwise_id`**: numbers increase.
-/

namespace RuleBase

namespace Graph

variable {g : Graph} {t : Tree} {c : Component} {id p : ComponentId}

/-! ## One tree for each component -/

/-- All children of a component stand below it in a tree, in their order. -/
inductive Whole (g : Graph) : Tree → Prop
  | node {c : Component} {ts : List Tree} (hchildren : ts.map Tree.component = g.children c.id)
      (hts : ∀ t ∈ ts, Whole g t) : Whole g (.node c ts)

theorem Sound.mem_children_iff (h : g.Sound) :
    c ∈ g.children p ↔ g.get? c.id = some c ∧ c.parent = some p := by
  rw [children, childrenOf, List.mem_filterMap]
  constructor
  · rintro ⟨id, hid, hc⟩
    obtain ⟨c', hc', hparent⟩ := h.mem_childIds_iff.mp hid
    obtain rfl := Option.some.inj (hc.symm.trans hc')
    obtain rfl := h.id_eq_of_get? hc
    exact ⟨hc, hparent⟩
  · rintro ⟨hc, hparent⟩
    exact ⟨c.id, h.mem_childIds_iff.mpr ⟨c, hc, hparent⟩, hc⟩

theorem Sound.map_id_children (h : g.Sound) (p : ComponentId) :
    (g.children p).map (·.id) = g.childIds (some p) := by
  rw [children, childrenOf, List.map_filterMap]
  have hself : ∀ id ∈ g.childIds (some p), (g.get? id).map (·.id) = some id := by
    intro id hid
    obtain ⟨c, hc, -⟩ := h.mem_childIds_iff.mp hid
    rw [hc, Option.map_some, h.id_eq_of_get? hc]
  rw [List.filterMap_congr hself, List.filterMap_some]

/-- **A walk down from a component ends**: it cannot go deeper than there are components. -/
theorem Arranged.whole_treeWithin (h : g.Arranged) {depth : Nat} {c : Component}
    (hdepth : g.size ≤ c.id + depth) : g.Whole (g.treeWithin depth c) := by
  induction depth generalizing c with
  | zero =>
    refine .node ?_ nofun
    rw [children, childrenOf, h.childIds_of_size_le (show g.size ≤ c.id from hdepth)]
    rfl
  | succ depth ih =>
    refine .node ?_ (List.forall_mem_map.mpr fun child hchild => ih ?_)
    · rw [List.map_map]
      exact (List.map_congr_left fun _ _ => component_treeWithin ..).trans (List.map_id _)
    · have hlt : c.id < child.id := by
        refine h.lt_of_mem c.id child.id ?_
        rw [← h.map_id_children]
        exact List.mem_map_of_mem hchild
      calc g.size ≤ c.id + (depth + 1) := hdepth
        _ = c.id + 1 + depth := (Nat.add_right_comm c.id 1 depth).symm
        _ ≤ child.id + depth := Nat.add_le_add_right hlt depth

/-- Nothing depends on how deep a walk may go. -/
theorem Whole.eq_of_component_eq (h : g.Whole t) {t' : Tree} (h' : g.Whole t')
    (hc : t.component = t'.component) : t = t' := by
  induction h generalizing t' with
  | @node c ts hchildren _ ih =>
    obtain ⟨hchildren', hts'⟩ := h'
    obtain rfl : c = _ := hc
    have hsame := hchildren.trans hchildren'.symm
    refine congrArg (Tree.node c) (List.ext_getElem ?_ fun n hn hn' => ?_)
    · simpa using congrArg List.length hsame
    · exact ih _ (List.getElem_mem hn) (hts' _ (List.getElem_mem hn'))
        (by simpa [hn, hn'] using congrArg (·[n]?) hsame)

/-! ## What is below the top -/

mutual
/-- The components below the top of a tree in reading order. Each comes with the way to it, which
tells of every step down if it goes to the last child; `way` is the one to the top. -/
def Tree.listing (way : List Bool) : Tree → List (List Bool × Component)
  | .node _ ts => listingAll way ts

/-- The components in the trees below a component. -/
def listingAll (way : List Bool) : List Tree → List (List Bool × Component)
  | [] => []
  | t :: rest =>
    (way ++ [rest.isEmpty], t.component) ::
      (t.listing (way ++ [rest.isEmpty]) ++ listingAll way rest)
end

/-- A component is the last child of another one. -/
def isLast (g : Graph) (p id : ComponentId) : Bool := (g.childIds (some p)).getLast? == some id

/-- The way from a component down to another one: if the components on it are last children. -/
inductive Way (g : Graph) : ComponentId → List Bool → ComponentId → Prop
  | child {p id : ComponentId} (h : g.parentOf? id = some p) : Way g p [g.isLast p id] id
  | deeper {p child id : ComponentId} {way : List Bool} (h : g.parentOf? child = some p)
      (hway : Way g child way id) : Way g p (g.isLast p child :: way) id

theorem Way.ne_nil {way : List Bool} (h : g.Way p way id) : way ≠ [] := by
  cases h <;> exact List.cons_ne_nil _ _

theorem exists_way_iff :
    (∃ way, g.Way p way id) ↔ Relation.TransGen (fun p id => g.parentOf? id = some p) p id := by
  constructor
  · rintro ⟨way, hway⟩
    induction hway with
    | child h => exact .single h
    | deeper h _ ih => exact .head h ih
  · intro h
    induction h using Relation.TransGen.head_induction_on with
    | single h => exact ⟨_, .child h⟩
    | head h _ ih =>
      obtain ⟨way, hway⟩ := ih
      exact ⟨_, .deeper h hway⟩

theorem mem_listingAll_iff {way : List Bool} {ts : List Tree} {e : List Bool × Component} :
    e ∈ listingAll way ts ↔ ∃ before t rest, ts = before ++ t :: rest ∧
      (e = (way ++ [rest.isEmpty], t.component) ∨ e ∈ t.listing (way ++ [rest.isEmpty])) := by
  induction ts with
  | nil => simp [listingAll]
  | cons t ts ih =>
    rw [listingAll, List.mem_cons, List.mem_append, ih]
    constructor
    · rintro (he | he | ⟨before, t', rest, rfl, he⟩)
      · exact ⟨[], t, ts, rfl, .inl he⟩
      · exact ⟨[], t, ts, rfl, .inr he⟩
      · exact ⟨t :: before, t', rest, rfl, he⟩
    · rintro ⟨before, t', rest, hts, he⟩
      cases before with
      | nil =>
        cases hts
        exact he.imp_right .inl
      | cons _ before =>
        cases hts
        exact .inr (.inr ⟨before, t', rest, rfl, he⟩)

section Sound

variable (hsound : g.Sound)
include hsound

theorem isLast_of_children {before rest : List Tree}
    (hchildren : (before ++ t :: rest).map Tree.component = g.children p) :
    g.isLast p t.component.id = rest.isEmpty := by
  have hids : g.childIds (some p) =
      before.map (·.component.id) ++ t.component.id :: rest.map (·.component.id) := by
    rw [← hsound.map_id_children, ← hchildren]
    simp [Function.comp_def]
  have hsorted : (g.childIds (some p)).Pairwise (· < ·) := hsound.pairwise_childIds _
  rw [isLast, hids]
  rw [hids, List.pairwise_append, List.pairwise_cons] at hsorted
  cases hlast : rest.getLast? with
  | none =>
    obtain rfl := List.getLast?_eq_none_iff.mp hlast
    simp
  | some last =>
    have hmem := List.mem_of_getLast? hlast
    have hlt : t.component.id < last.component.id :=
      hsorted.2.1.1 _ (List.mem_map_of_mem hmem)
    have hne : rest ≠ [] := List.ne_nil_of_mem hmem
    simp [List.getLast?_cons, hlast, List.isEmpty_eq_false_iff.mpr hne, Nat.ne_of_gt hlt]

/-- What a tree holds below its top is what there is a way to. -/
theorem Whole.mem_listing (h : g.Whole t) {way way' : List Bool} {d : Component}
    (hd : (way', d) ∈ t.listing way) :
    g.get? d.id = some d ∧ ∃ down, way' = way ++ down ∧ g.Way t.component.id down d.id := by
  induction h generalizing way with
  | @node c ts hchildren hts ih =>
    obtain ⟨before, t, rest, rfl, hmem⟩ := mem_listingAll_iff.mp hd
    have hlast := isLast_of_children hsound hchildren
    have hmemt : t ∈ before ++ t :: rest := by simp
    obtain ⟨hget, hparent⟩ : g.get? t.component.id = some t.component ∧
        t.component.parent = some c.id := by
      rw [← hsound.mem_children_iff, ← hchildren]
      exact List.mem_map_of_mem hmemt
    have hstep : g.parentOf? t.component.id = some c.id := by
      rw [parentOf?, hget, Option.bind_some, hparent]
    rcases hmem with hself | hlower
    · cases hself
      exact ⟨hget, [rest.isEmpty], rfl, hlast ▸ .child hstep⟩
    · obtain ⟨hgetd, down, rfl, hdown⟩ := ih t hmemt hlower
      exact ⟨hgetd, rest.isEmpty :: down, by simp, hlast ▸ .deeper hstep hdown⟩

theorem Whole.exists_child (h : g.Whole t) (hparent : g.parentOf? id = some t.component.id) :
    ∃ t', g.Whole t' ∧ t'.component.id = id ∧ g.get? id = some t'.component ∧
      ∀ way e, (e = (way ++ [g.isLast t.component.id id], t'.component) ∨
        e ∈ t'.listing (way ++ [g.isLast t.component.id id])) → e ∈ t.listing way := by
  obtain @⟨c, ts, hchildren, hts⟩ := h
  obtain ⟨child, hget, hp⟩ := Option.bind_eq_some_iff.mp hparent
  obtain rfl := hsound.id_eq_of_get? hget
  have hmem : child ∈ ts.map Tree.component := by
    rw [hchildren]
    exact hsound.mem_children_iff.mpr ⟨hget, hp⟩
  obtain ⟨t', ht', rfl⟩ := List.mem_map.mp hmem
  obtain ⟨before, rest, rfl⟩ := List.append_of_mem ht'
  refine ⟨t', hts t' ht', rfl, hget, fun way e he => ?_⟩
  refine mem_listingAll_iff.mpr ⟨before, t', rest, rfl, ?_⟩
  rwa [← isLast_of_children hsound hchildren]

theorem Whole.mem_listing_of_way {start : ComponentId} {down : List Bool}
    (hway : g.Way start down id) (h : g.Whole t) (hstart : t.component.id = start) {d : Component}
    (hd : g.get? id = some d) (way : List Bool) : (way ++ down, d) ∈ t.listing way := by
  induction hway generalizing t way with
  | child hparent =>
    subst hstart
    obtain ⟨t', -, -, hget, hbelow⟩ := h.exists_child hsound hparent
    refine hbelow way _ (.inl ?_)
    rw [Option.some.inj (hd.symm.trans hget)]
  | @deeper _ child _ _ hparent _ ih =>
    subst hstart
    obtain ⟨t', ht', hid, -, hbelow⟩ := h.exists_child hsound hparent
    refine hbelow way _ (.inr ?_)
    have hlower := ih ht' hid hd (way ++ [g.isLast t.component.id child])
    rwa [List.append_assoc] at hlower

/-- **A tree holds what its top has a way to**, each with that way. -/
theorem Whole.mem_listing_iff (h : g.Whole t) {way : List Bool} {d : Component} :
    (way, d) ∈ t.listing [] ↔ g.get? d.id = some d ∧ g.Way t.component.id way d.id := by
  constructor
  · intro hd
    obtain ⟨hget, down, rfl, hway⟩ := h.mem_listing hsound hd
    exact ⟨hget, hway⟩
  · rintro ⟨hget, hway⟩
    exact h.mem_listing_of_way hsound hway rfl hget []

end Sound

/-! ## Increasing numbers -/

section Ordered

variable (harranged : g.Arranged)
  (hsiblings : ∀ p older younger id, g.parentOf? older = some p → g.parentOf? younger = some p →
    older < younger → AtOrBelow g.parentOf? older id → id < younger)
include harranged

theorem Arranged.lt_of_parentOf? (hparent : g.parentOf? id = some p) : p < id := by
  obtain ⟨c, hc, hp⟩ := Option.bind_eq_some_iff.mp hparent
  exact harranged.lt_of_mem p id (harranged.mem_childIds_iff.mpr ⟨c, hc, hp⟩)

theorem Way.lt {way : List Bool} (h : g.Way p way id) : p < id := by
  induction h with
  | child hparent => exact harranged.lt_of_parentOf? hparent
  | deeper hparent _ ih => exact Nat.lt_trans (harranged.lt_of_parentOf? hparent) ih

theorem Whole.lt_of_mem_listing (h : g.Whole t) {way : List Bool} {e : List Bool × Component}
    (he : e ∈ t.listing way) : t.component.id < e.2.id := by
  obtain ⟨-, down, -, hway⟩ := h.mem_listing harranged.toSound he
  exact hway.lt harranged

include hsiblings

theorem pairwise_listingAll {ts : List Tree} (hts : ∀ t ∈ ts, g.Whole t)
    (hparent : ∀ t ∈ ts, g.parentOf? t.component.id = some p)
    (hsorted : (ts.map (·.component.id)).Pairwise (· < ·)) (way : List Bool)
    (ih : ∀ t ∈ ts, ∀ way, ((t.listing way).map (·.2.id)).Pairwise (· < ·)) :
    ((listingAll way ts).map (·.2.id)).Pairwise (· < ·) := by
  induction ts with
  | nil => exact .nil
  | cons t rest ihrest =>
    obtain ⟨ht, hrest⟩ := List.forall_mem_cons.mp hts
    obtain ⟨htop, htops⟩ := List.forall_mem_cons.mp hparent
    obtain ⟨hfirst, hsorted⟩ := List.pairwise_cons.mp hsorted
    obtain ⟨iht, ih⟩ := List.forall_mem_cons.mp ih
    -- everything in the other trees is younger than everything in the first one
    have hyounger : ∀ e ∈ listingAll way rest, ∀ id, AtOrBelow g.parentOf? t.component.id id →
        id < e.2.id := by
      intro e he id hid
      obtain ⟨before, t', rest', rfl, hmem⟩ := mem_listingAll_iff.mp he
      have hmem' : t' ∈ before ++ t' :: rest' := by simp
      have hbefore : id < t'.component.id :=
        hsiblings p _ _ id htop (htops t' hmem') (hfirst _ (List.mem_map_of_mem hmem')) hid
      rcases hmem with rfl | hlower
      · exact hbefore
      · exact Nat.lt_trans hbefore ((hrest t' hmem').lt_of_mem_listing harranged hlower)
    rw [listingAll, List.map_cons, List.map_append, List.pairwise_cons, List.pairwise_append]
    refine ⟨?_, iht _, ihrest hrest htops hsorted ih, ?_⟩
    · simp only [List.mem_append, List.mem_map]
      rintro _ (⟨e, he, rfl⟩ | ⟨e, he, rfl⟩)
      · exact ht.lt_of_mem_listing harranged he
      · exact hyounger e he _ .refl
    · simp only [List.mem_map]
      rintro _ ⟨e, he, rfl⟩ _ ⟨e', he', rfl⟩
      obtain ⟨-, down, -, hway⟩ := ht.mem_listing harranged.toSound he
      exact hyounger e' he' _ (exists_way_iff.mp ⟨down, hway⟩).to_reflTransGen

/-- **The numbers in a tree increase** if those of siblings keep what is below them apart. -/
theorem Whole.pairwise_id (h : g.Whole t) (way : List Bool) :
    (t.component.id :: (t.listing way).map (·.2.id)).Pairwise (· < ·) := by
  refine List.pairwise_cons.mpr ⟨?_, ?_⟩
  · rw [List.forall_mem_map]
    exact fun e he => h.lt_of_mem_listing harranged he
  · induction h generalizing way with
    | @node c ts hchildren hts ih =>
      have hids : ts.map (·.component.id) = g.childIds (some c.id) := by
        rw [← harranged.map_id_children, ← hchildren, List.map_map]
        rfl
      refine pairwise_listingAll harranged hsiblings hts (p := c.id) (fun t ht => ?_) ?_ way ih
      · obtain ⟨hget, hp⟩ := harranged.mem_children_iff.mp (hchildren ▸ List.mem_map_of_mem ht)
        rw [parentOf?, hget, Option.bind_some, hp]
      · rw [hids]
        exact harranged.pairwise_childIds _

end Ordered

end Graph

end RuleBase

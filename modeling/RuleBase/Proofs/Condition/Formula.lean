import Mathlib.Data.List.Basic
import RuleBase.Condition.Group

/-!
# Formulas over items

What a condition comes to once its items are numbered: items, groups under a connective, lists that
stand for their parts, and items drawn from an input. What such a formula admits is defined here
without scopes, by recursion on the formula.

* `choices`, `resolve`: the alternatives of a connective as they are meant;
* **`combine_eq_resolve`**: they are the ones that groups come to;
* `Formula.Contributes`: whatever is computed along formulas as their children are;
* `Formula.children_map`, **`Formula.map_resolve_children`**: other items and alternatives.
-/

namespace RuleBase.Condition

variable {α ι κ : Type}

/-! ## Alternatives of a connective -/

/-- The lists with one member of each list; the choice from the last list varies fastest. -/
def choices : List (List α) → List (List α)
  | [] => [[]]
  | l :: rest => l.flatMap fun a => (choices rest).map (a :: ·)

/-- The alternatives of a connective: for a conjunction one alternative of each child, joined from
left to right; for a disjunction those of all children; without children the empty conjunction. -/
def resolve : Connective → List (Alternatives α) → Alternatives α
  | _, [] => [[]]
  | .and, children => (choices children).map List.flatten
  | .or, children => children.flatten

theorem foldl_both (children : List (Alternatives α)) (left : Alternatives α) :
    children.foldl both left =
      left.flatMap fun l => (choices children).map fun choice => l ++ choice.flatten := by
  induction children generalizing left with
  | nil => simp [choices]
  | cons child rest ih =>
    rw [List.foldl_cons, ih]
    simp only [both, choices, List.flatMap_assoc, List.flatMap_map, List.map_flatMap, List.map_map]
    refine List.flatMap_congr fun l _ => List.flatMap_congr fun r _ => ?_
    refine List.map_congr_left fun choice _ => ?_
    simp

/-- **Groups come to the alternatives of their connective.** -/
theorem combine_eq_resolve (connective : Connective) (children : List (Alternatives α)) :
    combine connective children = resolve connective children := by
  cases children with
  | nil => cases connective <;> rfl
  | cons child rest =>
    cases connective with
    | and =>
      change (child :: rest).foldl both [[]] = (choices (child :: rest)).map List.flatten
      rw [foldl_both]
      simp
    | or => rfl

/-! ## Formulas -/

/-- A condition over items. -/
inductive Formula (ι : Type) where
  | item (i : ι)
  | group (connective : Connective) (parts : List (Formula ι))
  /-- Parts that stand side by side, whatever is around them. -/
  | list (parts : List (Formula ι))
  /-- An item that is drawn from what another formula asks for. -/
  | drawn (i : ι) (input : Formula ι)

namespace Formula

@[elab_as_elim, induction_eliminator]
theorem induction {P : Formula ι → Prop} (item : ∀ i, P (item i))
    (group : ∀ connective parts, (∀ t ∈ parts, P t) → P (group connective parts))
    (list : ∀ parts, (∀ t ∈ parts, P t) → P (list parts))
    (drawn : ∀ i input, P input → P (drawn i input)) : ∀ t, P t
  | .item i => item i
  | .group connective parts =>
    group connective parts fun t _ => induction item group list drawn t
  | .list parts => list parts fun t _ => induction item group list drawn t
  | .drawn i input => drawn i input (induction item group list drawn input)

/-- The items of a formula in reading order; one that is drawn comes before its input. -/
def items : Formula ι → List ι
  | item i => [i]
  | group _ parts => parts.flatMap items
  | list parts => parts.flatMap items
  | drawn i input => i :: input.items

/-- An item, drawn from an input if there is one. -/
def drawnFrom (i : ι) : Option (Formula ι) → Formula ι
  | none => item i
  | some input => drawn i input

/-- The formula with other items. -/
def map (f : ι → κ) : Formula ι → Formula κ
  | item i => item (f i)
  | group connective parts => group connective (parts.map (map f))
  | list parts => list (parts.map (map f))
  | drawn i input => drawn (f i) (input.map f)

/-- What a formula contributes to the group around it, if an item contributes one child: a group is
one child, a list contributes what its parts do, and an item comes after its input. -/
def children (child : ι → Alternatives κ) : Formula ι → List (Alternatives κ)
  | item i => [child i]
  | group connective parts => [resolve connective (parts.flatMap (children child))]
  | list parts => parts.flatMap (children child)
  | drawn i input => input.children child ++ [child i]

theorem items_drawnFrom (i : ι) (input : Option (Formula ι)) :
    (drawnFrom i input).items = i :: input.toList.flatMap items := by
  cases input <;> simp [drawnFrom, items]

theorem map_drawnFrom (f : ι → κ) (i : ι) (input : Option (Formula ι)) :
    (drawnFrom i input).map f = drawnFrom (f i) (input.map (map f)) := by
  cases input <;> simp [drawnFrom, map]

theorem items_map (f : ι → κ) (t : Formula ι) : (t.map f).items = t.items.map f := by
  induction t with
  | item i => simp [map, items]
  | group connective parts ih =>
    simp only [map, items, List.flatMap_map, List.map_flatMap]
    exact List.flatMap_congr ih
  | list parts ih =>
    simp only [map, items, List.flatMap_map, List.map_flatMap]
    exact List.flatMap_congr ih
  | drawn i input ih => simp [map, items, ih]

theorem map_map (f : ι → κ) (g : κ → α) (t : Formula ι) :
    (t.map f).map g = t.map fun i => g (f i) := by
  induction t with
  | item i => simp [map]
  | group connective parts ih =>
    simp only [map, List.map_map]
    exact congrArg _ (List.map_congr_left ih)
  | list parts ih =>
    simp only [map, List.map_map]
    exact congrArg _ (List.map_congr_left ih)
  | drawn i input ih => simp [map, ih]

/-! ## Contributions -/

/-- A group of formulas gets one contribution of each item, and those of a group together are made
into one. -/
structure Contributes (ofItem : ι → α) (ofGroup : Connective → List α → α)
    (f : Formula ι → List α) : Prop where
  item : ∀ i, f (.item i) = [ofItem i]
  group : ∀ connective parts, f (.group connective parts) = [ofGroup connective (parts.flatMap f)]
  list : ∀ parts, f (.list parts) = parts.flatMap f
  drawn : ∀ i input, f (.drawn i input) = f input ++ [ofItem i]

namespace Contributes

variable {β : Type} {ofItem ofItem' : ι → α} {ofGroup : Connective → List α → α}
  {f f' : Formula ι → List α}

theorem drawnFrom (h : Contributes ofItem ofGroup f) (i : ι) (input : Option (Formula ι)) :
    f (Formula.drawnFrom i input) = input.toList.flatMap f ++ [ofItem i] := by
  cases input <;> simp [Formula.drawnFrom, h.item, h.drawn]

theorem congr (h : Contributes ofItem ofGroup f) (h' : Contributes ofItem' ofGroup f')
    {t : Formula ι} (hitems : ∀ i ∈ t.items, ofItem i = ofItem' i) : f t = f' t := by
  induction t with
  | item i => rw [h.item, h'.item, hitems i (by simp [items])]
  | group connective parts ih =>
    rw [h.group, h'.group, List.flatMap_congr fun t ht => ih t ht fun i hi =>
      hitems i (by simpa [items] using ⟨t, ht, hi⟩)]
  | list parts ih =>
    rw [h.list, h'.list, List.flatMap_congr fun t ht => ih t ht fun i hi =>
      hitems i (by simpa [items] using ⟨t, ht, hi⟩)]
  | drawn i input ih =>
    simp only [items, List.mem_cons, forall_eq_or_imp] at hitems
    rw [h.drawn, h'.drawn, hitems.1, ih hitems.2]

theorem comp {g : κ → ι} {f' : Formula κ → List α} (h : Contributes ofItem ofGroup f)
    (h' : Contributes (fun k => ofItem (g k)) ofGroup f') (t : Formula κ) :
    f (t.map g) = f' t := by
  induction t with
  | item k => rw [Formula.map, h.item, h'.item]
  | group connective parts ih =>
    rw [Formula.map, h.group, h'.group, List.flatMap_map, List.flatMap_congr ih]
  | list parts ih => rw [Formula.map, h.list, h'.list, List.flatMap_map, List.flatMap_congr ih]
  | drawn k input ih => rw [Formula.map, h.drawn, h'.drawn, ih]

/-- What respects groups turns contributions into others. -/
theorem map_eq {m : α → β} {ofGroup' : Connective → List β → β} {f' : Formula ι → List β}
    (h : Contributes ofItem ofGroup f) (h' : Contributes (fun i => m (ofItem i)) ofGroup' f')
    (hm : ∀ connective l, m (ofGroup connective l) = ofGroup' connective (l.map m))
    (t : Formula ι) : (f t).map m = f' t := by
  induction t with
  | item i => rw [h.item, h'.item, List.map_singleton]
  | group connective parts ih =>
    rw [h.group, h'.group, List.map_singleton, hm, List.map_flatMap, List.flatMap_congr ih]
  | list parts ih => rw [h.list, h'.list, List.map_flatMap, List.flatMap_congr ih]
  | drawn i input ih => rw [h.drawn, h'.drawn, List.map_append, ih, List.map_singleton]

theorem forall_mem (h : Contributes ofItem ofGroup f) {P : α → Prop}
    (hgroup : ∀ connective l, (∀ x ∈ l, P x) → P (ofGroup connective l)) {t : Formula ι}
    (hitems : ∀ i ∈ t.items, P (ofItem i)) : ∀ x ∈ f t, P x := by
  have hparts : ∀ parts : List (Formula ι),
      (∀ t ∈ parts, (∀ i ∈ t.items, P (ofItem i)) → ∀ x ∈ f t, P x) →
        (∀ i ∈ parts.flatMap items, P (ofItem i)) → ∀ x ∈ parts.flatMap f, P x := by
    intro parts ih hitems x hx
    obtain ⟨t, ht, hx⟩ := List.mem_flatMap.mp hx
    exact ih t ht (fun i hi => hitems i (List.mem_flatMap.mpr ⟨t, ht, hi⟩)) x hx
  induction t with
  | item i => simpa [h.item, items] using hitems
  | group connective parts ih =>
    rw [items] at hitems
    simpa [h.group] using hgroup connective _ (hparts parts ih hitems)
  | list parts ih =>
    rw [items] at hitems
    rw [h.list]
    exact hparts parts ih hitems
  | drawn i input ih =>
    rw [items, List.forall_mem_cons] at hitems
    rw [h.drawn, List.forall_mem_append]
    exact ⟨ih hitems.2, by simpa using hitems.1⟩

end Contributes

theorem contributes_children (child : ι → Alternatives κ) :
    Contributes child resolve (children child) where
  item _ := by rw [children]
  group _ _ := by rw [children]
  list _ := by rw [children]
  drawn _ _ := by rw [children]

theorem children_drawnFrom (child : ι → Alternatives κ) (i : ι) (input : Option (Formula ι)) :
    (drawnFrom i input).children child = input.toList.flatMap (children child) ++ [child i] :=
  (contributes_children child).drawnFrom i input

theorem children_congr {child child' : ι → Alternatives κ} {t : Formula ι}
    (h : ∀ i ∈ t.items, child i = child' i) : t.children child = t.children child' :=
  (contributes_children child).congr (contributes_children child') h

theorem children_map (f : ι → κ) (child : κ → Alternatives α) (t : Formula ι) :
    (t.map f).children child = t.children fun i => child (f i) :=
  (contributes_children child).comp (contributes_children _) t

end Formula

/-! ## Alternatives of other things -/

section Map

variable (f : κ → α)

theorem map_choices {β : Type} (f : α → β) (l : List (List α)) :
    (choices l).map (List.map f) = choices (l.map (List.map f)) := by
  induction l with
  | nil => rfl
  | cons first rest ih =>
    simp only [choices, List.map_cons, List.map_flatMap, List.flatMap_map, List.map_map, ← ih]
    exact List.flatMap_congr fun a _ => List.map_congr_left fun choice _ => rfl

theorem map_resolve (connective : Connective) (children : List (Alternatives κ)) :
    (resolve connective children).map (List.map f) =
      resolve connective (children.map (List.map (List.map f))) := by
  cases children with
  | nil => simp [resolve]
  | cons child rest =>
    cases connective with
    | and =>
      simp only [resolve, List.map_cons]
      rw [← List.map_cons, ← map_choices, List.map_map, List.map_map]
      exact List.map_congr_left fun choice _ => List.map_flatten.trans rfl
    | or => simp [resolve, List.map_flatten]

theorem Formula.map_children (child : ι → Alternatives κ) (t : Formula ι) :
    (t.children child).map (List.map (List.map f)) =
      t.children fun i => (child i).map (List.map f) :=
  (contributes_children child).map_eq (contributes_children _) (map_resolve f) t

theorem Formula.map_resolve_children (child : ι → Alternatives κ) (parts : List (Formula ι)) :
    (resolve .and (parts.flatMap (children child))).map (List.map f) =
      resolve .and (parts.flatMap (children fun i => (child i).map (List.map f))) := by
  rw [map_resolve, List.map_flatMap]
  exact congrArg _ (List.flatMap_congr fun t _ => t.map_children f child)

end Map

end RuleBase.Condition

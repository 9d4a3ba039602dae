import Mathlib.Algebra.BigOperators.Group.List.Lemmas
import Mathlib.Algebra.Order.BigOperators.Group.List
import Mathlib.Algebra.Order.BigOperators.GroupWithZero.List
import Mathlib.Algebra.Order.Ring.Nat
import RuleBase.Proofs.Condition.Formula

/-!
# How many alternatives there are

The alternatives of a formula need not be made to be counted: the sizes of the children of a group
are enough. As long as no child is without alternatives, a group never has fewer of them than one of
its children, so what fits as a whole fits in every part.

* **`count_eq`**: groups are counted right, up to the ceiling.
-/

namespace RuleBase.Condition

variable {α ι κ : Type}

/-! ## Groups -/

/-- How many alternatives a connective has over children of the given sizes. -/
def ways : Connective → List Nat → Nat
  | _, [] => 1
  | .and, sizes => sizes.prod
  | .or, sizes => sizes.sum

theorem length_choices (lists : List (List α)) :
    (choices lists).length = (lists.map List.length).prod := by
  induction lists with
  | nil => rfl
  | cons l rest ih => simp [choices, List.length_flatMap, ih]

theorem length_resolve (connective : Connective) (children : List (Alternatives α)) :
    (resolve connective children).length = ways connective (children.map List.length) := by
  cases children with
  | nil => cases connective <;> rfl
  | cons child rest =>
    cases connective with
    | and => simp only [resolve, List.length_map, length_choices, ways, List.map_cons]
    | or => simp only [resolve, List.length_flatten, ways, List.map_cons]

/-- Stopping at a ceiling early or late is the same for products. -/
theorem min_min_mul (a m c : Nat) : min (min a c * m) c = min (a * m) c := by
  by_cases ha : a ≤ c
  · rw [Nat.min_eq_left ha]
  · cases m with
    | zero => simp
    | succ m =>
      have hca : c ≤ a := Nat.le_of_not_le ha
      have hc : c ≤ c * (m + 1) := Nat.le_mul_of_pos_right c (Nat.succ_pos m)
      have hac : c * (m + 1) ≤ a * (m + 1) := Nat.mul_le_mul_right _ hca
      rw [Nat.min_eq_right hca]
      omega

theorem foldl_mul_ceiling (children : List (Alternatives α)) (a : Nat) :
    children.foldl (fun n child => min (n * child.length) countCeiling) (min a countCeiling) =
      min (a * (children.map List.length).prod) countCeiling := by
  induction children generalizing a with
  | nil => simp
  | cons child rest ih =>
    rw [List.foldl_cons, min_min_mul, ih, List.map_cons, List.prod_cons, Nat.mul_assoc]

theorem foldl_add_ceiling (children : List (Alternatives α)) (a : Nat) :
    children.foldl (fun n child => min (n + child.length) countCeiling) (min a countCeiling) =
      min (a + (children.map List.length).sum) countCeiling := by
  induction children generalizing a with
  | nil => simp
  | cons child rest ih =>
    have hstep : min (min a countCeiling + child.length) countCeiling =
        min (a + child.length) countCeiling := by omega
    rw [List.foldl_cons, hstep, ih, List.map_cons, List.sum_cons, Nat.add_assoc]

/-- **Groups are counted right**, up to the ceiling. -/
theorem count_eq (connective : Connective) (children : List (Alternatives α)) :
    count connective children = min (ways connective (children.map List.length)) countCeiling := by
  cases children with
  | nil => cases connective <;> rfl
  | cons child rest =>
    cases connective with
    | and =>
      have h := foldl_mul_ceiling (child :: rest) 1
      rw [Nat.one_mul] at h
      exact h
    | or =>
      have h := foldl_add_ceiling (child :: rest) 0
      rw [Nat.zero_add] at h
      exact h

theorem ways_pos (connective : Connective) {sizes : List Nat} (h : ∀ n ∈ sizes, 0 < n) :
    0 < ways connective sizes := by
  cases sizes with
  | nil => cases connective <;> exact Nat.one_pos
  | cons n rest =>
    cases connective with
    | and => exact List.prod_pos h
    | or =>
      exact Nat.lt_of_lt_of_le (h n List.mem_cons_self) (List.le_sum_of_mem List.mem_cons_self)

/-- **A group has no fewer alternatives than each of its children**, if all of them have some. -/
theorem le_ways (connective : Connective) {sizes : List Nat} (h : ∀ n ∈ sizes, 0 < n) {n : Nat}
    (hn : n ∈ sizes) : n ≤ ways connective sizes := by
  cases sizes with
  | nil => cases hn
  | cons m rest =>
    cases connective with
    | and => exact Nat.le_of_dvd (ways_pos .and h) (List.dvd_prod hn)
    | or => exact List.le_sum_of_mem hn

namespace Formula

/-- The sizes of the children that a formula contributes to the group around it, if an item
contributes one child of the given size. -/
def sizes (size : ι → Nat) : Formula ι → List Nat
  | item i => [size i]
  | group connective parts => [ways connective (parts.flatMap (sizes size))]
  | list parts => parts.flatMap (sizes size)
  | drawn i input => input.sizes size ++ [size i]

theorem contributes_sizes (size : ι → Nat) : Contributes size ways (sizes size) where
  item _ := by rw [sizes]
  group _ _ := by rw [sizes]
  list _ := by rw [sizes]
  drawn _ _ := by rw [sizes]

theorem sizes_drawnFrom (size : ι → Nat) (i : ι) (input : Option (Formula ι)) :
    (drawnFrom i input).sizes size = input.toList.flatMap (sizes size) ++ [size i] :=
  (contributes_sizes size).drawnFrom i input

theorem map_length_children (child : ι → Alternatives κ) (t : Formula ι) :
    (t.children child).map List.length = t.sizes fun i => (child i).length :=
  (contributes_children child).map_eq (contributes_sizes _) length_resolve t

theorem sizes_map (f : ι → κ) (size : κ → Nat) (t : Formula ι) :
    (t.map f).sizes size = t.sizes fun i => size (f i) :=
  (contributes_sizes size).comp (contributes_sizes _) t

theorem sizes_congr {size size' : ι → Nat} {t : Formula ι}
    (h : ∀ i ∈ t.items, size i = size' i) : t.sizes size = t.sizes size' :=
  (contributes_sizes size).congr (contributes_sizes size') h

theorem sizes_pos {size : ι → Nat} (h : ∀ i, 0 < size i) (t : Formula ι) :
    ∀ n ∈ t.sizes size, 0 < n :=
  (contributes_sizes size).forall_mem (fun connective _ => ways_pos connective) fun i _ => h i

theorem length_resolve_children (connective : Connective) (child : ι → Alternatives κ)
    (ts : List (Formula ι)) :
    (resolve connective (ts.flatMap (children child))).length =
      ways connective (ts.flatMap (sizes fun i => (child i).length)) := by
  rw [length_resolve, List.map_flatMap]
  exact congrArg _ (List.flatMap_congr fun t _ => map_length_children child t)

end Formula

end RuleBase.Condition

import RuleBase.Proofs.Condition.Open

/-!
# Places of alternatives

The alternatives of a conjunction stand in the order of the choices that they come from. So the
place of an alternative tells what it takes of each child: written in mixed radix, with the sizes of
the children as the radices, its digits are the places of the parts. The last digit varies fastest.

* `getElem?_flatMap_of_length`, **`getElem?_choices`**: what stands at the place of a choice;
* **`Group.count_places`**: how many alternatives a group has, and which one stands where.
-/

namespace RuleBase.Condition

variable {α β : Type}

/-! ## Mixed radix -/

/-- The digits of a number in mixed radix; each counts for the product of the radices behind it. -/
def digits : List Nat → Nat → List Nat
  | [], _ => []
  | _ :: radices, n => n / radices.prod :: digits radices (n % radices.prod)

/-- The number with the given digits. -/
def ofDigits : List Nat → List Nat → Nat
  | _ :: radices, d :: ds => d * radices.prod + ofDigits radices ds
  | _, _ => 0

theorem digits_lt {radices : List Nat} {n : Nat} (h : n < radices.prod) :
    List.Forall₂ (· < ·) (digits radices n) radices := by
  induction radices generalizing n with
  | nil => exact .nil
  | cons r radices ih =>
    rw [List.prod_cons] at h
    have hpos : 0 < radices.prod := Nat.pos_of_lt_mul_left h
    exact .cons ((Nat.div_lt_iff_lt_mul hpos).mpr h) (ih (Nat.mod_lt n hpos))

theorem ofDigits_digits {radices : List Nat} {n : Nat} (h : n < radices.prod) :
    ofDigits radices (digits radices n) = n := by
  induction radices generalizing n with
  | nil =>
    rw [List.prod_nil, Nat.lt_one_iff] at h
    exact h.symm
  | cons r radices ih =>
    rw [List.prod_cons] at h
    rw [digits, ofDigits, ih (Nat.mod_lt n (Nat.pos_of_lt_mul_left h))]
    exact Nat.div_add_mod' n radices.prod

/-! ## Choices -/

/-- One member of each list, given by their places. -/
def pick : List (List α) → List Nat → Option (List α)
  | [], [] => some []
  | l :: lists, d :: ds => do
    let a ← l[d]?
    let rest ← pick lists ds
    return a :: rest
  | _, _ => none

/-- What stands in one of several lists of the same length, which are joined. -/
theorem getElem?_flatMap_of_length {f : α → List β} {m : Nat} (hm : 0 < m) {l : List α}
    (h : ∀ a ∈ l, (f a).length = m) (n : Nat) :
    (l.flatMap f)[n]? = l[n / m]?.bind fun a => (f a)[n % m]? := by
  induction l generalizing n with
  | nil => rfl
  | cons a l ih =>
    have hfirst : (f a).length = m := h a List.mem_cons_self
    rw [List.flatMap_cons, List.getElem?_append, hfirst]
    obtain hlt | hle := Nat.lt_or_ge n m
    · rw [if_pos hlt, Nat.div_eq_of_lt hlt, Nat.mod_eq_of_lt hlt]
      rfl
    · obtain ⟨k, rfl⟩ := Nat.exists_eq_add_of_le' hle
      rw [if_neg (Nat.not_lt.mpr hle), Nat.add_sub_cancel, Nat.add_div_right k hm,
        Nat.add_mod_right, List.getElem?_cons_succ]
      exact ih (fun b hb => h b (List.mem_cons_of_mem a hb)) k

/-- **The choice at a place** takes what the digits of the place lead to. -/
theorem getElem?_choices {lists : List (List α)} {n : Nat}
    (h : n < (lists.map List.length).prod) :
    (choices lists)[n]? = pick lists (digits (lists.map List.length) n) := by
  induction lists generalizing n with
  | nil =>
    rw [List.map_nil, List.prod_nil, Nat.lt_one_iff] at h
    rw [h]
    rfl
  | cons l rest ih =>
    rw [List.map_cons, List.prod_cons] at h
    have hpos : 0 < (rest.map List.length).prod := Nat.pos_of_lt_mul_left h
    have hlength : ∀ a ∈ l, ((choices rest).map (a :: ·)).length = (rest.map List.length).prod :=
      fun a _ => by rw [List.length_map, length_choices]
    rw [choices, getElem?_flatMap_of_length hpos hlength, List.map_cons, digits, pick]
    simp only [List.getElem?_map, ih (Nat.mod_lt n hpos)]
    cases l[n / (rest.map List.length).prod]? with
    | none => rfl
    | some a => exact Option.map_eq_bind

/-! ## Groups -/

/-- How many alternatives each child of a group has. -/
def Group.sizes (g : Group α) : List Nat := g.children.map List.length

/-- **A group is counted right, and its places tell what stands there**: its count is the number of
its alternatives, as far as a word of 64 bits goes, and of a conjunction, the alternative at a place
joins those alternatives of the children that the digits of the place lead to. -/
theorem Group.count_places (g : Group α) :
    g.count = min (2 ^ 64 - 1) g.combined.length ∧
      (g.connective = .and → ∀ n < g.combined.length,
        g.combined[n]? = (pick g.children (digits g.sizes n)).map List.flatten ∧
          List.Forall₂ (· < ·) (digits g.sizes n) g.sizes ∧
          ofDigits g.sizes (digits g.sizes n) = n) := by
  refine ⟨?_, fun hand n hn => ?_⟩
  · rw [count_group, length_combined, Nat.min_comm]
    rfl
  · have hcombined : g.combined = (choices g.children).map List.flatten := by
      rw [Group.combined, combine_eq_resolve, hand]
      cases g.children <;> rfl
    have hplace : n < g.sizes.prod := by
      rwa [hcombined, List.length_map, length_choices] at hn
    refine ⟨?_, digits_lt hplace, ofDigits_digits hplace⟩
    rw [hcombined, List.getElem?_map, getElem?_choices hplace]
    rfl

/-- Two alternatives, and then three. -/
def twoByThree : Group Nat := ⟨.and, [[[1], [2]], [[3], [4, 5], [6]]]⟩

/-- The last digit varies fastest. -/
theorem count_places_twoByThree :
    twoByThree.count = 6 ∧ twoByThree.combined.length = 6 ∧
      (digits [2, 3] 2 = [0, 2] ∧ twoByThree.combined[2]? = some [1, 6]) ∧
      digits [2, 3] 4 = [1, 1] ∧ twoByThree.combined[4]? = some [2, 4, 5] ∧
      ofDigits [2, 3] [1, 1] = 4 := by
  obtain ⟨hcount, hplaces⟩ := twoByThree.count_places
  obtain ⟨hsecond, -, -⟩ := hplaces rfl 2 (by decide)
  obtain ⟨hfourth, -, hdigits⟩ := hplaces rfl 4 (by decide)
  exact ⟨hcount, rfl, ⟨rfl, hsecond⟩, rfl, hfourth, hdigits⟩

end RuleBase.Condition

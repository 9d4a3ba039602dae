import Mathlib.Data.List.Forall2
import Mathlib.Data.List.Perm.Basic
import RuleBase.Proofs.Condition.Truth

/-!
# What alternatives consist of

An alternative of a formula takes at most one of what each item offers, and takes it in the order in
which the items come about. Nothing that is offered is lost as long as every item offers something.

* `Chooses`, **`Formula.chooses`**: the alternatives of formulas take of their items;
* `exists_mem_resolve`, **`Formula.exists_mem_children`**: everything is taken by one of them.
-/

namespace RuleBase.Condition

variable {α β ι κ : Type}

/-! ## The order of items -/

namespace Formula

/-- The items of a formula in the order of its children; one that is drawn comes after its input. -/
def closing : Formula ι → List ι
  | item i => [i]
  | group _ parts => parts.flatMap closing
  | list parts => parts.flatMap closing
  | drawn i input => input.closing ++ [i]

theorem closing_drawnFrom (i : ι) (input : Option (Formula ι)) :
    (drawnFrom i input).closing = input.toList.flatMap closing ++ [i] := by
  cases input <;> simp [drawnFrom, closing]

theorem closing_perm (t : Formula ι) : t.closing.Perm t.items := by
  induction t with
  | item i => simp [closing, items]
  | group connective parts ih =>
    simp only [closing, items]
    exact List.Perm.flatMap_left parts ih
  | list parts ih =>
    simp only [closing, items]
    exact List.Perm.flatMap_left parts ih
  | drawn i input ih =>
    simp only [closing, items]
    exact (List.perm_append_singleton i _).trans (ih.cons i)

theorem flatMap_closing_perm (parts : List (Formula ι)) :
    (parts.flatMap closing).Perm (parts.flatMap items) :=
  List.Perm.flatMap_left parts fun t _ => t.closing_perm

/-- No item is drawn from others. -/
def isUndrawn : Formula ι → Bool
  | item _ => true
  | group _ parts => (parts.map isUndrawn).all id
  | list parts => (parts.map isUndrawn).all id
  | drawn .. => false

theorem isUndrawn_map (f : ι → κ) (t : Formula ι) : (t.map f).isUndrawn = t.isUndrawn := by
  induction t with
  | item i => simp [map, isUndrawn]
  | group connective parts ih =>
    simp only [map, isUndrawn, List.map_map]
    exact congrArg (List.all · id) (List.map_congr_left ih)
  | list parts ih =>
    simp only [map, isUndrawn, List.map_map]
    exact congrArg (List.all · id) (List.map_congr_left ih)
  | drawn i input => simp [map, isUndrawn]

/-- What is not drawn comes about in reading order. -/
theorem closing_eq_items {t : Formula ι} (h : t.isUndrawn = true) : t.closing = t.items := by
  induction t with
  | item i => simp [closing, items]
  | group connective parts ih =>
    simp only [isUndrawn, List.all_eq_true, List.forall_mem_map, id_eq] at h
    simp only [closing, items]
    exact List.flatMap_congr fun t ht => ih t ht (h t ht)
  | list parts ih =>
    simp only [isUndrawn, List.all_eq_true, List.forall_mem_map, id_eq] at h
    simp only [closing, items]
    exact List.flatMap_congr fun t ht => ih t ht (h t ht)
  | drawn i input => simp [isUndrawn] at h

end Formula

/-! ## What is taken -/

/-- Of some items, at most one of what each of them offers is taken, in their order. -/
abbrev Picks (offers : ι → List κ) (taken : List κ) (is : List ι) : Prop :=
  List.SublistForall₂ (fun k i => k ∈ offers i) taken is

namespace Picks

variable {offers : ι → List κ} {taken taken' : List κ} {is is' : List ι}

theorem append_left (h : Picks offers taken is) (is' : List ι) :
    Picks offers taken (is' ++ is) := by
  induction is' with
  | nil => exact h
  | cons i rest ih => exact .cons_right ih

theorem append (h : Picks offers taken is) (h' : Picks offers taken' is') :
    Picks offers (taken ++ taken') (is ++ is') := by
  induction h with
  | nil => exact h'.append_left _
  | cons hmem _ ih => exact .cons hmem ih
  | cons_right _ ih => exact .cons_right ih

theorem append_right (h : Picks offers taken is) (is' : List ι) :
    Picks offers taken (is ++ is') := by
  simpa using h.append (.nil (l := is'))

theorem sublist (h : Picks offers taken is) : taken.Sublist (is.flatMap offers) := by
  induction h with
  | nil => exact List.nil_sublist _
  | cons hmem _ ih => exact (List.singleton_sublist.mpr hmem).append ih
  | cons_right _ ih => exact ih.trans (List.sublist_append_right _ _)

/-- Of each item at most one thing is taken. -/
theorem map_sublist {owner : κ → β} {f : ι → β}
    (howner : ∀ i ∈ is, ∀ k ∈ offers i, owner k = f i) (h : Picks offers taken is) :
    (taken.map owner).Sublist (is.map f) := by
  induction h with
  | nil => exact List.nil_sublist _
  | cons hmem _ ih =>
    rw [List.map_cons, List.map_cons, howner _ List.mem_cons_self _ hmem]
    exact (ih fun i hi => howner i (List.mem_cons_of_mem _ hi)).cons_cons _
  | cons_right _ ih => exact (ih fun i hi => howner i (List.mem_cons_of_mem _ hi)).cons _

end Picks

/-- The alternatives of some children take of some items, child by child. -/
inductive Chooses (offers : ι → List κ) : List (Alternatives κ) → List ι → Prop where
  | nil : Chooses offers [] []
  | cons {child : Alternatives κ} {children : List (Alternatives κ)} {is rest : List ι}
      (h : ∀ conjunction ∈ child, Picks offers conjunction is)
      (hrest : Chooses offers children rest) : Chooses offers (child :: children) (is ++ rest)

namespace Chooses

variable {offers : ι → List κ} {children children' : List (Alternatives κ)} {is is' : List ι}

theorem singleton {child : Alternatives κ}
    (h : ∀ conjunction ∈ child, Picks offers conjunction is) : Chooses offers [child] is := by
  simpa using Chooses.cons h .nil

theorem append (h : Chooses offers children is) (h' : Chooses offers children' is') :
    Chooses offers (children ++ children') (is ++ is') := by
  induction h with
  | nil => exact h'
  | cons hchild _ ih =>
    rw [List.append_assoc]
    exact .cons hchild ih

theorem flatMap {parts : List α} {children : α → List (Alternatives κ)} {is : α → List ι}
    (h : ∀ t ∈ parts, Chooses offers (children t) (is t)) :
    Chooses offers (parts.flatMap children) (parts.flatMap is) := by
  induction parts with
  | nil => exact .nil
  | cons t rest ih =>
    exact (h t List.mem_cons_self).append (ih fun t' ht' => h t' (List.mem_cons_of_mem t ht'))

theorem choices (h : Chooses offers children is) :
    ∀ choice ∈ choices children, Picks offers choice.flatten is := by
  induction h with
  | nil =>
    intro choice hchoice
    obtain rfl := List.mem_singleton.mp hchoice
    exact .nil
  | cons hchild _ ih =>
    intro choice hchoice
    obtain ⟨conjunction, hmem, hchoice⟩ := List.mem_flatMap.mp hchoice
    obtain ⟨more, hmore, rfl⟩ := List.mem_map.mp hchoice
    exact (hchild conjunction hmem).append (ih more hmore)

theorem flatten (h : Chooses offers children is) :
    ∀ conjunction ∈ children.flatten, Picks offers conjunction is := by
  induction h with
  | nil => rintro _ ⟨⟩
  | cons hchild _ ih =>
    intro conjunction hmem
    rcases List.mem_append.mp hmem with hmem | hmem
    · exact (hchild conjunction hmem).append_right _
    · exact (ih conjunction hmem).append_left _

/-- **The alternatives of a connective** take of the items of its children. -/
theorem resolve (h : Chooses offers children is) (connective : Connective) :
    ∀ conjunction ∈ resolve connective children, Picks offers conjunction is := by
  intro conjunction hmem
  cases h with
  | nil =>
    have hnone : conjunction = [] := by cases connective <;> simpa [Condition.resolve] using hmem
    exact hnone ▸ .nil
  | cons hchild hrest =>
    cases connective with
    | and =>
      obtain ⟨choice, hchoice, rfl⟩ := List.mem_map.mp hmem
      exact (Chooses.cons hchild hrest).choices choice hchoice
    | or => exact (Chooses.cons hchild hrest).flatten conjunction hmem

end Chooses

/-- **The children of a formula take of its items**, if each item has the alternatives that it
offers. -/
theorem Formula.chooses (offers : ι → List κ) (t : Formula ι) :
    Chooses offers (t.children fun i => (offers i).map ([·])) t.closing := by
  have hitem : ∀ i, ∀ conjunction ∈ (offers i).map ([·]), Picks offers conjunction [i] := by
    intro i conjunction hmem
    obtain ⟨k, hk, rfl⟩ := List.mem_map.mp hmem
    exact .cons hk .nil
  induction t with
  | item i =>
    simp only [children, closing]
    exact .singleton (hitem i)
  | group connective parts ih =>
    simp only [children, closing]
    exact .singleton ((Chooses.flatMap ih).resolve connective)
  | list parts ih =>
    simp only [children, closing]
    exact .flatMap ih
  | drawn i input ih =>
    simp only [children, closing]
    exact ih.append (.singleton (hitem i))

theorem Formula.picks_of_mem_resolve {offers : ι → List κ} {parts : List (Formula ι)}
    {conjunction : List κ} (h : conjunction ∈ resolve .and
      (parts.flatMap (Formula.children fun i => (offers i).map ([·])))) :
    Picks offers conjunction (parts.flatMap Formula.closing) :=
  (Chooses.flatMap fun t _ => t.chooses offers).resolve .and conjunction h

/-! ## Nothing is lost -/

theorem exists_mem_resolve {connective : Connective} {children : List (Alternatives κ)}
    (h : ∀ child ∈ children, child ≠ []) {child : Alternatives κ} (hchild : child ∈ children)
    {conjunction : List κ} (hmem : conjunction ∈ child) :
    ∃ whole ∈ resolve connective children, conjunction ⊆ whole := by
  have hchoice : ∀ l : List (Alternatives κ), (∀ c ∈ l, c ≠ []) → child ∈ l →
      ∃ choice ∈ choices l, conjunction ∈ choice := by
    intro l hl hin
    induction l with
    | nil => cases hin
    | cons first rest ih =>
      have hrest : ∀ c ∈ rest, c ≠ [] := fun c hc => hl c (List.mem_cons_of_mem _ hc)
      rcases List.mem_cons.mp hin with rfl | hin
      · have hmore : resolve .and rest ≠ [] := resolve_ne_nil hrest
        obtain ⟨more, hmore⟩ : ∃ more, more ∈ choices rest := by
          refine List.exists_mem_of_ne_nil _ fun hnil => hmore ?_
          cases rest <;> simp_all [resolve, choices]
        exact ⟨conjunction :: more, List.mem_flatMap.mpr ⟨conjunction, hmem,
          List.mem_map_of_mem hmore⟩, List.mem_cons_self⟩
      · obtain ⟨choice, hchoice, hin⟩ := ih hrest hin
        obtain ⟨a, ha⟩ := List.exists_mem_of_ne_nil _ (hl first List.mem_cons_self)
        exact ⟨a :: choice, List.mem_flatMap.mpr ⟨a, ha, List.mem_map_of_mem hchoice⟩,
          List.mem_cons_of_mem a hin⟩
  cases children with
  | nil => cases hchild
  | cons first rest =>
    cases connective with
    | or => exact ⟨conjunction, List.mem_flatten.mpr ⟨child, hchild, hmem⟩, List.Subset.refl _⟩
    | and =>
      obtain ⟨choice, hchoice, hin⟩ := hchoice (first :: rest) h hchild
      exact ⟨choice.flatten, List.mem_map_of_mem hchoice,
        fun k hk => List.mem_flatten.mpr ⟨conjunction, hin, hk⟩⟩

/-- **Whatever an item of a formula admits is a part of an alternative of one of its children.** -/
theorem Formula.exists_mem_children {child : ι → Alternatives κ} {t : Formula ι}
    (h : ∀ i ∈ t.items, child i ≠ []) {i : ι} (hi : i ∈ t.items) {conjunction : List κ}
    (hmem : conjunction ∈ child i) :
    ∃ alternatives ∈ t.children child, ∃ whole ∈ alternatives, conjunction ⊆ whole := by
  have hparts : ∀ parts : List (Formula ι),
      (∀ t ∈ parts, (∀ i ∈ t.items, child i ≠ []) → i ∈ t.items →
        ∃ alternatives ∈ t.children child, ∃ whole ∈ alternatives, conjunction ⊆ whole) →
      (∀ i ∈ parts.flatMap items, child i ≠ []) → i ∈ parts.flatMap items →
        ∃ alternatives ∈ parts.flatMap (children child), ∃ whole ∈ alternatives,
          conjunction ⊆ whole := by
    intro parts ih h hi
    obtain ⟨t, ht, hi⟩ := List.mem_flatMap.mp hi
    obtain ⟨alternatives, hchild, hwhole⟩ :=
      ih t ht (fun j hj => h j (List.mem_flatMap.mpr ⟨t, ht, hj⟩)) hi
    exact ⟨alternatives, List.mem_flatMap.mpr ⟨t, ht, hchild⟩, hwhole⟩
  induction t with
  | item j =>
    simp only [items, List.mem_singleton] at hi
    simp only [children, List.mem_singleton, exists_eq_left]
    exact ⟨conjunction, hi ▸ hmem, List.Subset.refl _⟩
  | group connective parts ih =>
    simp only [items] at h hi
    obtain ⟨alternatives, hchild, whole, hwhole, hsubset⟩ := hparts parts ih h hi
    have hne : ∀ c ∈ parts.flatMap (children child), c ≠ [] := by
      have hlist : ∀ c ∈ (Formula.list parts).children child, c ≠ [] :=
        children_ne_nil (by simpa [items] using h)
      simpa only [children] using hlist
    obtain ⟨whole', hwhole', hsubset'⟩ := exists_mem_resolve hne hchild hwhole
    simp only [children, List.mem_singleton, exists_eq_left]
    exact ⟨whole', hwhole', List.Subset.trans hsubset hsubset'⟩
  | list parts ih =>
    simp only [items] at h hi
    simp only [children]
    exact hparts parts ih h hi
  | drawn j input ih =>
    rw [items, List.forall_mem_cons] at h
    rw [items] at hi
    simp only [children]
    rcases List.mem_cons.mp hi with rfl | hi
    · exact ⟨child i, List.mem_append_right _ (List.mem_singleton_self _), conjunction, hmem,
        List.Subset.refl _⟩
    · obtain ⟨alternatives, hchild, hwhole⟩ := ih h.2 hi
      exact ⟨alternatives, List.mem_append_left _ hchild, hwhole⟩

/-- A conjunction of formulas takes up whatever their items admit. -/
theorem Formula.exists_mem_resolve_and {child : ι → Alternatives κ} {parts : List (Formula ι)}
    (h : ∀ i ∈ parts.flatMap items, child i ≠ []) {i : ι} (hi : i ∈ parts.flatMap items)
    {conjunction : List κ} (hmem : conjunction ∈ child i) :
    ∃ whole ∈ resolve .and (parts.flatMap (children child)), conjunction ⊆ whole := by
  have hgroup : (group .and parts).items = parts.flatMap items := by simp only [items]
  obtain ⟨alternatives, hchild, hwhole⟩ :=
    exists_mem_children (hgroup.symm ▸ h) (hgroup.symm ▸ hi) hmem
  simp only [children, List.mem_singleton] at hchild
  exact hchild ▸ hwhole

end RuleBase.Condition

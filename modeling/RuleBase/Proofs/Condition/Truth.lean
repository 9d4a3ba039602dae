import Mathlib.Data.List.Nodup
import RuleBase.Proofs.Condition.Formula

/-!
# When formulas hold

A formula holds under truth values of its items by its connectives, where parts side by side all
have to hold. Alternatives hold if all items of one of them do. The two agree unless a disjunction
has a part that contributes several children, for a disjunction of these children asks for less.

* `Formula.eval`: whether a formula holds;
* `holds`: whether some alternative holds; `holds_resolve`: that of a connective;
* `Formula.verdicts`, `Formula.map_holds_children`: which of the children of a formula hold;
* `Formula.isFull`, `Formula.splits`: formulas without empty lists, and those with a disjunction
  that takes a part to pieces;
* **`Formula.verdicts_eq_eval_iff`**: verdicts agree with truth exactly if nothing is taken to
  pieces;
* `Formula.Independent`, **`Formula.holds_children_iff`**: so do the alternatives of the children.
-/

namespace RuleBase.Condition

variable {α ι κ : Type}

/-! ## Alternatives -/

/-- Some alternative has only true items. -/
def holds (w : α → Bool) (alternatives : Alternatives α) : Bool :=
  alternatives.any fun conjunction => conjunction.all w

/-- What a connective makes of the verdicts on its children. Without children nothing is asked
for. -/
def verdict : Connective → List Bool → Bool
  | .and, verdicts => verdicts.all id
  | .or, verdicts => verdicts.isEmpty || verdicts.any id

theorem holds_choices (w : α → Bool) (children : List (Alternatives α)) :
    holds w ((choices children).map List.flatten) = children.all (holds w) := by
  induction children with
  | nil => rfl
  | cons child rest ih =>
    rw [Bool.eq_iff_iff]
    rw [Bool.eq_iff_iff] at ih
    simp only [holds, List.any_map, List.any_eq_true, Function.comp_apply, List.all_flatten,
      List.all_eq_true, choices, List.mem_flatMap, List.mem_map] at ih ⊢
    constructor
    · rintro ⟨choice, ⟨l, hl, more, hmore, rfl⟩, hchoice⟩ child' hchild'
      rcases List.mem_cons.mp hchild' with rfl | hchild'
      · exact ⟨l, hl, hchoice l List.mem_cons_self⟩
      · exact ih.mp ⟨more, hmore, fun l' hl' => hchoice l' (List.mem_cons_of_mem _ hl')⟩ child'
          hchild'
    · intro h
      obtain ⟨l, hl, hholds⟩ := h child List.mem_cons_self
      obtain ⟨more, hmore, hall⟩ := ih.mpr fun child' hchild' =>
        h child' (List.mem_cons_of_mem _ hchild')
      refine ⟨l :: more, ⟨l, hl, more, hmore, rfl⟩, fun l' hl' => ?_⟩
      rcases List.mem_cons.mp hl' with rfl | hl'
      · exact hholds
      · exact hall l' hl'

/-- **The alternatives of a connective hold** if the connective does over its children. -/
theorem holds_resolve (w : α → Bool) (connective : Connective) (children : List (Alternatives α)) :
    holds w (resolve connective children) = verdict connective (children.map (holds w)) := by
  cases children with
  | nil => cases connective <;> rfl
  | cons child rest =>
    cases connective with
    | and =>
      change holds w ((choices (child :: rest)).map List.flatten) = _
      rw [holds_choices, verdict, List.all_map]
      rfl
    | or =>
      simp only [resolve, verdict, holds, List.any_flatten, List.any_map]
      rfl

theorem resolve_ne_nil {connective : Connective} {children : List (Alternatives α)}
    (h : ∀ child ∈ children, child ≠ []) : resolve connective children ≠ [] := by
  cases children with
  | nil => cases connective <;> simp [resolve]
  | cons child rest =>
    cases connective with
    | or => simp [resolve, h child List.mem_cons_self]
    | and =>
      have hchoices : ∀ l : List (Alternatives α), (∀ child ∈ l, child ≠ []) → choices l ≠ [] := by
        intro l hl
        induction l with
        | nil => simp [choices]
        | cons first more ih =>
          obtain ⟨a, ha⟩ := List.exists_mem_of_ne_nil _ (hl first List.mem_cons_self)
          have hmore := ih fun child hchild => hl child (List.mem_cons_of_mem _ hchild)
          simp only [choices, ne_eq, List.flatMap_eq_nil_iff, List.map_eq_nil_iff]
          exact fun hnil => hmore (hnil a ha)
      change (choices (child :: rest)).map List.flatten ≠ []
      simpa using hchoices _ h

namespace Formula

/-- Whether a formula holds under truth values of its items. -/
def eval (v : ι → Bool) : Formula ι → Bool
  | item i => v i
  | group .and parts => (parts.map (eval v)).all id
  | group .or parts => (parts.map (eval v)).any id
  | list parts => (parts.map (eval v)).all id
  | drawn i input => v i && input.eval v

/-- Which of the children of a formula hold under truth values of its items. -/
def verdicts (v : ι → Bool) : Formula ι → List Bool
  | item i => [v i]
  | group connective parts => [verdict connective (parts.flatMap (verdicts v))]
  | list parts => parts.flatMap (verdicts v)
  | drawn i input => input.verdicts v ++ [v i]

/-- The parts of a formula that are children of the group around it. -/
def atoms : Formula ι → List (Formula ι)
  | item i => [item i]
  | group connective parts => [group connective parts]
  | list parts => parts.flatMap atoms
  | drawn i input => input.atoms ++ [item i]

/-- No list of parts is empty. -/
def isFull : Formula ι → Bool
  | item _ => true
  | group _ parts => !parts.isEmpty && (parts.map isFull).all id
  | list parts => !parts.isEmpty && (parts.map isFull).all id
  | drawn _ input => input.isFull

/-- Some disjunction has a part that is several children of it. -/
def splits : Formula ι → Bool
  | item _ => false
  | group .and parts => (parts.map splits).any id
  | group .or parts => (parts.any fun t => 1 < t.atoms.length) || (parts.map splits).any id
  | list parts => (parts.map splits).any id
  | drawn _ input => input.splits

theorem contributes_verdicts (v : ι → Bool) : Contributes v verdict (verdicts v) where
  item _ := by rw [verdicts]
  group _ _ := by rw [verdicts]
  list _ := by rw [verdicts]
  drawn _ _ := by rw [verdicts]

theorem map_holds_children (w : κ → Bool) (child : ι → Alternatives κ) (t : Formula ι) :
    (t.children child).map (holds w) = t.verdicts fun i => holds w (child i) :=
  (contributes_children child).map_eq (contributes_verdicts _) (holds_resolve w) t

theorem length_verdicts (v : ι → Bool) (t : Formula ι) :
    (t.verdicts v).length = t.atoms.length := by
  induction t with
  | item i => simp [verdicts, atoms]
  | group connective parts ih => simp [verdicts, atoms]
  | list parts ih =>
    simp only [verdicts, atoms, List.length_flatMap]
    rw [List.map_congr_left ih]
  | drawn i input ih => simp [verdicts, atoms, ih]

theorem atoms_ne_nil {t : Formula ι} (h : t.isFull = true) : t.atoms ≠ [] := by
  induction t with
  | item i => simp [atoms]
  | group connective parts ih => simp [atoms]
  | list parts ih =>
    cases parts with
    | nil => simp [isFull] at h
    | cons t rest =>
      simp only [isFull, List.map_cons, List.all_cons, id_eq, Bool.and_eq_true] at h
      simp [atoms, ih t List.mem_cons_self h.2.1]
  | drawn i input ih => simp [atoms]

/-! ## Only the items count -/

theorem eval_congr {v v' : ι → Bool} {t : Formula ι} (h : ∀ i ∈ t.items, v i = v' i) :
    t.eval v = t.eval v' := by
  induction t with
  | item i => simp [eval, h i (by simp [items])]
  | group connective parts ih =>
    have hparts : parts.map (eval v) = parts.map (eval v') :=
      List.map_congr_left fun t ht => ih t ht fun i hi => h i (by simpa [items] using ⟨t, ht, hi⟩)
    cases connective <;> simp only [eval, hparts]
  | list parts ih =>
    have hparts : parts.map (eval v) = parts.map (eval v') :=
      List.map_congr_left fun t ht => ih t ht fun i hi => h i (by simpa [items] using ⟨t, ht, hi⟩)
    simp only [eval, hparts]
  | drawn i input ih =>
    simp only [items, List.mem_cons, forall_eq_or_imp] at h
    simp only [eval, h.1, ih h.2]

theorem verdicts_congr {v v' : ι → Bool} {t : Formula ι} (h : ∀ i ∈ t.items, v i = v' i) :
    t.verdicts v = t.verdicts v' :=
  (contributes_verdicts v).congr (contributes_verdicts v') h

/-! ## Nothing is taken to pieces -/

theorem isFull_group {connective : Connective} {parts : List (Formula ι)} :
    (group connective parts).isFull = true ↔ parts ≠ [] ∧ ∀ t ∈ parts, t.isFull = true := by
  simp [isFull]

theorem isFull_list {parts : List (Formula ι)} :
    (list parts).isFull = true ↔ parts ≠ [] ∧ ∀ t ∈ parts, t.isFull = true := by
  simp [isFull]

theorem all_flatMap_verdicts {v : ι → Bool} {parts : List (Formula ι)}
    (h : ∀ t ∈ parts, (t.verdicts v).all id = t.eval v) :
    (parts.flatMap (verdicts v)).all id = (parts.map (eval v)).all id := by
  rw [← List.map_congr_left h, List.all_flatMap, List.all_map]
  rfl

theorem any_flatMap_verdicts {v : ι → Bool} {parts : List (Formula ι)}
    (h : ∀ t ∈ parts, (t.verdicts v).any id = t.eval v) :
    (parts.flatMap (verdicts v)).any id = (parts.map (eval v)).any id := by
  rw [← List.map_congr_left h, List.any_flatMap, List.any_map]
  rfl

theorem verdicts_ne_nil (v : ι → Bool) {t : Formula ι} (hfull : t.isFull = true) :
    t.verdicts v ≠ [] := by
  intro hnil
  have hlength := length_verdicts v t
  rw [hnil] at hlength
  exact atoms_ne_nil hfull (List.eq_nil_of_length_eq_zero hlength.symm)

theorem flatMap_verdicts_ne_nil {v : ι → Bool} {parts : List (Formula ι)} (hne : parts ≠ [])
    (hfull : ∀ t ∈ parts, t.isFull = true) : parts.flatMap (verdicts v) ≠ [] := by
  obtain ⟨t, ht⟩ := List.exists_mem_of_ne_nil _ hne
  intro hnil
  exact verdicts_ne_nil v (hfull t ht) (List.flatMap_eq_nil_iff.mp hnil t ht)

theorem any_verdicts_eq_all {v : ι → Bool} {t : Formula ι} (hfull : t.isFull = true)
    (hone : ¬ 1 < t.atoms.length) : (t.verdicts v).any id = (t.verdicts v).all id := by
  have hpos : 0 < t.atoms.length := List.length_pos_iff.mpr (atoms_ne_nil hfull)
  have hlength : (t.verdicts v).length = 1 := by
    rw [length_verdicts]
    omega
  obtain ⟨b, hb⟩ := List.length_eq_one_iff.mp hlength
  simp [hb]

theorem all_verdicts_eq_eval (v : ι → Bool) {t : Formula ι} (hfull : t.isFull = true)
    (hsplits : t.splits = false) : (t.verdicts v).all id = t.eval v := by
  induction t with
  | item i => simp [verdicts, eval]
  | group connective parts ih =>
    obtain ⟨hne, hparts⟩ := isFull_group.mp hfull
    cases connective with
    | and =>
      simp only [splits, List.any_eq_false, List.forall_mem_map, id_eq, Bool.not_eq_true] at hsplits
      simp only [verdicts, verdict, eval, List.all_cons, List.all_nil, id_eq, Bool.and_true]
      exact all_flatMap_verdicts fun t ht => ih t ht (hparts t ht) (hsplits t ht)
    | or =>
      simp only [splits, Bool.or_eq_false_iff, List.any_eq_false, List.forall_mem_map, id_eq,
        Bool.not_eq_true, decide_eq_true_eq] at hsplits
      have hempty : (parts.flatMap (verdicts v)).isEmpty = false := by
        simpa using flatMap_verdicts_ne_nil hne hparts
      simp only [verdicts, verdict, eval, List.all_cons, List.all_nil, id_eq, Bool.and_true, hempty,
        Bool.false_or]
      -- A part is one child, so some verdict on it is true if all are.
      refine any_flatMap_verdicts fun t ht => ?_
      rw [any_verdicts_eq_all (hparts t ht) (hsplits.1 t ht)]
      exact ih t ht (hparts t ht) (hsplits.2 t ht)
  | list parts ih =>
    obtain ⟨hne, hparts⟩ := isFull_list.mp hfull
    simp only [splits, List.any_eq_false, List.forall_mem_map, id_eq, Bool.not_eq_true] at hsplits
    simp only [verdicts, eval]
    exact all_flatMap_verdicts fun t ht => ih t ht (hparts t ht) (hsplits t ht)
  | drawn i input ih =>
    simp only [isFull] at hfull
    simp only [splits] at hsplits
    simp [verdicts, eval, ih hfull hsplits, Bool.and_comm]

/-! ## Something is taken to pieces -/

theorem all_verdicts_true (t : Formula ι) : (t.verdicts fun _ => true).all id = true := by
  induction t with
  | item i => simp [verdicts]
  | group connective parts ih =>
    have hall : (parts.flatMap (verdicts fun _ => true)).all id = true := by
      simpa [List.all_flatMap] using ih
    cases connective with
    | and => simpa [verdicts, verdict] using hall
    | or =>
      simp only [verdicts, verdict, List.all_cons, List.all_nil, id_eq, Bool.and_true]
      cases hverdicts : parts.flatMap (verdicts fun _ => true) with
      | nil => rfl
      | cons b rest =>
        rw [hverdicts, List.all_cons, Bool.and_eq_true] at hall
        simp [show b = true from hall.1]
  | list parts ih => simpa [verdicts, List.all_flatMap] using ih
  | drawn i input ih => simpa [verdicts] using ih

theorem eval_false {t : Formula ι} (hfull : t.isFull = true) : t.eval (fun _ => false) = false := by
  induction t with
  | item i => simp [eval]
  | group connective parts ih =>
    obtain ⟨hne, hparts⟩ := isFull_group.mp hfull
    obtain ⟨t, ht⟩ := List.exists_mem_of_ne_nil _ hne
    cases connective with
    | and => simpa [eval] using ⟨t, ht, ih t ht (hparts t ht)⟩
    | or => simpa [eval] using fun t ht => ih t ht (hparts t ht)
  | list parts ih =>
    obtain ⟨hne, hparts⟩ := isFull_list.mp hfull
    obtain ⟨t, ht⟩ := List.exists_mem_of_ne_nil _ hne
    simpa [eval] using ⟨t, ht, ih t ht (hparts t ht)⟩
  | drawn i input ih => simp [eval]

theorem any_verdicts_of_all {v : ι → Bool} {t : Formula ι} (hfull : t.isFull = true)
    (hall : (t.verdicts v).all id = true) : (t.verdicts v).any id = true := by
  obtain ⟨b, hb⟩ := List.exists_mem_of_ne_nil _ (verdicts_ne_nil v hfull)
  exact List.any_eq_true.mpr ⟨b, hb, List.all_eq_true.mp hall b hb⟩

/-- **Alternatives never ask for more than the formula.** -/
theorem all_verdicts_of_eval {v : ι → Bool} {t : Formula ι} (hfull : t.isFull = true)
    (heval : t.eval v = true) : (t.verdicts v).all id = true := by
  induction t with
  | item i => simpa [verdicts, eval] using heval
  | group connective parts ih =>
    obtain ⟨-, hparts⟩ := isFull_group.mp hfull
    simp only [verdicts, List.all_cons, List.all_nil, id_eq, Bool.and_true]
    cases connective with
    | and =>
      simp only [eval, List.all_eq_true, List.forall_mem_map, id_eq] at heval
      simpa [verdict, List.all_flatMap] using fun t ht => ih t ht (hparts t ht) (heval t ht)
    | or =>
      simp only [eval, List.any_map, List.any_eq_true, Function.comp_apply, id_eq] at heval
      obtain ⟨t, ht, heval⟩ := heval
      have hany := any_verdicts_of_all (hparts t ht) (ih t ht (hparts t ht) heval)
      simp only [verdict, Bool.or_eq_true, List.any_flatMap, List.any_eq_true]
      exact .inr ⟨t, ht, List.any_eq_true.mp hany⟩
  | list parts ih =>
    obtain ⟨-, hparts⟩ := isFull_list.mp hfull
    simp only [eval, List.all_eq_true, List.forall_mem_map, id_eq] at heval
    simpa [verdicts, List.all_flatMap] using fun t ht => ih t ht (hparts t ht) (heval t ht)
  | drawn i input ih =>
    simp only [isFull] at hfull
    simp only [eval, Bool.and_eq_true] at heval
    simpa [verdicts, heval.1] using ih hfull heval.2

section Refuted

variable {v : ι → Bool} {b : Bool} {t : Formula ι} {parts : List (Formula ι)}

theorem disjoint_items {l₁ l₂ : List (Formula ι)}
    (hnodup : ((l₁ ++ t :: l₂).flatMap items).Nodup) :
    ∀ u ∈ l₁ ++ l₂, t.items.Disjoint u.items := by
  obtain ⟨-, hpairwise⟩ := List.nodup_flatMap.mp hnodup
  rw [List.pairwise_append, List.pairwise_cons] at hpairwise
  obtain ⟨-, ⟨hafter, -⟩, hbefore⟩ := hpairwise
  intro u hu
  rcases List.mem_append.mp hu with hu | hu
  · exact fun i hi hu' => hbefore u hu t List.mem_cons_self hu' hi
  · exact hafter u hu

variable [DecidableEq ι]

/-- Truth values of the items of one list, and one truth value for all others. -/
def valuesOn (l : List ι) (v : ι → Bool) (b : Bool) : ι → Bool := fun i =>
  if i ∈ l then v i else b

theorem eval_valuesOn : t.eval (valuesOn t.items v b) = t.eval v :=
  eval_congr fun i hi => by simp [valuesOn, hi]

theorem verdicts_valuesOn : t.verdicts (valuesOn t.items v b) = t.verdicts v :=
  verdicts_congr fun i hi => by simp [valuesOn, hi]

theorem eval_valuesOn_disjoint {l : List ι} (h : l.Disjoint t.items) :
    t.eval (valuesOn l v b) = t.eval fun _ => b :=
  eval_congr fun _ hi => if_neg fun hmem => h hmem hi

theorem verdicts_valuesOn_disjoint {l : List ι} (h : l.Disjoint t.items) :
    t.verdicts (valuesOn l v b) = t.verdicts fun _ => b :=
  verdicts_congr fun _ hi => if_neg fun hmem => h hmem hi

/-- If all verdicts on a part can be true although the part is not, so it is with the parts side by
side: everything else can hold. -/
theorem refuted_parts (hnodup : (parts.flatMap items).Nodup) (ht : t ∈ parts)
    (hall : (t.verdicts v).all id = true) (heval : t.eval v = false) :
    (parts.flatMap (verdicts (valuesOn t.items v true))).all id = true ∧
      (parts.map (eval (valuesOn t.items v true))).all id = false := by
  obtain ⟨l₁, l₂, rfl⟩ := List.append_of_mem ht
  have hdisjoint := disjoint_items hnodup
  constructor
  · rw [List.all_flatMap, List.all_eq_true]
    intro u hu
    rcases List.mem_append.mp hu with hu | hu
    · rw [verdicts_valuesOn_disjoint (hdisjoint u (List.mem_append_left _ hu))]
      exact all_verdicts_true u
    rcases List.mem_cons.mp hu with rfl | hu
    · rw [verdicts_valuesOn]
      exact hall
    · rw [verdicts_valuesOn_disjoint (hdisjoint u (List.mem_append_right _ hu))]
      exact all_verdicts_true u
  · simp [eval_valuesOn, heval]

/-- If some verdict on a part of a disjunction can be true although the part is not, so it is with
the disjunction: everything else can fail. -/
theorem refuted_disjunction (hfull : ∀ t ∈ parts, t.isFull = true)
    (hnodup : (parts.flatMap items).Nodup) (ht : t ∈ parts)
    (hany : (t.verdicts v).any id = true) (heval : t.eval v = false) :
    ((group .or parts).verdicts (valuesOn t.items v false)).all id = true ∧
      (group .or parts).eval (valuesOn t.items v false) = false := by
  obtain ⟨l₁, l₂, rfl⟩ := List.append_of_mem ht
  have hdisjoint := disjoint_items hnodup
  constructor
  · rw [← verdicts_valuesOn (b := false)] at hany
    simp only [verdicts, verdict, List.all_cons, List.all_nil, id_eq, Bool.and_true,
      Bool.or_eq_true, List.any_flatMap, List.any_eq_true]
    exact .inr ⟨t, ht, List.any_eq_true.mp hany⟩
  · simp only [eval, List.any_eq_false, List.forall_mem_map, id_eq, Bool.not_eq_true]
    intro u hu
    rcases List.mem_append.mp hu with hu' | hu'
    · rw [eval_valuesOn_disjoint (hdisjoint u (List.mem_append_left _ hu'))]
      exact eval_false (hfull u hu)
    rcases List.mem_cons.mp hu' with rfl | hu'
    · rw [eval_valuesOn]
      exact heval
    · rw [eval_valuesOn_disjoint (hdisjoint u (List.mem_append_right _ hu'))]
      exact eval_false (hfull u hu)

/-- If a formula contributes several children, some can hold without the formula. -/
theorem exists_any_verdicts (hfull : t.isFull = true) (hnodup : t.items.Nodup)
    (hmany : 1 < t.atoms.length) :
    ∃ v : ι → Bool, (t.verdicts v).any id = true ∧ t.eval v = false := by
  induction t with
  | item i => simp [atoms] at hmany
  | group connective parts ih => simp [atoms] at hmany
  | list parts ih =>
    obtain ⟨hne, hparts⟩ := isFull_list.mp hfull
    simp only [items] at hnodup
    rcases parts with _ | ⟨t, _ | ⟨u, rest⟩⟩
    · exact absurd rfl hne
    · simp only [List.flatMap_cons, List.flatMap_nil, List.append_nil] at hnodup
      simp only [atoms, List.flatMap_cons, List.flatMap_nil, List.append_nil] at hmany
      simpa [verdicts, eval] using
        ih t List.mem_cons_self (hparts t List.mem_cons_self) hnodup hmany
    · -- The first part holds, the second one does not.
      have hpairwise := List.pairwise_cons.mp (List.nodup_flatMap.mp hnodup).2
      have hdisjoint : List.Disjoint t.items u.items := hpairwise.1 u List.mem_cons_self
      have hany := any_verdicts_of_all (hparts t List.mem_cons_self) (all_verdicts_true t)
      rw [← verdicts_valuesOn (b := false)] at hany
      refine ⟨valuesOn t.items (fun _ => true) false, ?_, ?_⟩
      · simp only [verdicts, List.any_flatMap, List.any_eq_true]
        exact ⟨t, List.mem_cons_self, List.any_eq_true.mp hany⟩
      · simp [eval, eval_valuesOn_disjoint hdisjoint, eval_false (hparts u (by simp))]
  | drawn i input ih =>
    -- What it is drawn from holds, the item itself does not.
    simp only [isFull] at hfull
    simp only [items, List.nodup_cons] at hnodup
    refine ⟨valuesOn input.items (fun _ => true) false, ?_, ?_⟩
    · have hany := any_verdicts_of_all hfull (all_verdicts_true input)
      simp [verdicts, verdicts_valuesOn, hany]
    · simp [eval, valuesOn, hnodup.1]

/-- If a disjunction takes a part to pieces, all verdicts can be true without the formula. -/
theorem exists_refuted (hfull : t.isFull = true) (hnodup : t.items.Nodup)
    (hsplits : t.splits = true) :
    ∃ v : ι → Bool, (t.verdicts v).all id = true ∧ t.eval v = false := by
  induction t with
  | item i => simp [splits] at hsplits
  | group connective parts ih =>
    obtain ⟨-, hparts⟩ := isFull_group.mp hfull
    simp only [items] at hnodup
    have hnodup' := (List.nodup_flatMap.mp hnodup).1
    cases connective with
    | and =>
      simp only [splits, List.any_map, List.any_eq_true, Function.comp_apply, id_eq] at hsplits
      obtain ⟨t, ht, hsplits⟩ := hsplits
      obtain ⟨v, hall, heval⟩ := ih t ht (hparts t ht) (hnodup' t ht) hsplits
      have hrefuted := refuted_parts hnodup ht hall heval
      refine ⟨valuesOn t.items v true, ?_, by simpa only [eval] using hrefuted.2⟩
      simpa [verdicts, verdict] using hrefuted.1
    | or =>
      simp only [splits, Bool.or_eq_true, List.any_map, List.any_eq_true, Function.comp_apply,
        id_eq, decide_eq_true_eq] at hsplits
      rcases hsplits with ⟨t, ht, hmany⟩ | ⟨t, ht, hsplits⟩
      · obtain ⟨v, hany, heval⟩ := exists_any_verdicts (hparts t ht) (hnodup' t ht) hmany
        exact ⟨_, refuted_disjunction hparts hnodup ht hany heval⟩
      · obtain ⟨v, hall, heval⟩ := ih t ht (hparts t ht) (hnodup' t ht) hsplits
        have hany := any_verdicts_of_all (hparts t ht) hall
        exact ⟨_, refuted_disjunction hparts hnodup ht hany heval⟩
  | list parts ih =>
    obtain ⟨-, hparts⟩ := isFull_list.mp hfull
    simp only [items] at hnodup
    simp only [splits, List.any_map, List.any_eq_true, Function.comp_apply, id_eq] at hsplits
    obtain ⟨t, ht, hsplits⟩ := hsplits
    obtain ⟨v, hall, heval⟩ :=
      ih t ht (hparts t ht) ((List.nodup_flatMap.mp hnodup).1 t ht) hsplits
    have hrefuted := refuted_parts hnodup ht hall heval
    exact ⟨valuesOn t.items v true, by simpa only [verdicts] using hrefuted.1,
      by simpa only [eval] using hrefuted.2⟩
  | drawn i input ih =>
    simp only [isFull] at hfull
    simp only [splits] at hsplits
    simp only [items, List.nodup_cons] at hnodup
    obtain ⟨v, hall, heval⟩ := ih hfull hnodup.2 hsplits
    refine ⟨valuesOn input.items v true, ?_, ?_⟩
    · simp [verdicts, verdicts_valuesOn, hall, valuesOn, hnodup.1]
    · simp [eval, eval_valuesOn, heval]

end Refuted

/-- **Verdicts on formulas side by side agree with truth** exactly if no disjunction takes a part to
pieces. -/
theorem verdicts_eq_eval_iff {parts : List (Formula ι)} (hfull : ∀ t ∈ parts, t.isFull = true)
    (hnodup : (parts.flatMap items).Nodup) :
    (∀ v : ι → Bool, (parts.flatMap (verdicts v)).all id = parts.all (eval v)) ↔
      ∀ t ∈ parts, t.splits = false := by
  classical
  have hall : ∀ v : ι → Bool, parts.all (eval v) = (parts.map (eval v)).all id := by simp
  simp only [hall]
  constructor
  · intro h t ht
    by_contra hsplits
    obtain ⟨v, hall, heval⟩ := exists_refuted (hfull t ht) ((List.nodup_flatMap.mp hnodup).1 t ht)
      (Bool.not_eq_false _ ▸ hsplits)
    obtain ⟨hholds, hfails⟩ := refuted_parts hnodup ht hall heval
    rw [h, hfails] at hholds
    cases hholds
  · exact fun hsplits v => all_flatMap_verdicts fun t ht =>
      all_verdicts_eq_eval v (hfull t ht) (hsplits t ht)

/-! ## Alternatives of items -/

theorem holds_resolve_children (w : κ → Bool) (child : ι → Alternatives κ)
    (parts : List (Formula ι)) :
    holds w (resolve .and (parts.flatMap (children child))) =
      (parts.flatMap (verdicts fun i => holds w (child i))).all id := by
  rw [holds_resolve, verdict, List.map_flatMap]
  congr 1
  exact List.flatMap_congr fun t _ => map_holds_children w child t

/-- Whether the alternatives of one item hold does not depend on those of the others. -/
def Independent (child : ι → Alternatives κ) (l : List ι) : Prop :=
  ∀ v : ι → Bool, ∃ w : κ → Bool, ∀ i ∈ l, holds w (child i) = v i

/-- **Alternatives hold when the formulas do** exactly if no disjunction takes a part to pieces. -/
theorem holds_children_iff {child : ι → Alternatives κ} {parts : List (Formula ι)}
    (hfull : ∀ t ∈ parts, t.isFull = true) (hnodup : (parts.flatMap items).Nodup)
    (hindependent : Independent child (parts.flatMap items)) :
    (∀ w, parts.all (eval fun i => holds w (child i)) =
        holds w (resolve .and (parts.flatMap (children child)))) ↔
      ∀ t ∈ parts, t.splits = false := by
  rw [← verdicts_eq_eval_iff hfull hnodup]
  constructor
  · intro h v
    obtain ⟨w, hw⟩ := hindependent v
    have hitems : ∀ t ∈ parts, ∀ i ∈ t.items, holds w (child i) = v i :=
      fun t ht i hi => hw i (List.mem_flatMap.mpr ⟨t, ht, hi⟩)
    have hw' := h w
    rw [holds_resolve_children] at hw'
    have heval : parts.all (eval v) = parts.all (eval fun i => holds w (child i)) := by
      rw [Bool.eq_iff_iff, List.all_eq_true, List.all_eq_true]
      exact forall₂_congr fun t ht => by rw [eval_congr (hitems t ht)]
    rw [← List.flatMap_congr fun t ht => verdicts_congr (hitems t ht), heval, hw']
  · intro h w
    rw [holds_resolve_children, h]

theorem holds_children_of_eval {child : ι → Alternatives κ} {parts : List (Formula ι)}
    (hfull : ∀ t ∈ parts, t.isFull = true) {w : κ → Bool}
    (heval : parts.all (eval fun i => holds w (child i)) = true) :
    holds w (resolve .and (parts.flatMap (children child))) = true := by
  rw [List.all_eq_true] at heval
  rw [holds_resolve_children, List.all_flatMap, List.all_eq_true]
  exact fun t ht => all_verdicts_of_eval (hfull t ht) (heval t ht)

theorem children_ne_nil {child : ι → Alternatives κ} {t : Formula ι}
    (h : ∀ i ∈ t.items, child i ≠ []) : ∀ alternatives ∈ t.children child, alternatives ≠ [] :=
  (contributes_children child).forall_mem (fun _ _ => resolve_ne_nil) h

theorem resolve_and_ne_nil {child : ι → Alternatives κ} {parts : List (Formula ι)}
    (h : ∀ i ∈ parts.flatMap items, child i ≠ []) :
    resolve .and (parts.flatMap (children child)) ≠ [] := by
  refine resolve_ne_nil fun alternatives hmem => ?_
  obtain ⟨t, ht, hmem⟩ := List.mem_flatMap.mp hmem
  exact children_ne_nil (fun i hi => h i (List.mem_flatMap.mpr ⟨t, ht, hi⟩)) alternatives hmem

theorem ne_nil_of_map_eq_resolve {π : Type} {listed : π → List κ} {ps : List π}
    {child : ι → Alternatives κ} {parts : List (Formula ι)}
    (heq : ps.map listed = resolve .and (parts.flatMap (children child)))
    (h : ∀ i ∈ parts.flatMap items, child i ≠ []) : ps ≠ [] := by
  rintro rfl
  exact resolve_and_ne_nil h heq.symm

/-! ## Other items -/

theorem atoms_map (f : ι → κ) (t : Formula ι) : (t.map f).atoms = t.atoms.map (map f) := by
  induction t with
  | item i => simp [map, atoms]
  | group connective parts ih => simp [map, atoms]
  | list parts ih =>
    simp only [map, atoms, List.flatMap_map, List.map_flatMap]
    exact List.flatMap_congr ih
  | drawn i input ih => simp [map, atoms, ih]

theorem isFull_map (f : ι → κ) (t : Formula ι) : (t.map f).isFull = t.isFull := by
  induction t with
  | item i => simp [map, isFull]
  | group connective parts ih =>
    simp only [map, isFull, List.map_map, List.isEmpty_map]
    rw [← List.map_congr_left ih]
    rfl
  | list parts ih =>
    simp only [map, isFull, List.map_map, List.isEmpty_map]
    rw [← List.map_congr_left ih]
    rfl
  | drawn i input ih => simp [map, isFull, ih]

theorem splits_map (f : ι → κ) (t : Formula ι) : (t.map f).splits = t.splits := by
  induction t with
  | item i => simp [map, splits]
  | group connective parts ih =>
    have hparts : (parts.map (map f)).map splits = parts.map splits := by
      rw [← List.map_congr_left ih, List.map_map]
      rfl
    cases connective with
    | and => simp only [map, splits, hparts]
    | or => simp [map, splits, hparts, List.any_map, Function.comp_def, atoms_map]
  | list parts ih =>
    have hparts : (parts.map (map f)).map splits = parts.map splits := by
      rw [← List.map_congr_left ih, List.map_map]
      rfl
    simp only [map, splits, hparts]
  | drawn i input ih => simp [map, splits, ih]

section Shape

variable {f : ι → κ} {parts : List (Formula ι)} {formulas : List (Formula κ)}

theorem forall_isFull_of_map_eq (h : parts.map (map f) = formulas) :
    (∀ t ∈ parts, t.isFull = true) ↔ ∀ t ∈ formulas, t.isFull = true := by
  rw [← h, List.forall_mem_map]
  simp only [isFull_map]

theorem forall_splits_of_map_eq (h : parts.map (map f) = formulas) :
    (∀ t ∈ parts, t.splits = false) ↔ ∀ t ∈ formulas, t.splits = false := by
  rw [← h, List.forall_mem_map]
  simp only [splits_map]

end Shape

end Formula

end RuleBase.Condition

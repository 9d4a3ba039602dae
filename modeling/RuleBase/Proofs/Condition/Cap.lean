import RuleBase.Proofs.Condition.Caller

/-!
# Alternatives on the way

The alternatives of a group are combined child by child, and what comes about on the way may be
more than what comes out. Only what comes out is counted, before anything is made. That bounds
everything on the way too, as long as no child is without alternatives: a conjunction with such a
child comes to nothing, however much was made before.

* `accumulators`, `Group.capacities`: what is made on the way, and the room that is asked for;
* **`Caller.capped_run`**: what is made when a scope is left; `Caller.not_capped_hollow`: what else
  may be.
-/

namespace RuleBase.Condition

variable {α : Type}

/-! ## On the way -/

/-- What combining starts with. -/
def start : Connective → Alternatives α
  | .and => [[]]
  | .or => []

/-- What the alternatives so far come to with those of one more child. -/
def join : Connective → Alternatives α → Alternatives α → Alternatives α
  | .and => both
  | .or => (· ++ ·)

/-- All that is made on the way through the children, what comes out last. -/
def accumulators (connective : Connective) : List (Alternatives α) → List (Alternatives α)
  | [] => [[[]]]
  | children => children.scanl (join connective) (start connective)

/-- What is made when the alternatives of a group are combined. -/
def Group.accumulators (g : Group α) : List (Alternatives α) :=
  Condition.accumulators g.connective g.children

/-- The room that is asked for when a conjunction takes its children, one after another. A
disjunction asks for none. -/
def Group.capacities (g : Group α) : List Nat :=
  if g.connective = .and then
    List.zipWith (fun acc child => acc.length * child.length) g.accumulators g.children
  else []

theorem accumulators_of_ne_nil (connective : Connective) {children : List (Alternatives α)}
    (h : children ≠ []) :
    accumulators connective children = children.scanl (join connective) (start connective) := by
  cases children with
  | nil => exact absurd rfl h
  | cons child rest => rfl

theorem foldl_append (children : List (Alternatives α)) :
    children.foldl (· ++ ·) [] = children.flatten := by
  have h : children.foldl (fun acc child => acc ++ id child) [] =
      [] ++ (children.map id).flatten := List.foldl_append_eq_append
  simpa using h

theorem combine_of_ne_nil (connective : Connective) {children : List (Alternatives α)}
    (h : children ≠ []) :
    combine connective children = children.foldl (join connective) (start connective) := by
  cases children with
  | nil => exact absurd rfl h
  | cons child rest =>
    cases connective with
    | and => rfl
    | or =>
      exact (foldl_append (child :: rest)).symm

/-- **What is made last comes out.** -/
theorem getLast?_accumulators (g : Group α) : g.accumulators.getLast? = some g.combined := by
  rw [Group.accumulators, Group.combined]
  by_cases h : g.children = []
  · rw [h]
    cases g.connective <;> rfl
  · rw [accumulators_of_ne_nil _ h, combine_of_ne_nil _ h, List.getLast?_scanl]

theorem exists_of_mem_accumulators {connective : Connective} {children : List (Alternatives α)}
    {acc : Alternatives α} (h : acc ∈ accumulators connective children) :
    children = [] ∧ acc = [[]] ∨
      ∃ n, acc = (children.take n).foldl (join connective) (start connective) := by
  cases children with
  | nil => exact .inl ⟨rfl, List.mem_singleton.mp h⟩
  | cons child rest =>
    rw [accumulators_of_ne_nil _ (List.cons_ne_nil _ _)] at h
    obtain ⟨n, hn⟩ := List.mem_iff_getElem?.mp h
    rw [List.getElem?_scanl] at hn
    split at hn
    · exact .inr ⟨n, (Option.some.inj hn).symm⟩
    · cases hn

theorem length_foldl_both (children : List (Alternatives α)) :
    (children.foldl both [[]]).length = (children.map List.length).prod := by
  rw [foldl_both]
  simp [length_choices]

/-- **Nothing on the way is more than what comes out**, unless a conjunction takes a child without
alternatives. -/
theorem length_le_ways_of_mem {connective : Connective} {children : List (Alternatives α)}
    (hfull : connective = .or ∨ [] ∉ children) {acc : Alternatives α}
    (h : acc ∈ accumulators connective children) :
    acc.length ≤ ways connective (children.map List.length) := by
  rcases exists_of_mem_accumulators h with ⟨rfl, rfl⟩ | ⟨n, rfl⟩
  · cases connective <;> exact Nat.le_refl 1
  · cases children with
    | nil => cases connective with
      | and => simp [start, ways]
      | or => simp [start, ways]
    | cons child rest => cases connective with
      | and =>
        have hne := hfull.resolve_left (by decide)
        have hsplit := List.prod_take_mul_prod_drop ((child :: rest).map List.length) n
        have hpos : 0 < (((child :: rest).map List.length).drop n).prod := by
          refine List.prod_pos fun size hsize => ?_
          obtain ⟨child', hmem, rfl⟩ := List.mem_map.mp (List.mem_of_mem_drop hsize)
          exact List.length_pos_of_ne_nil fun hnil => hne (hnil ▸ hmem)
        change (((child :: rest).take n).foldl both [[]]).length ≤
          ((child :: rest).map List.length).prod
        rw [length_foldl_both, List.map_take, ← hsplit]
        exact Nat.le_mul_of_pos_right _ hpos
      | or =>
        have hsplit := List.sum_take_add_sum_drop ((child :: rest).map List.length) n
        change (((child :: rest).take n).foldl (· ++ ·) []).length ≤
          ((child :: rest).map List.length).sum
        rw [foldl_append, List.length_flatten, List.map_take, ← hsplit]
        exact Nat.le_add_right _ _

/-- Room is asked for what is made next. -/
theorem zipWith_scanl_both (children : List (Alternatives α)) (left : Alternatives α) :
    List.zipWith (fun acc child => acc.length * child.length) (children.scanl both left) children =
      (children.scanl both left).tail.map List.length := by
  induction children generalizing left with
  | nil => rfl
  | cons child rest ih =>
    rw [List.scanl_cons, List.zipWith_cons_cons, ih, List.tail_cons, ← length_both]
    cases rest with
    | nil => rfl
    | cons child' rest => rw [List.scanl_cons, List.tail_cons, List.map_cons]

theorem exists_of_mem_capacities {g : Group α} {capacity : Nat} (h : capacity ∈ g.capacities) :
    ∃ acc ∈ g.accumulators, acc.length = capacity := by
  rw [Group.capacities] at h
  split at h
  · next hand =>
    rw [Group.accumulators] at h ⊢
    by_cases hnil : g.children = []
    · simp [hnil] at h
    · rw [accumulators_of_ne_nil _ hnil, hand] at h ⊢
      rw [show join (α := α) .and = both from rfl, zipWith_scanl_both] at h
      obtain ⟨acc, hmem, hlength⟩ := List.mem_map.mp h
      exact ⟨acc, List.mem_of_mem_tail hmem, hlength⟩
  · cases h

/-! ## Children with alternatives -/

variable {limits : Limits} {level level' : Level} {scopes scopes' : Scopes}

/-- No group has a child without alternatives. -/
def Filled (scopes : Scopes) : Prop :=
  ∀ frame ∈ scopes, ∀ level group, frame.group? = some (level, group) → [] ∉ group.children

theorem combined_ne_nil {group : Group α} (h : [] ∉ group.children) : group.combined ≠ [] := by
  refine List.ne_nil_of_length_pos ?_
  rw [length_combined]
  refine ways_pos _ fun size hsize => ?_
  obtain ⟨child, hmem, rfl⟩ := List.mem_map.mp hsize
  exact List.length_pos_of_ne_nil fun hnil => h (hnil ▸ hmem)

theorem filled_cons {frame : Frame} :
    Filled (frame :: scopes) ↔
      (∀ level group, frame.group? = some (level, group) → [] ∉ group.children) ∧
        Filled scopes :=
  List.forall_mem_cons

theorem Filled.newFrame (h : Filled scopes) {scope : Scope} {frame : Frame}
    (hframe : newFrame scope scopes = .ok frame) : Filled (frame :: scopes) := by
  refine filled_cons.mpr ⟨fun level group hgroup => ?_, h⟩
  have hnil : group.children = [] := by
    cases scope with
    | rule id => rw [newFrame_rule hframe] at hgroup; cases hgroup; rfl
    | pattern id => rw [(newFrame_pattern hframe).2] at hgroup; cases hgroup; rfl
    | operator connective =>
      rw [newFrame_operator hframe] at hgroup
      split at hgroup <;> (cases hgroup; rfl)
    | quantifier q => rw [newFrame_quantifier hframe] at hgroup; cases hgroup
  simp [hnil]

theorem not_mem_children_push {group : Group α} {child : Alternatives α} (hchild : child ≠ [])
    (h : [] ∉ group.children) : [] ∉ (group.push child).children := by
  simpa [h] using hchild.symm

theorem Filled.push (h : Filled scopes) {child : Alternatives Nat} (hchild : child ≠ [])
    (hpush : pushTo? level child scopes = some scopes') : Filled scopes' := by
  have htakes := takes_of_pushTo? hpush
  clear hpush
  induction htakes with
  | rule id group rest | ruleOperator group rest | pattern id group rest
  | patternOperator group rest =>
    obtain ⟨hframe, hrest⟩ := filled_cons.mp h
    refine filled_cons.mpr ⟨fun level group' hgroup => ?_, hrest⟩
    cases hgroup
    exact not_mem_children_push hchild (hframe _ group rfl)
  | quantifier q _ ih =>
    refine filled_cons.mpr ⟨fun level group hgroup => ?_, ih (filled_cons.mp h).2⟩
    cases hgroup

/-- What a group comes to has alternatives if its children have, so its place is taken by a child
with alternatives. -/
theorem Filled.leave (h : Filled scopes) (hordered : Ordered scopes) (limits : Limits)
    (token : Token) : Filled (scopesAfter (leave limits token) scopes) := by
  rcases scopesAfter_leave hordered limits token with hsame | ⟨frame, rest, rfl, -, hafter⟩
  · rwa [hsame]
  · obtain ⟨hframe, hrest⟩ := filled_cons.mp h
    rcases hafter with hafter | ⟨level, group, hgroup, hpush⟩
    · rwa [hafter]
    · exact hrest.push (combined_ne_nil (hframe level group hgroup)) hpush

namespace Caller

theorem Steps.filled {c c' : Caller} {use : Use} (h : Steps limits c use c')
    (huse : use ≠ .addPatternPossibilities []) (hordered : Ordered c.scopes)
    (hc : Filled c.scopes) : Filled c'.scopes := by
  cases h with
  | enter hframe => exact hc.newFrame hframe
  | leave hheld => exact hc.leave hordered limits _
  | abandon hheld => exact fun frame hframe => hc frame (List.mem_of_mem_drop hframe)
  | push hchild hpush => exact hc.push (fun hnil => huse (hchild hnil)) hpush
  | idle => exact hc

/-- **All children have alternatives**, unless possibilities were added that are none. -/
theorem filled_run (limits : Limits) {uses : List Use}
    (huses : .addPatternPossibilities [] ∉ uses) : Filled (run limits uses).scopes := by
  refine run_induction (motive := fun c => Filled c.scopes) (List.forall_mem_nil _) ?_
  intro c c' use hmem hstep hordered hfilled
  have huse : use ≠ .addPatternPossibilities [] := by
    rintro rfl
    exact huses hmem
  exact hstep.filled huse hordered hfilled

end Caller

/-! ## The cap -/

/-- All that is made of a group stays within the limit of its level, up to the ceiling of counts. -/
structure Capped (limits : Limits) (level : Level) (group : Group Nat) : Prop where
  accumulators : ∀ acc ∈ group.accumulators, min acc.length countCeiling ≤ level.limit limits
  capacities : ∀ capacity ∈ group.capacities, min capacity countCeiling ≤ level.limit limits

/-- What fits when it comes out has fitted all the way. -/
theorem capped_of_count_le {group : Group Nat} (hcount : group.count ≤ level.limit limits)
    (hfull : group.connective = .or ∨ [] ∉ group.children) : Capped limits level group := by
  have haccumulators : ∀ acc ∈ group.accumulators,
      min acc.length countCeiling ≤ level.limit limits := by
    intro acc hacc
    rw [count_group] at hcount
    exact (min_le_min_right _ (length_le_ways_of_mem hfull hacc)).trans hcount
  refine ⟨haccumulators, fun capacity hcapacity => ?_⟩
  obtain ⟨acc, hacc, rfl⟩ := exists_of_mem_capacities hcapacity
  exact haccumulators acc hacc

theorem count_le_of_leave {token : Token} {closed : Closed} {frame : Frame} {rest : Scopes}
    {group : Group Nat} (h : Ordered (frame :: rest))
    (hleave : leave limits token (frame :: rest) = .ok closed scopes')
    (hgroup : frame.group? = some (level, group)) : group.count ≤ level.limit limits := by
  have hcases := leaves_of_ordered h limits token
  rw [hleave] at hcases
  cases hcases with
  | quantifier hdepth => cases hgroup
  | rule hdepth hlimit => cases hgroup; exact hlimit
  | pattern hdepth hlimit => cases hgroup; exact hlimit
  | operator hdepth hlimit hpush =>
    rw [group?_groupFrame] at hgroup
    cases hgroup
    exact hlimit

namespace Caller

/-- **Within the cap all the way**: if a scope is left after any uses, nothing that was made of its
group is more than its limit, up to what comes out, unless a child of a conjunction came without
alternatives. -/
theorem capped_run (limits : Limits) (uses : List Use) {token : Token} {closed : Closed}
    {scopes' : Scopes} {frame : Frame} {level : Level} {group : Group Nat}
    (hleave : Condition.leave limits token (run limits uses).scopes = .ok closed scopes')
    (hframe : (run limits uses).scopes.head? = some frame)
    (hgroup : frame.group? = some (level, group))
    (hfull : group.connective = .or ∨ [] ∉ group.children ∨
      .addPatternPossibilities [] ∉ uses) :
    Capped limits level group ∧ group.accumulators.getLast? = some group.combined := by
  refine ⟨?_, getLast?_accumulators group⟩
  obtain ⟨rest, hscopes⟩ := List.head?_eq_some_iff.mp hframe
  have hordered := ordered_run limits uses
  rw [hscopes] at hordered hleave
  refine capped_of_count_le (count_le_of_leave hordered hleave hgroup) ?_
  rcases hfull with hor | hfull | huses
  · exact .inl hor
  · exact .inr hfull
  · have hfilled := filled_run limits huses
    rw [hscopes] at hfilled
    exact .inr ((filled_cons.mp hfilled).1 level group hgroup)

/-- A rule with a pattern that has two possibilities. -/
def twofold : List Use := [.enter (.rule 1), .addPatternPossibilities [1, 2]]

/-- Two possibilities stay within a limit of two all the way. -/
theorem capped_twofold :
    Condition.leave { maxRulePossibilities := 2 } ⟨0, .rule 1⟩
        (run { maxRulePossibilities := 2 } twofold).scopes = .ok (.rule 1 [[1], [2]]) [] ∧
      Capped { maxRulePossibilities := 2 } .rule ⟨.and, [[[1], [2]]]⟩ ∧
      (Group.accumulators ⟨.and, [[[1], [2]]]⟩).getLast? = some [[1], [2]] := by
  have hleave : Condition.leave { maxRulePossibilities := 2 } ⟨0, .rule 1⟩
      (run { maxRulePossibilities := 2 } twofold).scopes = .ok (.rule 1 [[1], [2]]) [] := by rfl
  exact ⟨hleave, capped_run _ twofold hleave rfl rfl (.inr (.inr (by decide)))⟩

/-- The same rule with one more pattern, which has no possibility. -/
def hollow : List Use := twofold ++ [.addPatternPossibilities []]

/-- Nothing comes out, which is within a limit of one, but there were two on the way. -/
theorem not_capped_hollow :
    Condition.leave { maxRulePossibilities := 1 } ⟨0, .rule 1⟩
        (run { maxRulePossibilities := 1 } hollow).scopes = .ok (.rule 1 []) [] ∧
      (run { maxRulePossibilities := 1 } hollow).scopes = [.rule 1 ⟨.and, [[[1], [2]], []]⟩] ∧
      ¬Capped { maxRulePossibilities := 1 } .rule ⟨.and, [[[1], [2]], []]⟩ := by
  refine ⟨rfl, rfl, fun h => ?_⟩
  have hacc := h.accumulators [[1], [2]] (by decide)
  exact absurd hacc (by decide)

end Caller

end RuleBase.Condition

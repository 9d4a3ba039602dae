import RuleBase.Proofs.Condition.Open

/-!
# Callers of scopes

Whoever enters scopes holds tokens, and may hand them back in any order or never. However scopes are
used, they keep the order that the scopes of a condition have. So a step fails for few reasons, and
when it fails it changes nothing, except that a group with too many alternatives is dropped.

* `Disciplined`, **`Caller.disciplined_run`**: which steps succeed after any uses, and what a step
  that fails has changed.
-/

namespace RuleBase.Condition

/-! ## Uses -/

/-- A token, and which entry has issued it. -/
structure Issue where
  number : Nat
  token : Token
  deriving DecidableEq

/-- What can be done with scopes. A token is told by the number of its entry. -/
inductive Use where
  | enter (scope : Scope)
  | leave (number : Nat)
  | abandon (number : Nat)
  | addRestriction (id : ComponentId)
  | addPatternPossibilities (ids : List PossibilityId)
  deriving DecidableEq

/-- Who uses scopes. -/
structure Caller where
  scopes : Scopes := []
  /-- The entries that the open scopes come from, the innermost one first. -/
  opened : List Issue := []
  /-- The tokens that have not been handed back. -/
  held : List Issue := []
  /-- How many tokens have been issued. -/
  issued : Nat := 0

/-- The scopes after a step, also when it fails. -/
def scopesAfter {α : Type} (step : Scoping α) (scopes : Scopes) : Scopes :=
  match step scopes with
  | .ok _ scopes' => scopes'
  | .error _ scopes' => scopes'

namespace Caller

/-- The caller with the scopes after a step. Scopes go away from the inside only, so those that stay
come from the same entries as before. -/
def goOn (c : Caller) (scopes : Scopes) : Caller :=
  { c with scopes, opened := c.opened.drop (c.scopes.length - scopes.length) }

/-- The caller without a token. -/
def handBack (c : Caller) (issue : Issue) : Caller :=
  { c with held := c.held.filter (·.number != issue.number) }

/-- The token that an entry has issued, unless it has been handed back. -/
def held? (c : Caller) (number : Nat) : Option Issue := c.held.find? (·.number == number)

/-- One use of the scopes. Without its token, a scope is neither left nor abandoned. -/
def step (limits : Limits) (c : Caller) : Use → Caller
  | .enter scope =>
    match enter scope c.scopes with
    | .ok token scopes =>
      { scopes
        opened := ⟨c.issued, token⟩ :: c.opened
        held := ⟨c.issued, token⟩ :: c.held
        issued := c.issued + 1 }
    | .error _ scopes => c.goOn scopes
  | .leave number =>
    match c.held? number with
    | some issue => (c.handBack issue).goOn (scopesAfter (leave limits issue.token) c.scopes)
    | none => c
  | .abandon number =>
    match c.held? number with
    | some issue => (c.handBack issue).goOn (Condition.abandon issue.token c.scopes)
    | none => c
  | .addRestriction id => c.goOn (scopesAfter (addRestriction id) c.scopes)
  | .addPatternPossibilities ids => c.goOn (scopesAfter (addPatternPossibilities ids) c.scopes)

/-- Any uses of new scopes, one after another. -/
def run (limits : Limits) (uses : List Use) : Caller := uses.foldl (step limits) {}

end Caller

/-! ## Order -/

variable {limits : Limits} {level level' : Level} {scopes scopes' : Scopes}

/-- Scopes as the walk through a condition opens them: none, or those that collect at a level. -/
def Ordered (scopes : Scopes) : Prop := scopes = [] ∨ ∃ level, OpenAt level scopes

theorem OpenAt.ordered (h : OpenAt level scopes) : Ordered scopes := .inr ⟨level, h⟩

theorem OpenAt.tail {frame : Frame} (h : OpenAt level (frame :: scopes)) : Ordered scopes := by
  cases h with
  | rule => exact .inl rfl
  | ruleOperator group h => exact h.ordered
  | quantifier q h => exact h.ordered
  | pattern id group h => exact h.ordered
  | patternOperator group h => exact h.ordered

theorem Ordered.tail {frame : Frame} (h : Ordered (frame :: scopes)) : Ordered scopes := by
  rcases h with hnil | ⟨level, h⟩
  · cases hnil
  · exact h.tail

theorem Ordered.drop (h : Ordered scopes) (n : Nat) : Ordered (scopes.drop n) := by
  induction n generalizing scopes with
  | zero => exact h
  | succ n ih =>
    cases scopes with
    | nil => exact h
    | cons frame rest => exact ih h.tail

theorem pushTo?_nil (child : Alternatives Nat) : pushTo? level child [] = none := by
  cases level <;> rfl

theorem pushTo?_quantifier (q : Quantifier) (child : Alternatives Nat) (rest : Scopes) :
    pushTo? level child (.quantifier q :: rest) =
      (pushTo? level child rest).map (.quantifier q :: ·) := by
  cases level <;> rfl

/-- At another level than the innermost one, nothing is collected. -/
theorem OpenAt.pushTo?_eq_none (h : OpenAt level scopes) (hne : level' ≠ level)
    (child : Alternatives Nat) : pushTo? level' child scopes = none := by
  induction h with
  | rule id group => cases level' with
    | rule => exact absurd rfl hne
    | pattern => rfl
  | ruleOperator group _ _ => cases level' with
    | rule => exact absurd rfl hne
    | pattern => rfl
  | quantifier q _ ih => rw [pushTo?_quantifier, ih hne, Option.map_none]
  | pattern id group _ _ => cases level' with
    | rule => rfl
    | pattern => exact absurd rfl hne
  | patternOperator group _ _ => cases level' with
    | rule => rfl
    | pattern => exact absurd rfl hne

theorem OpenAt.isSome_pushTo?_iff (h : OpenAt level scopes) (child : Alternatives Nat) :
    (pushTo? level' child scopes).isSome ↔ level' = level := by
  by_cases hlevel : level' = level
  · subst hlevel
    obtain ⟨scopes', hpush, -⟩ := h.push child
    simp [hpush]
  · simp [h.pushTo?_eq_none hlevel, hlevel]

/-- The innermost group, if it is at the level, takes a child. -/
inductive Takes (child : Alternatives Nat) : Level → Scopes → Scopes → Prop where
  | rule (id : ComponentId) (group : Group PossibilityId) (rest : Scopes) :
      Takes child .rule (.rule id group :: rest) (.rule id (group.push child) :: rest)
  | ruleOperator (group : Group PossibilityId) (rest : Scopes) :
      Takes child .rule (.ruleOperator group :: rest) (.ruleOperator (group.push child) :: rest)
  | pattern (id : ComponentId) (group : Group ComponentId) (rest : Scopes) :
      Takes child .pattern (.pattern id group :: rest) (.pattern id (group.push child) :: rest)
  | patternOperator (group : Group ComponentId) (rest : Scopes) :
      Takes child .pattern (.patternOperator group :: rest)
        (.patternOperator (group.push child) :: rest)
  | quantifier {level : Level} {rest rest' : Scopes} (q : Quantifier)
      (h : Takes child level rest rest') :
      Takes child level (.quantifier q :: rest) (.quantifier q :: rest')

theorem takes_of_pushTo? {child : Alternatives Nat}
    (h : pushTo? level child scopes = some scopes') : Takes child level scopes scopes' := by
  induction scopes generalizing scopes' with
  | nil =>
    rw [pushTo?_nil] at h
    cases h
  | cons frame rest ih =>
    cases frame with
    | quantifier q =>
      rw [pushTo?_quantifier] at h
      obtain ⟨rest', hrest, rfl⟩ := Option.map_eq_some_iff.mp h
      exact .quantifier q (ih hrest)
    | rule id group => cases level with
      | rule => cases h; exact .rule id group rest
      | pattern => cases h
    | ruleOperator group => cases level with
      | rule => cases h; exact .ruleOperator group rest
      | pattern => cases h
    | pattern id group => cases level with
      | rule => cases h
      | pattern => cases h; exact .pattern id group rest
    | patternOperator group => cases level with
      | rule => cases h
      | pattern => cases h; exact .patternOperator group rest

theorem Ordered.push (h : Ordered scopes) {child : Alternatives Nat}
    (hpush : pushTo? level' child scopes = some scopes') : Ordered scopes' := by
  rcases h with rfl | ⟨level, h⟩
  · rw [pushTo?_nil] at hpush
    cases hpush
  · obtain rfl : level' = level := (h.isSome_pushTo?_iff child).mp (by simp [hpush])
    obtain ⟨scopes'', hpush', hopen, -⟩ := h.push child
    rw [hpush] at hpush'
    cases hpush'
    exact hopen.ordered

theorem Ordered.newFrame (h : Ordered scopes) {scope : Scope} {frame : Frame}
    (hframe : newFrame scope scopes = .ok frame) : Ordered (frame :: scopes) := by
  rcases h with rfl | ⟨level, h⟩
  · cases scope with
    | rule id =>
      cases hframe
      exact (OpenAt.rule id _).ordered
    | pattern id => cases hframe
    | operator connective => cases hframe
    | quantifier q => cases hframe
  · cases scope with
    | rule id =>
      rw [Condition.newFrame, h.ruleIsOpen] at hframe
      cases hframe
    | pattern id =>
      rw [newFrame_pattern_eq h] at hframe
      split at hframe
      · next hlevel =>
        subst hlevel
        cases hframe
        exact (OpenAt.pattern id _ h).ordered
      · cases hframe
    | operator connective =>
      rw [newFrame_groupFrame h] at hframe
      cases hframe
      exact (h.group _).ordered
    | quantifier q =>
      rw [newFrame_quantifier_eq h] at hframe
      cases hframe
      exact (OpenAt.quantifier q h).ordered

theorem OpenAt.exists_rule (h : OpenAt level scopes) :
    ∃ id group, Frame.rule id group ∈ scopes := by
  induction h with
  | rule id group => exact ⟨id, group, List.mem_singleton_self _⟩
  | ruleOperator _ _ ih | quantifier _ _ ih | pattern _ _ _ ih | patternOperator _ _ ih =>
    obtain ⟨id, group, hmem⟩ := ih
    exact ⟨id, group, List.mem_cons_of_mem _ hmem⟩

theorem OpenAt.exists_pattern_iff (h : OpenAt level scopes) :
    (∃ id group, Frame.pattern id group ∈ scopes) ↔ level = .pattern := by
  induction h with
  | rule id group => simp
  | ruleOperator group _ ih => simpa using ih
  | quantifier q _ ih => simpa using ih
  | pattern id group _ _ => exact iff_of_true ⟨id, group, List.mem_cons_self⟩ rfl
  | patternOperator group _ ih => simpa using ih

/-! ## Leaving -/

/-- The level of a frame that collects, and what it has collected. -/
def Frame.group? : Frame → Option (Level × Group Nat)
  | .rule _ group => some (.rule, group)
  | .ruleOperator group => some (.rule, group)
  | .pattern _ group => some (.pattern, group)
  | .patternOperator group => some (.pattern, group)
  | .quantifier _ => none

/-- What leaving a scope comes to. -/
inductive Leaves (limits : Limits) (token : Token) :
    Scopes → EStateM.Result ScopeError Scopes Closed → Prop where
  /-- The scope is not the innermost one. -/
  | unbalanced {scopes : Scopes} (hdepth : token.depth + 1 ≠ scopes.length) :
      Leaves limits token scopes
        (.error (.unbalanced token.scope token.depth scopes.length) scopes)
  /-- The group has too many alternatives, and is dropped. -/
  | overLimit {frame : Frame} {rest : Scopes} {level : Level} {group : Group Nat}
      (hdepth : token.depth = rest.length) (hgroup : frame.group? = some (level, group))
      (hlimit : level.limit limits < group.count) :
      Leaves limits token (frame :: rest)
        (.error (.possibilityLimit level (level.limit limits) group.count) rest)
  | quantifier {q : Quantifier} {rest : Scopes} (hdepth : token.depth = rest.length) :
      Leaves limits token (.quantifier q :: rest) (.ok .quantifier rest)
  | rule {id : ComponentId} {group : Group PossibilityId} {rest : Scopes}
      (hdepth : token.depth = rest.length) (hlimit : group.count ≤ Level.rule.limit limits) :
      Leaves limits token (.rule id group :: rest) (.ok (.rule id group.combined) rest)
  | pattern {id : ComponentId} {group : Group ComponentId} {rest : Scopes}
      (hdepth : token.depth = rest.length) (hlimit : group.count ≤ Level.pattern.limit limits) :
      Leaves limits token (.pattern id group :: rest) (.ok (.pattern id group.combined) rest)
  /-- The alternatives of the group are one child of the group around it. -/
  | operator {level : Level} {group : Group Nat} {rest scopes' : Scopes}
      (hdepth : token.depth = rest.length) (hlimit : group.count ≤ level.limit limits)
      (hpush : pushTo? level group.combined rest = some scopes') :
      Leaves limits token (groupFrame level group :: rest) (.ok .operator scopes')

@[simp]
theorem group?_groupFrame (level : Level) (group : Group Nat) :
    (groupFrame level group).group? = some (level, group) := by
  cases level <;> rfl

theorem leaves_groupFrame {token : Token} (h : OpenAt level scopes) (group : Group Nat)
    (hdepth : token.depth = scopes.length) :
    Leaves limits token (groupFrame level group :: scopes)
      (close limits (groupFrame level group) scopes) := by
  rcases Nat.lt_or_ge (level.limit limits) group.count with hlimit | hlimit
  · rw [close_groupFrame_of_lt hlimit]
    exact .overLimit hdepth (group?_groupFrame level group) hlimit
  · obtain ⟨scopes', hpush, -⟩ := h.push group.combined
    rw [close_groupFrame_of_le hlimit hpush]
    exact .operator hdepth hlimit hpush

/-- **What leaving a scope comes to**, if scopes are in order. -/
theorem leaves_of_ordered (h : Ordered scopes) (limits : Limits) (token : Token) :
    Leaves limits token scopes (leave limits token scopes) := by
  cases scopes with
  | nil => exact .unbalanced (Nat.succ_ne_zero _)
  | cons frame rest =>
    by_cases hdepth : token.depth = rest.length
    · rw [leave_eq hdepth]
      rcases h with hnil | ⟨level, h⟩
      · cases hnil
      · cases h with
        | rule id group =>
          rcases Nat.lt_or_ge limits.maxRulePossibilities group.count with hlimit | hlimit
          · rw [close_rule_of_lt hlimit]
            exact .overLimit hdepth rfl hlimit
          · rw [close_rule_of_le hlimit]
            exact .rule hdepth hlimit
        | ruleOperator group h => exact leaves_groupFrame h group hdepth
        | quantifier q h => exact .quantifier hdepth
        | pattern id group h =>
          rcases Nat.lt_or_ge limits.maxPatternPossibilities group.count with hlimit | hlimit
          · rw [close_pattern_of_lt hlimit]
            exact .overLimit hdepth rfl hlimit
          · rw [close_pattern_of_le hlimit]
            exact .pattern hdepth hlimit
        | patternOperator group h => exact leaves_groupFrame h group hdepth
    · rw [leave, if_neg hdepth]
      exact .unbalanced fun heq => hdepth (Nat.succ_injective heq)

/-- Leaving takes the innermost frame away or none, and what the frame came to may go to the group
around it. -/
theorem scopesAfter_leave (h : Ordered scopes) (limits : Limits) (token : Token) :
    scopesAfter (leave limits token) scopes = scopes ∨
      ∃ frame rest, scopes = frame :: rest ∧ token.depth = rest.length ∧
        (scopesAfter (leave limits token) scopes = rest ∨
          ∃ level group, frame.group? = some (level, group) ∧
            pushTo? level group.combined rest =
              some (scopesAfter (leave limits token) scopes)) := by
  have hcases := leaves_of_ordered h limits token
  unfold scopesAfter
  generalize leave limits token scopes = result at hcases
  cases hcases with
  | unbalanced hdepth => exact .inl rfl
  | overLimit hdepth hgroup hlimit => exact .inr ⟨_, _, rfl, hdepth, .inl rfl⟩
  | quantifier hdepth => exact .inr ⟨_, _, rfl, hdepth, .inl rfl⟩
  | rule hdepth hlimit => exact .inr ⟨_, _, rfl, hdepth, .inl rfl⟩
  | pattern hdepth hlimit => exact .inr ⟨_, _, rfl, hdepth, .inl rfl⟩
  | operator hdepth hlimit hpush =>
    exact .inr ⟨_, _, rfl, hdepth, .inr ⟨_, _, group?_groupFrame _ _, hpush⟩⟩

theorem Ordered.leave (h : Ordered scopes) (limits : Limits) (token : Token) :
    Ordered (scopesAfter (leave limits token) scopes) := by
  rcases scopesAfter_leave h limits token with hsame | ⟨frame, rest, rfl, -, hafter⟩
  · rwa [hsame]
  · rcases hafter with hrest | ⟨level, group, -, hpush⟩
    · rw [hrest]
      exact h.tail
    · exact h.tail.push hpush

/-! ## Discipline -/

/-- There are too many possibilities. -/
def ScopeError.IsLimit (e : ScopeError) : Prop :=
  ∃ level cap actual, e = .possibilityLimit level cap actual

/-- Scopes on which steps go as they should. -/
structure Disciplined (limits : Limits) (scopes : Scopes) : Prop where
  ordered : Ordered scopes
  /-- What is left has always a group around it that takes its alternatives. -/
  leave_ne_noEnclosing : ∀ token part expected scopes',
    leave limits token scopes ≠ .error (.noEnclosing part expected) scopes'
  /-- Restrictions are taken exactly inside patterns. -/
  addRestriction_iff : ∀ id, (∃ scopes', addRestriction id scopes = .ok () scopes') ↔
    ∃ p group, Frame.pattern p group ∈ scopes
  /-- Patterns are taken exactly inside rules and outside of patterns. -/
  addPatternPossibilities_iff : ∀ ids,
    (∃ scopes', addPatternPossibilities ids scopes = .ok () scopes') ↔
      (∃ r group, Frame.rule r group ∈ scopes) ∧ ¬∃ p group, Frame.pattern p group ∈ scopes
  enter_error : ∀ scope e scopes', enter scope scopes = .error e scopes' → scopes' = scopes
  addRestriction_error : ∀ id e scopes',
    addRestriction id scopes = .error e scopes' → scopes' = scopes
  addPatternPossibilities_error : ∀ ids e scopes',
    addPatternPossibilities ids scopes = .error e scopes' → scopes' = scopes
  /-- Of a group that cannot be left for its alternatives, nothing stays. -/
  leave_error : ∀ token e scopes', leave limits token scopes = .error e scopes' →
    (e.IsLimit → ∃ frame, scopes = frame :: scopes') ∧ (¬e.IsLimit → scopes' = scopes)

theorem exists_addToPattern_iff (part : Part) (child : Alternatives ComponentId) :
    (∃ scopes', addToPattern part child scopes = .ok () scopes') ↔
      (pushTo? .pattern child scopes).isSome := by
  simp only [addToPattern_eq, added_eq_ok_iff, pushTo?, Option.isSome_iff_exists]

theorem exists_addToRule_iff (part : Part) (child : Alternatives PossibilityId) :
    (∃ scopes', addToRule part child scopes = .ok () scopes') ↔
      (pushTo? .rule child scopes).isSome := by
  simp only [addToRule_eq, added_eq_ok_iff, pushTo?, Option.isSome_iff_exists]

theorem addToPattern_eq_error {part : Part} {child : Alternatives ComponentId} {e : ScopeError}
    (h : addToPattern part child scopes = .error e scopes') : scopes' = scopes :=
  added_eq_error h

theorem addToRule_eq_error {part : Part} {child : Alternatives PossibilityId} {e : ScopeError}
    (h : addToRule part child scopes = .error e scopes') : scopes' = scopes :=
  added_eq_error h

theorem Ordered.isSome_pushTo?_pattern_iff (h : Ordered scopes) (child : Alternatives Nat) :
    (pushTo? .pattern child scopes).isSome ↔ ∃ p group, Frame.pattern p group ∈ scopes := by
  rcases h with rfl | ⟨level, h⟩
  · simp [pushTo?_nil]
  · rw [h.isSome_pushTo?_iff, h.exists_pattern_iff]
    exact eq_comm

theorem Ordered.isSome_pushTo?_rule_iff (h : Ordered scopes) (child : Alternatives Nat) :
    (pushTo? .rule child scopes).isSome ↔
      (∃ r group, Frame.rule r group ∈ scopes) ∧ ¬∃ p group, Frame.pattern p group ∈ scopes := by
  rcases h with rfl | ⟨level, h⟩
  · simp [pushTo?_nil]
  · rw [h.isSome_pushTo?_iff, h.exists_pattern_iff, and_iff_right h.exists_rule]
    cases level <;> simp

theorem Ordered.disciplined (h : Ordered scopes) (limits : Limits) : Disciplined limits scopes where
  ordered := h
  leave_ne_noEnclosing token part expected scopes' hleave := by
    have hcases := leaves_of_ordered h limits token
    rw [hleave] at hcases
    cases hcases
  addRestriction_iff id := by
    rw [addRestriction, exists_addToPattern_iff, h.isSome_pushTo?_pattern_iff]
  addPatternPossibilities_iff ids := by
    rw [addPatternPossibilities, exists_addToRule_iff, h.isSome_pushTo?_rule_iff]
  enter_error scope e scopes' henter := by
    unfold enter at henter
    split at henter
    · cases henter
      rfl
    · cases henter
  addRestriction_error id e scopes' := addToPattern_eq_error
  addPatternPossibilities_error ids e scopes' := addToRule_eq_error
  leave_error token e scopes' hleave := by
    have hcases := leaves_of_ordered h limits token
    rw [hleave] at hcases
    cases hcases with
    | unbalanced hdepth =>
      refine ⟨?_, fun _ => rfl⟩
      rintro ⟨level, cap, actual, heq⟩
      cases heq
    | overLimit hdepth hgroup hlimit =>
      exact ⟨fun _ => ⟨_, rfl⟩, fun hne => absurd ⟨_, _, _, rfl⟩ hne⟩

namespace Caller

/-- All that a use can do. -/
inductive Steps (limits : Limits) (c : Caller) : Use → Caller → Prop where
  | enter {scope : Scope} {frame : Frame} (hframe : newFrame scope c.scopes = .ok frame) :
      Steps limits c (.enter scope)
        { scopes := frame :: c.scopes
          opened := ⟨c.issued, ⟨c.scopes.length, scope⟩⟩ :: c.opened
          held := ⟨c.issued, ⟨c.scopes.length, scope⟩⟩ :: c.held
          issued := c.issued + 1 }
  | leave {issue : Issue} (hheld : issue ∈ c.held) :
      Steps limits c (.leave issue.number)
        ((c.handBack issue).goOn (scopesAfter (Condition.leave limits issue.token) c.scopes))
  | abandon {issue : Issue} (hheld : issue ∈ c.held) :
      Steps limits c (.abandon issue.number)
        ((c.handBack issue).goOn (Condition.abandon issue.token c.scopes))
  | push {use : Use} {level : Level} {child : Alternatives Nat} {scopes : Scopes}
      (hchild : child = [] → use = .addPatternPossibilities [])
      (hpush : pushTo? level child c.scopes = some scopes) : Steps limits c use (c.goOn scopes)
  | idle {use : Use} : Steps limits c use c

theorem goOn_self (c : Caller) : c.goOn c.scopes = c := by
  simp [goOn]

theorem held?_eq_some {c : Caller} {number : Nat} {issue : Issue}
    (h : c.held? number = some issue) : issue ∈ c.held ∧ issue.number = number :=
  ⟨List.mem_of_find?_eq_some h, by simpa using List.find?_some h⟩

/-- **One use of the scopes.** -/
theorem steps_step (limits : Limits) (c : Caller) (use : Use) :
    Steps limits c use (c.step limits use) := by
  cases use with
  | enter scope =>
    cases hframe : newFrame scope c.scopes with
    | ok frame =>
      simp only [step, Condition.enter, hframe]
      exact .enter hframe
    | error e =>
      simp only [step, Condition.enter, hframe, goOn_self]
      exact .idle
  | leave number =>
    cases hheld : c.held? number with
    | some issue =>
      obtain ⟨hmem, rfl⟩ := held?_eq_some hheld
      simp only [step, hheld]
      exact .leave hmem
    | none =>
      simp only [step, hheld]
      exact .idle
  | abandon number =>
    cases hheld : c.held? number with
    | some issue =>
      obtain ⟨hmem, rfl⟩ := held?_eq_some hheld
      simp only [step, hheld]
      exact .abandon hmem
    | none =>
      simp only [step, hheld]
      exact .idle
  | addRestriction id =>
    cases hpush : pushToPattern? [[id]] c.scopes with
    | some scopes =>
      simp only [step, scopesAfter, Condition.addRestriction, addToPattern, hpush]
      exact .push (fun hchild => absurd hchild (List.cons_ne_nil _ _))
        (show pushTo? .pattern _ _ = _ from hpush)
    | none =>
      simp only [step, scopesAfter, Condition.addRestriction, addToPattern, hpush, goOn_self]
      exact .idle
  | addPatternPossibilities ids =>
    cases hpush : pushToRule? (ids.map ([·])) c.scopes with
    | some scopes =>
      simp only [step, scopesAfter, Condition.addPatternPossibilities, addToRule, hpush]
      refine .push (fun hchild => ?_) (show pushTo? .rule _ _ = _ from hpush)
      rw [List.map_eq_nil_iff.mp hchild]
    | none =>
      simp only [step, scopesAfter, Condition.addPatternPossibilities, addToRule, hpush, goOn_self]
      exact .idle

theorem Steps.ordered {c c' : Caller} {use : Use} (h : Steps limits c use c')
    (hc : Ordered c.scopes) : Ordered c'.scopes := by
  cases h with
  | enter hframe => exact hc.newFrame hframe
  | leave hheld => exact hc.leave limits _
  | abandon hheld => exact hc.drop _
  | push hchild hpush => exact hc.push hpush
  | idle => exact hc

theorem ordered_run (limits : Limits) (uses : List Use) : Ordered (run limits uses).scopes :=
  List.foldlRecOn uses (step limits) (motive := fun c => Ordered c.scopes) (.inl rfl)
    fun c hc use _ => (steps_step limits c use).ordered hc

/-- What the first caller has, and every use of scopes in order keeps, holds after any uses. -/
theorem run_induction {motive : Caller → Prop} {uses : List Use} (hnew : motive {})
    (hstep : ∀ c c' use, use ∈ uses → Steps limits c use c' → Ordered c.scopes → motive c →
      motive c') :
    motive (run limits uses) := by
  have hboth : Ordered (run limits uses).scopes ∧ motive (run limits uses) := by
    refine List.foldlRecOn uses (step limits)
      (motive := fun c => Ordered c.scopes ∧ motive c) ⟨.inl rfl, hnew⟩ ?_
    intro c hc use hmem
    have hsteps := steps_step limits c use
    exact ⟨hsteps.ordered hc.1, hstep c _ use hmem hsteps hc.1 hc.2⟩
  exact hboth.2

/-- **Scopes are disciplined after any uses.** -/
theorem disciplined_run (limits : Limits) (uses : List Use) :
    Disciplined limits (run limits uses).scopes :=
  (ordered_run limits uses).disciplined limits

end Caller

end RuleBase.Condition

import RuleBase.Proofs.Condition.Count
import RuleBase.Proofs.Condition.Scope

/-!
# Scopes that are open at a level

Inside a rule, scopes follow one another in a few ways only: the rule comes first, then come groups
and quantifiers, and then perhaps a pattern with further groups and quantifiers. In scopes like that
no step goes wrong, but for a pattern inside a pattern and for too many possibilities.

* `OpenAt`, `OpenAt.pushAll`: scopes that collect at a level, and always take children;
* **`close_groupFrame_of_le`**, `close_groupFrame_of_lt`: what is left, and why it cannot be.
-/

namespace RuleBase.Condition

/-- Scopes that collect at a level. -/
inductive OpenAt : Level → Scopes → Prop where
  | rule (id : ComponentId) (group : Group PossibilityId) : OpenAt .rule [.rule id group]
  | ruleOperator {scopes : Scopes} (group : Group PossibilityId) (h : OpenAt .rule scopes) :
      OpenAt .rule (.ruleOperator group :: scopes)
  | quantifier {level : Level} {scopes : Scopes} (q : Quantifier) (h : OpenAt level scopes) :
      OpenAt level (.quantifier q :: scopes)
  | pattern {scopes : Scopes} (id : ComponentId) (group : Group ComponentId)
      (h : OpenAt .rule scopes) : OpenAt .pattern (.pattern id group :: scopes)
  | patternOperator {scopes : Scopes} (group : Group ComponentId) (h : OpenAt .pattern scopes) :
      OpenAt .pattern (.patternOperator group :: scopes)

/-- The frame of a group at a level. Restrictions and possibilities are numbers alike. -/
def groupFrame : Level → Group Nat → Frame
  | .rule => .ruleOperator
  | .pattern => .patternOperator

/-- The scopes with one more child in the innermost group at a level. -/
def pushTo? : Level → Alternatives Nat → Scopes → Option Scopes
  | .rule => pushToRule?
  | .pattern => pushToPattern?

variable {level : Level} {scopes scopes' : Scopes}

/-! ## What is open -/

theorem OpenAt.group (h : OpenAt level scopes) (group : Group Nat) :
    OpenAt level (groupFrame level group :: scopes) := by
  cases level with
  | rule => exact .ruleOperator group h
  | pattern => exact .patternOperator group h

theorem OpenAt.ruleIsOpen (h : OpenAt level scopes) : ruleIsOpen scopes = true := by
  induction h with
  | rule => rfl
  | ruleOperator group _ ih => simpa [Condition.ruleIsOpen, Frame.isRule] using ih
  | quantifier q _ ih => simpa [Condition.ruleIsOpen, Frame.isRule] using ih
  | pattern id group _ ih => simpa [Condition.ruleIsOpen, Frame.isRule] using ih
  | patternOperator group _ ih => simpa [Condition.ruleIsOpen, Frame.isRule] using ih

theorem OpenAt.patternIsOpen (h : OpenAt level scopes) :
    patternIsOpen scopes = decide (level = .pattern) := by
  induction h with
  | rule => rfl
  | ruleOperator group _ ih => simpa [Condition.patternIsOpen, Frame.isPatternLevel] using ih
  | quantifier q _ ih => simpa [Condition.patternIsOpen, Frame.isPatternLevel] using ih
  | pattern => rfl
  | patternOperator => rfl

/-! ## Children -/

/-- **A child is always taken**, and opens and closes no scope. -/
theorem OpenAt.push (h : OpenAt level scopes) (child : Alternatives Nat) :
    ∃ scopes', pushTo? level child scopes = some scopes' ∧ OpenAt level scopes' ∧
      scopes'.length = scopes.length := by
  induction h with
  | rule id group => exact ⟨_, rfl, .rule id (group.push child), rfl⟩
  | ruleOperator group h _ => exact ⟨_, rfl, .ruleOperator (group.push child) h, rfl⟩
  | @quantifier level scopes q h ih =>
    obtain ⟨scopes', hpush, hopen, hlength⟩ := ih
    refine ⟨.quantifier q :: scopes', ?_, .quantifier q hopen, by simp [hlength]⟩
    cases level <;> exact congrArg (Option.map (Frame.quantifier q :: ·)) hpush
  | pattern id group h _ => exact ⟨_, rfl, .pattern id (group.push child) h, rfl⟩
  | patternOperator group h _ => exact ⟨_, rfl, .patternOperator (group.push child) h, rfl⟩

theorem OpenAt.of_pushAll (h : OpenAt level scopes) {children : List (Alternatives Nat)}
    (hpush : pushAll (pushTo? level) children scopes = some scopes') :
    OpenAt level scopes' ∧ scopes'.length = scopes.length := by
  induction children generalizing scopes with
  | nil =>
    cases hpush
    exact ⟨h, rfl⟩
  | cons child rest ih =>
    obtain ⟨scopes₁, hopen₁⟩ := h.push child
    rw [pushAll, hopen₁.1] at hpush
    obtain ⟨hopen, hlength⟩ := ih hopen₁.2.1 hpush
    exact ⟨hopen, hlength.trans hopen₁.2.2⟩

theorem pushAll_groupFrame (children : List (Alternatives Nat)) (connective : Connective)
    (rest : Scopes) :
    pushAll (pushTo? level) children (groupFrame level ⟨connective, []⟩ :: rest) =
      some (groupFrame level ⟨connective, children⟩ :: rest) := by
  cases level with
  | rule => exact pushAll_ruleOperator children connective rest
  | pattern => exact pushAll_patternOperator children connective rest

theorem pushAll_pushTo_quantifier (q : Quantifier) (children : List (Alternatives Nat))
    (rest : Scopes) :
    pushAll (pushTo? level) children (.quantifier q :: rest) =
      (pushAll (pushTo? level) children rest).map (.quantifier q :: ·) := by
  cases level with
  | rule => exact pushing_rule.pushAll_quantifier q children rest
  | pattern => exact pushing_pattern.pushAll_quantifier q children rest

/-! ## Entering -/

theorem newFrame_groupFrame (h : OpenAt level scopes) (connective : Connective) :
    newFrame (.operator connective) scopes = .ok (groupFrame level ⟨connective, []⟩) := by
  cases level <;> simp [newFrame, h.ruleIsOpen, h.patternIsOpen, groupFrame]

theorem newFrame_quantifier_eq (h : OpenAt level scopes) (q : Quantifier) :
    newFrame (.quantifier q) scopes = .ok (.quantifier q) := by
  simp [newFrame, h.ruleIsOpen]

theorem newFrame_pattern_eq (h : OpenAt level scopes) (id : ComponentId) :
    newFrame (.pattern id) scopes =
      if level = .rule then .ok (.pattern id ⟨.and, []⟩) else .error (.nested .pattern) := by
  cases level <;> simp [newFrame, h.ruleIsOpen, h.patternIsOpen]

/-! ## Leaving -/

variable {limits : Limits}

theorem count_group {α : Type} (group : Group α) :
    group.count = min (ways group.connective (group.children.map List.length)) countCeiling :=
  count_eq group.connective group.children

theorem length_combined {α : Type} (group : Group α) :
    group.combined.length = ways group.connective (group.children.map List.length) := by
  rw [Group.combined, combine_eq_resolve, length_resolve]

theorem leave_eq {token : Token} {frame : Frame} {rest : Scopes}
    (h : token.depth = rest.length) :
    leave limits token (frame :: rest) = close limits frame rest := by
  rw [leave, if_pos h]

theorem combineWithin_of_lt {α : Type} (level : Level) {group : Group α}
    (h : level.limit limits < group.count) :
    combineWithin limits level group scopes =
      .error (.possibilityLimit level (level.limit limits) group.count) scopes := by
  rw [combineWithin, if_pos h]
  rfl

theorem combineWithin_of_le {α : Type} (level : Level) {group : Group α}
    (h : group.count ≤ level.limit limits) :
    combineWithin limits level group scopes = .ok group.combined scopes := by
  rw [combineWithin, if_neg (Nat.not_lt.mpr h)]
  rfl

theorem close_groupFrame_of_lt {group : Group Nat} (h : level.limit limits < group.count) :
    close limits (groupFrame level group) scopes =
      .error (.possibilityLimit level (level.limit limits) group.count) scopes := by
  cases level <;> exact bind_of_error (combineWithin_of_lt _ h)

/-- **A group that is left is one child of the group around it.** -/
theorem close_groupFrame_of_le {group : Group Nat} (h : group.count ≤ level.limit limits)
    (hpush : pushTo? level group.combined scopes = some scopes') :
    close limits (groupFrame level group) scopes = .ok .operator scopes' := by
  cases level with
  | rule =>
    rw [groupFrame, close, bind_of_ok (combineWithin_of_le _ h)]
    exact bind_of_ok (a := ()) (by rw [addToRule, show pushToRule? _ _ = _ from hpush])
  | pattern =>
    rw [groupFrame, close, bind_of_ok (combineWithin_of_le _ h)]
    exact bind_of_ok (a := ()) (by rw [addToPattern, show pushToPattern? _ _ = _ from hpush])

theorem close_pattern_of_lt {id : ComponentId} {group : Group ComponentId}
    (h : limits.maxPatternPossibilities < group.count) :
    close limits (.pattern id group) scopes =
      .error (.possibilityLimit .pattern limits.maxPatternPossibilities group.count) scopes :=
  bind_of_error (combineWithin_of_lt .pattern h)

theorem close_pattern_of_le {id : ComponentId} {group : Group ComponentId}
    (h : group.count ≤ limits.maxPatternPossibilities) :
    close limits (.pattern id group) scopes = .ok (.pattern id group.combined) scopes :=
  bind_of_ok (combineWithin_of_le .pattern h)

theorem close_rule_of_lt {id : ComponentId} {group : Group PossibilityId}
    (h : limits.maxRulePossibilities < group.count) :
    close limits (.rule id group) scopes =
      .error (.possibilityLimit .rule limits.maxRulePossibilities group.count) scopes :=
  bind_of_error (combineWithin_of_lt .rule h)

theorem close_rule_of_le {id : ComponentId} {group : Group PossibilityId}
    (h : group.count ≤ limits.maxRulePossibilities) :
    close limits (.rule id group) scopes = .ok (.rule id group.combined) scopes :=
  bind_of_ok (combineWithin_of_le .rule h)

end RuleBase.Condition

import RuleBase.Condition.Scope

/-!
# Scopes one step at a time

What a step on the scopes of a condition has done once it has succeeded.

* `Pushing`, `pushAll`: children of the innermost scope, which open none;
* `newFrame_operator`, `newFrame_quantifier`: the frames that are entered;
* `collected_eq_ok`, `handedOn_eq_ok`: what a scope that is left came to.
-/

namespace RuleBase.Condition

variable {α : Type}

/-! ## Children -/

/-- The scopes with further children. -/
def pushAll (push? : Alternatives α → Scopes → Option Scopes) :
    List (Alternatives α) → Scopes → Option Scopes
  | [], scopes => some scopes
  | child :: rest, scopes => (push? child scopes).bind (pushAll push? rest)

theorem pushAll_append (push? : Alternatives α → Scopes → Option Scopes)
    (children children' : List (Alternatives α)) (scopes : Scopes) :
    pushAll push? (children ++ children') scopes =
      (pushAll push? children scopes).bind (pushAll push? children') := by
  induction children generalizing scopes with
  | nil => rfl
  | cons child rest ih =>
    simp only [List.cons_append, pushAll, Option.bind_assoc]
    exact congrArg _ (funext ih)

theorem pushAll_frame {push? : Alternatives α → Scopes → Option Scopes} {frame : Group α → Frame}
    {rest : Scopes}
    (h : ∀ child group, push? child (frame group :: rest) = some (frame (group.push child) :: rest))
    (children : List (Alternatives α)) (group : Group α) :
    pushAll push? children (frame group :: rest) =
      some (frame ⟨group.connective, group.children ++ children⟩ :: rest) := by
  induction children generalizing group with
  | nil => simp [pushAll]
  | cons child more ih => simp [pushAll, h, ih]

theorem pushAll_pattern (children : List (Alternatives ComponentId)) (id : ComponentId)
    (connective : Connective) (rest : Scopes) :
    pushAll pushToPattern? children (.pattern id ⟨connective, []⟩ :: rest) =
      some (.pattern id ⟨connective, children⟩ :: rest) :=
  pushAll_frame (fun _ _ => rfl) children ⟨connective, []⟩

theorem pushAll_patternOperator (children : List (Alternatives ComponentId))
    (connective : Connective) (rest : Scopes) :
    pushAll pushToPattern? children (.patternOperator ⟨connective, []⟩ :: rest) =
      some (.patternOperator ⟨connective, children⟩ :: rest) :=
  pushAll_frame (fun _ _ => rfl) children ⟨connective, []⟩

theorem pushAll_rule (children : List (Alternatives PossibilityId)) (id : ComponentId)
    (connective : Connective) (rest : Scopes) :
    pushAll pushToRule? children (.rule id ⟨connective, []⟩ :: rest) =
      some (.rule id ⟨connective, children⟩ :: rest) :=
  pushAll_frame (fun _ _ => rfl) children ⟨connective, []⟩

theorem pushAll_ruleOperator (children : List (Alternatives PossibilityId))
    (connective : Connective) (rest : Scopes) :
    pushAll pushToRule? children (.ruleOperator ⟨connective, []⟩ :: rest) =
      some (.ruleOperator ⟨connective, children⟩ :: rest) :=
  pushAll_frame (fun _ _ => rfl) children ⟨connective, []⟩

/-! ## What is open -/

/-- A frame without what it has collected. -/
def Frame.bare : Frame → Frame
  | .rule id _ => .rule id ⟨.and, []⟩
  | .pattern id _ => .pattern id ⟨.and, []⟩
  | .ruleOperator _ => .ruleOperator ⟨.and, []⟩
  | .patternOperator _ => .patternOperator ⟨.and, []⟩
  | .quantifier q => .quantifier q

/-- A child goes to the innermost frame that is no quantifier. -/
structure Pushing (push? : Alternatives α → Scopes → Option Scopes) : Prop where
  nil (child : Alternatives α) : push? child [] = none
  quantifier (child : Alternatives α) (q : Quantifier) (rest : Scopes) :
    push? child (.quantifier q :: rest) = (push? child rest).map (.quantifier q :: ·)
  frame (child : Alternatives α) (frame : Frame) (rest scopes : Scopes) :
    (∀ q, frame ≠ .quantifier q) → push? child (frame :: rest) = some scopes →
      ∃ frame' : Frame, frame'.bare = frame.bare ∧ scopes = frame' :: rest

theorem pushing_pattern : Pushing pushToPattern? where
  nil _ := rfl
  quantifier _ _ _ := rfl
  frame child frame rest scopes hframe h := by
    cases frame with
    | quantifier q => exact absurd rfl (hframe q)
    | pattern | patternOperator =>
      refine ⟨_, ?_, (Option.some.inj h).symm⟩
      rfl
    | rule | ruleOperator => cases h

theorem pushing_rule : Pushing pushToRule? where
  nil _ := rfl
  quantifier _ _ _ := rfl
  frame child frame rest scopes hframe h := by
    cases frame with
    | quantifier q => exact absurd rfl (hframe q)
    | rule | ruleOperator =>
      refine ⟨_, ?_, (Option.some.inj h).symm⟩
      rfl
    | pattern | patternOperator => cases h

theorem Pushing.pushAll_quantifier {push? : Alternatives α → Scopes → Option Scopes}
    (h : Pushing push?) (q : Quantifier) (children : List (Alternatives α)) (rest : Scopes) :
    pushAll push? children (.quantifier q :: rest) =
      (pushAll push? children rest).map (.quantifier q :: ·) := by
  induction children generalizing rest with
  | nil => rfl
  | cons child more ih =>
    rw [pushAll, pushAll, h.quantifier]
    cases push? child rest with
    | none => rfl
    | some scopes => exact ih scopes

theorem Pushing.map_bare {push? : Alternatives α → Scopes → Option Scopes} (h : Pushing push?)
    {child : Alternatives α} {scopes scopes' : Scopes} (hpush : push? child scopes = some scopes') :
    scopes'.map Frame.bare = scopes.map Frame.bare := by
  induction scopes generalizing scopes' with
  | nil =>
    rw [h.nil] at hpush
    cases hpush
  | cons frame rest ih =>
    by_cases hframe : ∃ q, frame = .quantifier q
    · obtain ⟨q, rfl⟩ := hframe
      rw [h.quantifier] at hpush
      obtain ⟨rest', hrest, rfl⟩ := Option.map_eq_some_iff.mp hpush
      rw [List.map_cons, List.map_cons, ih hrest]
    · obtain ⟨frame', hbare, rfl⟩ := h.frame child frame rest scopes'
        (fun q hq => hframe ⟨q, hq⟩) hpush
      rw [List.map_cons, List.map_cons, hbare]

theorem patternIsOpen_bare (scopes : Scopes) :
    patternIsOpen (scopes.map Frame.bare) = patternIsOpen scopes := by
  have hframe : Frame.isPatternLevel ∘ Frame.bare = Frame.isPatternLevel := by
    funext frame
    cases frame <;> rfl
  rw [patternIsOpen, List.any_map, hframe]
  rfl

theorem quantifiedBy_bare (q : Quantifier) (scopes : Scopes) :
    quantifiedBy q (scopes.map Frame.bare) = quantifiedBy q scopes := by
  have hrule : (fun f : Frame => !f.isRule) ∘ Frame.bare = fun f => !f.isRule := by
    funext frame
    cases frame <;> rfl
  have hframe : Frame.isQuantifier q ∘ Frame.bare = Frame.isQuantifier q := by
    funext frame
    cases frame <;> rfl
  rw [quantifiedBy, List.takeWhile_map, hrule, List.any_map, hframe]
  rfl

theorem Pushing.patternIsOpen_eq {push? : Alternatives α → Scopes → Option Scopes}
    (h : Pushing push?) {child : Alternatives α} {scopes scopes' : Scopes}
    (hpush : push? child scopes = some scopes') : patternIsOpen scopes' = patternIsOpen scopes := by
  rw [← patternIsOpen_bare, h.map_bare hpush, patternIsOpen_bare]

theorem Pushing.quantifiedBy_eq {push? : Alternatives α → Scopes → Option Scopes}
    (h : Pushing push?) {q : Quantifier} {child : Alternatives α} {scopes scopes' : Scopes}
    (hpush : push? child scopes = some scopes') :
    quantifiedBy q scopes' = quantifiedBy q scopes := by
  rw [← quantifiedBy_bare, h.map_bare hpush, quantifiedBy_bare]

@[simp]
theorem quantifiedBy_rule (q : Quantifier) (id : ComponentId) (group : Group PossibilityId)
    (rest : Scopes) : quantifiedBy q (.rule id group :: rest) = false := by
  simp [quantifiedBy, Frame.isRule]

@[simp]
theorem quantifiedBy_ruleOperator (q : Quantifier) (group : Group PossibilityId) (rest : Scopes) :
    quantifiedBy q (.ruleOperator group :: rest) = quantifiedBy q rest := by
  simp [quantifiedBy, Frame.isRule, Frame.isQuantifier]

@[simp]
theorem quantifiedBy_quantifier (q q' : Quantifier) (rest : Scopes) :
    quantifiedBy q (.quantifier q' :: rest) = (q' == q || quantifiedBy q rest) := by
  simp [quantifiedBy, Frame.isRule, Frame.isQuantifier]

/-- What no child changes no children change, such as what is open. -/
theorem eq_of_pushAll {β : Type} {f : Scopes → β}
    {push? : Alternatives α → Scopes → Option Scopes}
    (hpush : ∀ child scopes scopes', push? child scopes = some scopes' → f scopes' = f scopes)
    {children : List (Alternatives α)} {scopes scopes' : Scopes}
    (h : pushAll push? children scopes = some scopes') : f scopes' = f scopes := by
  induction children generalizing scopes with
  | nil => cases h; rfl
  | cons child rest ih =>
    obtain ⟨scopes₁, h₁, hrest⟩ := Option.bind_eq_some_iff.mp h
    rw [ih hrest, hpush child scopes scopes₁ h₁]

/-- The scopes of a walk that is outside of patterns, under the given quantifiers. -/
structure Outside (around : List Quantifier) (scopes : Scopes) : Prop where
  patternIsOpen_eq : patternIsOpen scopes = false
  quantifiedBy_eq : ∀ q, quantifiedBy q scopes = decide (q ∈ around)

namespace Outside

variable {around : List Quantifier} {scopes : Scopes}

theorem rule (id : ComponentId) (group : Group PossibilityId) : Outside [] [.rule id group] :=
  ⟨rfl, fun q => by simp⟩

theorem ruleOperator (h : Outside around scopes) (group : Group PossibilityId) :
    Outside around (.ruleOperator group :: scopes) :=
  ⟨h.patternIsOpen_eq, fun q => (quantifiedBy_ruleOperator q group scopes).trans
    (h.quantifiedBy_eq q)⟩

theorem quantifier (h : Outside around scopes) (q : Quantifier) :
    Outside (q :: around) (.quantifier q :: scopes) := by
  refine ⟨h.patternIsOpen_eq, fun q' => ?_⟩
  rw [quantifiedBy_quantifier, h.quantifiedBy_eq, Bool.eq_iff_iff, Bool.or_eq_true,
    beq_iff_eq, decide_eq_true_iff, decide_eq_true_iff, List.mem_cons]
  exact or_congr_left eq_comm

theorem pushAll (h : Outside around scopes) {children : List (Alternatives PossibilityId)}
    {scopes' : Scopes} (hpush : pushAll pushToRule? children scopes = some scopes') :
    Outside around scopes' where
  patternIsOpen_eq :=
    (eq_of_pushAll (fun _ _ _ => pushing_rule.patternIsOpen_eq) hpush).trans h.patternIsOpen_eq
  quantifiedBy_eq q :=
    (eq_of_pushAll (fun _ _ _ => pushing_rule.quantifiedBy_eq) hpush).trans (h.quantifiedBy_eq q)

end Outside

/-! ## Entering -/

theorem newFrame_operator {connective : Connective} {scopes : Scopes} {frame : Frame}
    (h : newFrame (.operator connective) scopes = .ok frame) :
    frame = if patternIsOpen scopes then .patternOperator ⟨connective, []⟩
      else .ruleOperator ⟨connective, []⟩ := by
  simp only [newFrame] at h
  split at h
  · cases h
  · split at h
    · next hopen => rw [if_pos hopen]; exact (Except.ok.inj h).symm
    · next hclosed => rw [if_neg hclosed]; exact (Except.ok.inj h).symm

theorem newFrame_quantifier {q : Quantifier} {scopes : Scopes} {frame : Frame}
    (h : newFrame (.quantifier q) scopes = .ok frame) : frame = .quantifier q := by
  simp only [newFrame] at h
  split at h
  · cases h
  · exact (Except.ok.inj h).symm

theorem newFrame_pattern {id : ComponentId} {scopes : Scopes} {frame : Frame}
    (h : newFrame (.pattern id) scopes = .ok frame) :
    patternIsOpen scopes = false ∧ frame = .pattern id ⟨.and, []⟩ := by
  simp only [newFrame] at h
  split at h
  · cases h
  · split at h
    · cases h
    · next hopen => exact ⟨Bool.not_eq_true _ ▸ hopen, (Except.ok.inj h).symm⟩

theorem newFrame_rule {id : ComponentId} {scopes : Scopes} {frame : Frame}
    (h : newFrame (.rule id) scopes = .ok frame) : frame = .rule id ⟨.and, []⟩ := by
  simp only [newFrame] at h
  split at h
  · cases h
  · exact (Except.ok.inj h).symm

/-! ## Leaving -/

variable {limits : Limits} {scopes scopes' : Scopes} {closed : Closed}

theorem bind_eq_ok {ε σ β : Type} {x : EStateM ε σ α} {f : α → EStateM ε σ β} {s s'' : σ} {b : β}
    (h : (x >>= f) s = .ok b s'') : ∃ a s', x s = .ok a s' ∧ f a s' = .ok b s'' := by
  change EStateM.bind x f s = .ok b s'' at h
  rw [EStateM.bind] at h
  cases hrun : x s with
  | ok a s' =>
    rw [hrun] at h
    exact ⟨a, s', rfl, h⟩
  | error e s' =>
    rw [hrun] at h
    cases h

theorem bind_of_ok {ε σ β : Type} {x : EStateM ε σ α} {f : α → EStateM ε σ β} {s s' : σ} {a : α}
    (h : x s = .ok a s') : (x >>= f) s = f a s' := by
  change EStateM.bind x f s = f a s'
  rw [EStateM.bind, h]

theorem bind_of_error {ε σ β : Type} {x : EStateM ε σ α} {f : α → EStateM ε σ β} {s s' : σ} {e : ε}
    (h : x s = .error e s') : (x >>= f) s = .error e s' := by
  change EStateM.bind x f s = .error e s'
  rw [EStateM.bind, h]

theorem combineWithin_eq_ok {level : Level} {group : Group α} {alternatives : Alternatives α}
    (h : combineWithin limits level group scopes = .ok alternatives scopes') :
    alternatives = group.combined ∧ scopes' = scopes := by
  rw [combineWithin] at h
  split at h
  · cases h
  · cases h
    exact ⟨rfl, rfl⟩

theorem leave_eq_ok {token : Token} {frame : Frame} {rest : Scopes}
    (h : leave limits token (frame :: rest) = .ok closed scopes') :
    close limits frame rest = .ok closed scopes' := by
  rw [leave] at h
  split at h
  · exact h
  · cases h

theorem collected_eq_ok {level : Level} {group : Group α} {came : Alternatives α → Closed}
    (h : (do return came (← combineWithin limits level group) : Scoping Closed) scopes =
      .ok closed scopes') : closed = came group.combined ∧ scopes' = scopes := by
  obtain ⟨alternatives, scopes₁, hcombine, hrest⟩ := bind_eq_ok h
  obtain ⟨rfl, rfl⟩ := combineWithin_eq_ok hcombine
  cases hrest
  exact ⟨rfl, rfl⟩

theorem close_pattern {id : ComponentId} {group : Group ComponentId}
    (h : close limits (.pattern id group) scopes = .ok closed scopes') :
    closed = .pattern id group.combined ∧ scopes' = scopes :=
  collected_eq_ok h

theorem close_rule {id : ComponentId} {group : Group PossibilityId}
    (h : close limits (.rule id group) scopes = .ok closed scopes') :
    closed = .rule id group.combined ∧ scopes' = scopes :=
  collected_eq_ok h

/-- What adding a part comes to, where the scopes with the part are known. -/
def added (e : ScopeError) (scopes : Scopes) :
    Option Scopes → EStateM.Result ScopeError Scopes Unit
  | none => .error e scopes
  | some scopes' => .ok () scopes'

theorem added_eq_ok_iff {push : Option Scopes} {e : ScopeError} {u : Unit} :
    added e scopes push = .ok u scopes' ↔ push = some scopes' := by
  cases push <;> simp [added]

theorem added_eq_error {push : Option Scopes} {e e' : ScopeError}
    (h : added e scopes push = .error e' scopes') : scopes' = scopes := by
  cases push with
  | none =>
    cases h
    rfl
  | some _ => cases h

theorem addToPattern_eq (part : Part) (child : Alternatives ComponentId) (scopes : Scopes) :
    addToPattern part child scopes =
      added (.noEnclosing part .pattern) scopes (pushToPattern? child scopes) := rfl

theorem addToRule_eq (part : Part) (child : Alternatives PossibilityId) (scopes : Scopes) :
    addToRule part child scopes =
      added (.noEnclosing part .rule) scopes (pushToRule? child scopes) := rfl

theorem addToPattern_eq_ok {part : Part} {child : Alternatives ComponentId} {u : Unit}
    (h : addToPattern part child scopes = .ok u scopes') :
    pushToPattern? child scopes = some scopes' :=
  added_eq_ok_iff.mp h

theorem addToRule_eq_ok {part : Part} {child : Alternatives PossibilityId} {u : Unit}
    (h : addToRule part child scopes = .ok u scopes') :
    pushToRule? child scopes = some scopes' :=
  added_eq_ok_iff.mp h

/-- A group, under a connective, becomes one child of the scope around it. -/
theorem handedOn_eq_ok {level : Level} {group : Group α} {add : Alternatives α → Scoping Unit}
    {push? : Alternatives α → Scopes → Option Scopes}
    (hadd : ∀ {child u scopes scopes'}, add child scopes = .ok u scopes' →
      push? child scopes = some scopes')
    (h : (do
      add (← combineWithin limits level group)
      return .operator : Scoping Closed) scopes = .ok closed scopes') :
    push? group.combined scopes = some scopes' := by
  obtain ⟨alternatives, scopes₁, hcombine, hrest⟩ := bind_eq_ok h
  obtain ⟨rfl, rfl⟩ := combineWithin_eq_ok hcombine
  obtain ⟨u, scopes₂, hpush, hdone⟩ := bind_eq_ok hrest
  cases hdone
  exact hadd hpush

theorem close_patternOperator {group : Group ComponentId}
    (h : close limits (.patternOperator group) scopes = .ok closed scopes') :
    pushToPattern? group.combined scopes = some scopes' :=
  handedOn_eq_ok addToPattern_eq_ok h

theorem close_ruleOperator {group : Group PossibilityId}
    (h : close limits (.ruleOperator group) scopes = .ok closed scopes') :
    pushToRule? group.combined scopes = some scopes' :=
  handedOn_eq_ok addToRule_eq_ok h

theorem close_quantifier {q : Quantifier}
    (h : close limits (.quantifier q) scopes = .ok closed scopes') : scopes' = scopes := by
  cases h
  rfl

end RuleBase.Condition

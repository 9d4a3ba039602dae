import RuleBase.Proofs.Condition.Caller

/-!
# Tokens and their scopes

A token tells its scope by how deep that is, so it is good for as long as the scope is open: until
then it closes the scope that it was issued for, and no other. It is left behind when the scope is
dropped together with one around it. Scopes that are entered later can be as deep, and the old token
closes them.

* `Caller.ClosesOwn`, **`Caller.closesOwn_run`**: tokens of open scopes close their own;
  `Caller.not_closesOwn_reentry`: others may not.
-/

namespace RuleBase.Condition

variable {limits : Limits} {scopes scopes' rest : Scopes} {opened : List Issue} {issue : Issue}

/-! ## What frames were entered for -/

/-- What a frame was entered for. -/
def Frame.scope : Frame → Scope
  | .rule id _ => .rule id
  | .pattern id _ => .pattern id
  | .ruleOperator group => .operator group.connective
  | .patternOperator group => .operator group.connective
  | .quantifier q => .quantifier q

theorem scope_newFrame {scope : Scope} {frame : Frame} (h : newFrame scope scopes = .ok frame) :
    frame.scope = scope := by
  cases scope with
  | rule id => rw [newFrame_rule h]; rfl
  | pattern id => rw [(newFrame_pattern h).2]; rfl
  | operator connective =>
    rw [newFrame_operator h]
    split <;> rfl
  | quantifier q => rw [newFrame_quantifier h]; rfl

theorem map_scope_pushTo? {level : Level} {child : Alternatives Nat}
    (h : pushTo? level child scopes = some scopes') :
    scopes'.map Frame.scope = scopes.map Frame.scope := by
  have htakes := takes_of_pushTo? h
  clear h
  induction htakes with
  | rule id group rest => rfl
  | ruleOperator group rest => rfl
  | pattern id group rest => rfl
  | patternOperator group rest => rfl
  | quantifier q _ ih => rw [List.map_cons, List.map_cons, ih]

/-- What a scope that is left came to. -/
def Closed.IsOf (closed : Closed) : Scope → Prop
  | .rule id => ∃ possibilities, closed = .rule id possibilities
  | .pattern id => ∃ possibilities, closed = .pattern id possibilities
  | .operator _ => closed = .operator
  | .quantifier _ => closed = .quantifier

/-- Leaving takes the innermost frame away, if the token tells its depth, and else none. -/
theorem drops_leave (h : Ordered scopes) (limits : Limits) (token : Token) :
    ∃ n ≤ scopes.length, (n = 0 ∨ n = 1 ∧ token.depth + 1 = scopes.length) ∧
      (scopesAfter (leave limits token) scopes).map Frame.scope =
        (scopes.drop n).map Frame.scope := by
  rcases scopesAfter_leave h limits token with hsame | ⟨frame, rest, rfl, hdepth, hafter⟩
  · exact ⟨0, Nat.zero_le _, .inl rfl, by rw [hsame, List.drop_zero]⟩
  · refine ⟨1, by simp, .inr ⟨rfl, by simp [hdepth]⟩, ?_⟩
    rcases hafter with hrest | ⟨level, group, -, hpush⟩
    · rw [hrest, List.drop_succ_cons, List.drop_zero]
    · exact map_scope_pushTo? hpush

theorem isOf_of_leave {token : Token} {closed : Closed} (h : Ordered scopes)
    (hleave : leave limits token scopes = .ok closed scopes') :
    ∃ frame rest, scopes = frame :: rest ∧ token.depth = rest.length ∧
      closed.IsOf frame.scope := by
  have hcases := leaves_of_ordered h limits token
  rw [hleave] at hcases
  cases hcases with
  | quantifier hdepth => exact ⟨_, _, rfl, hdepth, rfl⟩
  | rule hdepth hlimit => exact ⟨_, _, rfl, hdepth, _, rfl⟩
  | pattern hdepth hlimit => exact ⟨_, _, rfl, hdepth, _, rfl⟩
  | @operator level group _ _ hdepth hlimit hpush =>
    refine ⟨_, _, rfl, hdepth, ?_⟩
    cases level <;> rfl

/-! ## Where scopes come from -/

/-- Each open scope is as deep as its token says, and what it was entered for. -/
inductive Traced : List Issue → Scopes → Prop where
  | nil : Traced [] []
  | cons {issue : Issue} {frame : Frame} {opened : List Issue} {scopes : Scopes}
      (hdepth : issue.token.depth = scopes.length) (hscope : issue.token.scope = frame.scope)
      (h : Traced opened scopes) : Traced (issue :: opened) (frame :: scopes)

theorem Traced.drop (h : Traced opened scopes) (n : Nat) :
    Traced (opened.drop n) (scopes.drop n) := by
  induction h generalizing n with
  | nil => simpa using Traced.nil
  | cons hdepth hscope h ih =>
    cases n with
    | zero => exact .cons hdepth hscope h
    | succ n => exact ih n

theorem Traced.of_map_scope (h : Traced opened scopes)
    (hmap : scopes'.map Frame.scope = scopes.map Frame.scope) : Traced opened scopes' := by
  induction h generalizing scopes' with
  | nil =>
    rw [List.map_nil, List.map_eq_nil_iff] at hmap
    subst hmap
    exact .nil
  | cons hdepth hscope h ih =>
    obtain ⟨frame', rest', rfl, hframe, hrest⟩ := List.map_eq_cons_iff.mp hmap
    have hlength := congrArg List.length hrest
    rw [List.length_map, List.length_map] at hlength
    exact .cons (hdepth.trans hlength.symm) (hscope.trans hframe.symm) (ih hrest)

theorem Traced.depth_lt (h : Traced opened scopes) (hmem : issue ∈ opened) :
    issue.token.depth < scopes.length := by
  induction h with
  | nil => cases hmem
  | cons hdepth hscope h ih =>
    rw [List.length_cons]
    rcases List.mem_cons.mp hmem with rfl | hmem
    · omega
    · exact Nat.lt_succ_of_lt (ih hmem)

/-- **Of the open scopes, only the innermost one is as deep as the innermost one.** -/
theorem Traced.innermost {frame : Frame} (h : Traced opened (frame :: rest))
    (hmem : issue ∈ opened) (hdepth : issue.token.depth = rest.length) :
    opened = issue :: opened.tail ∧ issue.token.scope = frame.scope := by
  cases h with
  | cons hdepth' hscope h =>
    rcases List.mem_cons.mp hmem with rfl | hmem
    · exact ⟨rfl, hscope⟩
    · have hlt := h.depth_lt hmem
      omega

namespace Caller

variable {c : Caller} {uses : List Use}

/-- The scopes that a caller keeps come from the entries that they came from before. -/
theorem opened_goOn {n : Nat} (hn : n ≤ c.scopes.length)
    (hmap : scopes'.map Frame.scope = (c.scopes.drop n).map Frame.scope) :
    (c.goOn scopes').opened = c.opened.drop n := by
  have hlength := congrArg List.length hmap
  rw [List.length_map, List.length_map, List.length_drop] at hlength
  unfold goOn
  rw [hlength, Nat.sub_sub_self hn]

theorem traced_goOn (h : Traced c.opened c.scopes) {n : Nat} (hn : n ≤ c.scopes.length)
    (hmap : scopes'.map Frame.scope = (c.scopes.drop n).map Frame.scope) :
    Traced (c.goOn scopes').opened scopes' := by
  rw [opened_goOn hn hmap]
  exact (h.drop n).of_map_scope hmap

/-- **Where the open scopes come from** is known after any uses. -/
theorem traced_run (limits : Limits) (uses : List Use) :
    Traced (run limits uses).opened (run limits uses).scopes := by
  refine run_induction (motive := fun c => Traced c.opened c.scopes) .nil ?_
  intro c c' use _ hstep hordered htraced
  cases hstep with
  | enter hframe => exact .cons rfl (scope_newFrame hframe).symm htraced
  | @leave issue hheld =>
    obtain ⟨n, hn, -, hmap⟩ := drops_leave hordered limits issue.token
    exact traced_goOn (c := c.handBack issue) htraced hn hmap
  | @abandon issue hheld =>
    exact traced_goOn (c := c.handBack issue) htraced (Nat.sub_le _ _) rfl
  | push hchild hpush =>
    exact traced_goOn htraced (Nat.zero_le _) (map_scope_pushTo? hpush)
  | idle => exact htraced

/-! ## Tokens -/

/-- A token closes nothing but the scope that it was issued for, which comes to what it was entered
for. -/
structure ClosesOwn (limits : Limits) (c : Caller) (issue : Issue) : Prop where
  own : (scopesAfter (Condition.leave limits issue.token) c.scopes).length < c.scopes.length →
    c.opened.head? = some issue
  isOf : ∀ closed scopes', Condition.leave limits issue.token c.scopes = .ok closed scopes' →
    closed.IsOf issue.token.scope

/-- No scope is dropped together with one around it. -/
def AbandonsInnermost (limits : Limits) (uses : List Use) : Prop :=
  ∀ before number later, uses = before ++ .abandon number :: later →
    ∀ issue ∈ (run limits before).held, issue.number = number →
      (run limits before).opened.head? = some issue

theorem closesOwn_of_mem (hordered : Ordered c.scopes) (htraced : Traced c.opened c.scopes)
    (hopen : issue ∈ c.opened) : ClosesOwn limits c issue where
  own hlt := by
    obtain ⟨n, hn, hdepth, hmap⟩ := drops_leave hordered limits issue.token
    have hlength := congrArg List.length hmap
    rw [List.length_map, List.length_map, List.length_drop] at hlength
    rcases hdepth with rfl | ⟨rfl, hdepth⟩
    · omega
    · cases hscopes : c.scopes with
      | nil => simp [hscopes] at hdepth
      | cons frame rest =>
        rw [hscopes] at htraced hdepth
        rw [(htraced.innermost hopen (Nat.succ_injective hdepth)).1]
        rfl
  isOf closed scopes' hleave := by
    obtain ⟨frame, rest, hscopes, hdepth, hisOf⟩ := isOf_of_leave hordered hleave
    rw [hscopes] at htraced
    rw [(htraced.innermost hopen hdepth).2]
    exact hisOf

theorem run_append_singleton (limits : Limits) (uses : List Use) (use : Use) :
    run limits (uses ++ [use]) = (run limits uses).step limits use := by
  simp [run]

theorem mem_handBack {other : Issue} (h : other ∈ (c.handBack issue).held) :
    other ∈ c.held ∧ other ≠ issue := by
  simp only [handBack, List.mem_filter, bne_iff_ne, ne_eq] at h
  exact ⟨h.1, fun heq => h.2 (congrArg Issue.number heq)⟩

theorem mem_drop_one {other : Issue} (hopened : opened = issue :: opened.tail)
    (hmem : other ∈ opened) (hne : other ≠ issue) : other ∈ opened.drop 1 := by
  rw [hopened] at hmem
  rw [List.drop_one]
  exact (List.mem_cons.mp hmem).resolve_left hne

/-- A step leaves no token behind, unless it drops scopes inside the one that it is about. -/
theorem Steps.held_subset {c' : Caller} {use : Use} (hstep : Steps limits c use c')
    (hordered : Ordered c.scopes) (htraced : Traced c.opened c.scopes)
    (hopened : ∀ issue ∈ c.held, issue ∈ c.opened)
    (hinnermost : ∀ number, use = .abandon number →
      ∀ issue ∈ c.held, issue.number = number → c.opened.head? = some issue) :
    ∀ issue ∈ c'.held, issue ∈ c'.opened := by
  intro other hother
  cases hstep with
  | enter hframe =>
    rcases List.mem_cons.mp hother with rfl | hother
    · exact List.mem_cons_self
    · exact List.mem_cons_of_mem _ (hopened other hother)
  | @leave issue hheld =>
    obtain ⟨hmem, hne⟩ := mem_handBack hother
    obtain ⟨n, hn, hdepth, hmap⟩ := drops_leave hordered limits issue.token
    rw [opened_goOn (c := c.handBack issue) hn hmap]
    rcases hdepth with rfl | ⟨rfl, hdepth⟩
    · exact hopened other hmem
    · cases hscopes : c.scopes with
      | nil => simp [hscopes] at hdepth
      | cons frame rest =>
        rw [hscopes] at htraced hdepth
        have hfirst := (htraced.innermost (hopened issue hheld) (Nat.succ_injective hdepth)).1
        exact mem_drop_one hfirst (hopened other hmem) hne
  | @abandon issue hheld =>
    obtain ⟨hmem, hne⟩ := mem_handBack hother
    have hdrop : ((c.handBack issue).goOn (Condition.abandon issue.token c.scopes)).opened =
        c.opened.drop (c.scopes.length - issue.token.depth) :=
      opened_goOn (c := c.handBack issue) (Nat.sub_le _ issue.token.depth) rfl
    obtain ⟨outer, houter⟩ := List.head?_eq_some_iff.mp (hinnermost _ rfl issue hheld rfl)
    have hone : c.scopes.length - issue.token.depth = 1 := by
      rw [houter] at htraced
      generalize c.scopes = scopes at htraced
      cases htraced with
      | cons hdepth hscope h =>
        rw [List.length_cons]
        omega
    rw [hdrop, hone]
    exact mem_drop_one (by rw [houter]; rfl) (hopened other hmem) hne
  | push hchild hpush =>
    rw [opened_goOn (Nat.zero_le _) (map_scope_pushTo? hpush)]
    exact hopened other hother
  | idle => exact hopened other hother

/-- Unless scopes are dropped together with others, the scope of every token that is held is open.
-/
theorem held_subset_opened (h : AbandonsInnermost limits uses) :
    ∀ issue ∈ (run limits uses).held, issue ∈ (run limits uses).opened := by
  induction uses using List.reverseRecOn with
  | nil =>
    intro issue hheld
    cases hheld
  | append_singleton uses use ih =>
    have hbefore : AbandonsInnermost limits uses := by
      intro before number later heq
      refine h before number (later ++ [use]) ?_
      rw [heq, List.append_assoc, List.cons_append]
    rw [run_append_singleton]
    refine (steps_step limits (run limits uses) use).held_subset (ordered_run limits uses)
      (traced_run limits uses) (ih hbefore) ?_
    intro number huse
    exact h uses number [] (by rw [huse])

/-- **The token of an open scope closes that scope and no other**, after any uses. All tokens that
are held are of open scopes, unless some scope was dropped together with one around it. -/
theorem closesOwn_run (limits : Limits) (uses : List Use) {issue : Issue}
    (hheld : issue ∈ (run limits uses).held)
    (hopen : issue ∈ (run limits uses).opened ∨ AbandonsInnermost limits uses) :
    ClosesOwn limits (run limits uses) issue := by
  have hmem : issue ∈ (run limits uses).opened :=
    hopen.elim id fun h => held_subset_opened h issue hheld
  exact closesOwn_of_mem (ordered_run limits uses) (traced_run limits uses) hmem

/-- A rule is dropped with a pattern in it, and another rule and another pattern are entered. -/
def reentry : List Use :=
  [.enter (.rule 1), .enter (.pattern 5), .abandon 0, .enter (.rule 1), .enter (.pattern 7)]

/-- The token of the later pattern closes it. -/
theorem closesOwn_reentry :
    ⟨3, ⟨1, .pattern 7⟩⟩ ∈ (run {} reentry).held ∧ ⟨3, ⟨1, .pattern 7⟩⟩ ∈ (run {} reentry).opened ∧
      ClosesOwn {} (run {} reentry) ⟨3, ⟨1, .pattern 7⟩⟩ := by
  have hheld : ⟨3, ⟨1, .pattern 7⟩⟩ ∈ (run {} reentry).held := by decide
  have hopened : ⟨3, ⟨1, .pattern 7⟩⟩ ∈ (run {} reentry).opened := by decide
  exact ⟨hheld, hopened, closesOwn_run {} reentry hheld (.inl hopened)⟩

/-- The token of the earlier pattern closes the later one too. -/
theorem not_closesOwn_reentry :
    ⟨1, ⟨1, .pattern 5⟩⟩ ∈ (run {} reentry).held ∧
      Condition.leave {} ⟨1, .pattern 5⟩ (run {} reentry).scopes =
        .ok (.pattern 7 [[]]) [.rule 1 ⟨.and, []⟩] ∧
      ¬ClosesOwn {} (run {} reentry) ⟨1, ⟨1, .pattern 5⟩⟩ := by
  have hleave : Condition.leave {} ⟨1, .pattern 5⟩ (run {} reentry).scopes =
      .ok (.pattern 7 [[]]) [.rule 1 ⟨.and, []⟩] := rfl
  refine ⟨by decide, hleave, fun h => ?_⟩
  obtain ⟨possibilities, heq⟩ := h.isOf _ _ hleave
  cases heq

end Caller

end RuleBase.Condition

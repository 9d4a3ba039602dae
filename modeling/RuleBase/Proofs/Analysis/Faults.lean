import RuleBase.Proofs.Analysis.Verdict
import RuleBase.Proofs.Ast.Crowded

/-!
# What may be wrong with a rule

Of all faults, a judgement finds a few kinds only. Restrictions are found inside constraints, so
they never miss one. Of what scopes forbid, only one thing is ever tried, to enter a pattern inside
another one, and whoever does so has written it: a pattern stands among the constraints of another.

* **`failsWith_judgeElement`**: what may be wrong with an element;
* **`tame_of_judgeRuleAfter`**: what may be wrong with a rule.
-/

namespace RuleBase.Analysis

open Condition

/-! ## Faults -/

/-- A fault that may be found, where patterns inside patterns are met as told. -/
structure Tame (nests : Prop) (fault : Fault) : Prop where
  /-- Restrictions miss no constraint. -/
  ne_missingContext : ∀ node, fault ≠ .missingContext node .constraint
  /-- Scopes forbid nothing else than patterns inside patterns. -/
  of_scope : ∀ e, fault = .scope e → e = .nested .pattern ∧ nests

/-- A judgement finds certain faults only. -/
def FailsWith (P : Fault → Prop) (judge : Judging) : Prop :=
  ∀ f fault, judge f = .error fault → P fault

section Steps

variable {P : Fault → Prop} {judge judge' : Judging} {limits : Limits}

theorem failsWith_pure : FailsWith P pure := by
  intro f fault hrun
  cases hrun

/-- **One part after another** finds what either finds. -/
theorem FailsWith.andThen (h : FailsWith P judge) (h' : FailsWith P judge') :
    FailsWith P (judge >=> judge') := by
  intro f fault hrun
  rcases andThen_eq_error.mp hrun with hfirst | ⟨f', -, hsecond⟩
  · exact h f fault hfirst
  · exact h' f' fault hsecond

theorem failsWith_demand {p : Prop} [Decidable p] {fault : Fault} (h : ¬p → P fault) :
    FailsWith P (demand p fault) := by
  intro f fault' hrun
  obtain ⟨hp, rfl⟩ := demand_eq_error.mp hrun
  exact h hp

theorem failsWith_declaring (name : String) : FailsWith P (declaring name) := by
  intro f fault hrun
  cases hrun

theorem failsWith_contributing (size : Nat) : FailsWith P (contributing size) := by
  intro f fault hrun
  cases hrun

/-- A group finds what is found inside, or has too many alternatives. -/
theorem FailsWith.grouping (h : FailsWith P judge) (level : Level) (connective : Connective)
    (hlimit : ∀ count, P (overLimit limits level count)) :
    FailsWith P (grouping limits level connective judge) := by
  intro f fault hrun
  rcases grouping_eq_error.mp hrun with hinside | ⟨inner, -, -, rfl⟩
  · exact h _ fault hinside
  · exact hlimit _

end Steps

section Tame

variable {nests nests' : Prop} {limits : Limits} {level : Level}

theorem Tame.mono {fault : Fault} (h : Tame nests fault) (hnests : nests → nests') :
    Tame nests' fault where
  ne_missingContext := h.ne_missingContext
  of_scope e he := (h.of_scope e he).imp_right hnests

theorem FailsWith.mono {judge : Judging} (h : FailsWith (Tame nests) judge)
    (hnests : nests → nests') : FailsWith (Tame nests') judge :=
  fun f fault hrun => (h f fault hrun).mono hnests

theorem tame_limitExceeded (limit : Limit) (cap actual : Nat) :
    Tame nests (.limitExceeded limit cap actual) := by
  constructor <;> rintro _ ⟨⟩

theorem tame_overLimit (limits : Limits) (level : Level) (count : Nat) :
    Tame nests (overLimit limits level count) := by
  cases level <;> exact tame_limitExceeded _ _ _

theorem tame_unresolvedVariable (name : String) : Tame nests (.unresolvedVariable name) := by
  constructor <;> rintro _ ⟨⟩

theorem tame_missingContext (node : Inner) : Tame nests (.missingContext node .pattern) := by
  constructor <;> rintro _ ⟨⟩

theorem failsWith_resolving (name : String) : FailsWith (Tame nests) (resolving name) :=
  fun f => failsWith_demand (fun _ => tame_unresolvedVariable name) f

theorem failsWith_descending (depth : Nat) : FailsWith (Tame nests) (descending limits depth) :=
  failsWith_demand fun _ => tame_limitExceeded _ _ _

theorem failsWith_insidePattern (node : Inner) :
    FailsWith (Tame nests) (insidePattern level node) :=
  failsWith_demand fun _ => tame_missingContext node

/-! ## Parts of a pattern -/

theorem failsWith_judgeOperand (operand : Ast.Operand) :
    FailsWith (Tame nests) (judgeOperand operand) := by
  cases operand with
  | literal text => exact failsWith_pure
  | var identifier => exact failsWith_resolving identifier
  | returnValue content declarations method => exact failsWith_pure
  | qualified text =>
    refine .andThen (failsWith_demand fun _ => ?_) (failsWith_resolving _)
    constructor <;> rintro _ ⟨⟩

theorem failsWith_judgeComparison (symbol : String) (negated : Bool) (operand : Ast.Operand) :
    FailsWith (Tame nests) (judgeComparison symbol negated operand) := by
  refine .andThen (failsWith_demand fun _ => ?_) ?_
  · constructor <;> rintro _ ⟨⟩
  · exact (failsWith_judgeOperand operand).andThen (failsWith_contributing 1)

mutual
theorem failsWith_judgeRestriction (depth : Nat) (r : Ast.Restriction) :
    FailsWith (Tame nests) (judgeRestriction limits depth r) := by
  cases r with
  | comparison symbol negated operand =>
    rw [judgeRestriction]
    exact failsWith_judgeComparison symbol negated operand
  | group connective restrictions =>
    rw [judgeRestriction]
    have hinside := failsWith_judgeRestrictions (depth + 1) restrictions
    exact (failsWith_descending depth).andThen
      (hinside.grouping .pattern connective (tame_overLimit limits .pattern))
  | unknown =>
    rw [judgeRestriction]
    exact failsWith_pure

theorem failsWith_judgeRestrictions (depth : Nat) (rs : List Ast.Restriction) :
    FailsWith (Tame nests) (judgeRestrictions limits depth rs) := by
  cases rs with
  | nil =>
    rw [judgeRestrictions]
    exact failsWith_pure
  | cons r rest =>
    rw [judgeRestrictions]
    exact (failsWith_judgeRestriction depth r).andThen (failsWith_judgeRestrictions depth rest)
end

mutual
theorem failsWith_judgeInvoker (depth : Nat) (i : Ast.Invoker) :
    FailsWith (Tame nests) (judgeInvoker limits depth i) := by
  cases i with
  | accessor name invokers =>
    rw [judgeInvoker]
    exact (failsWith_descending depth).andThen (failsWith_judgeInvokers (depth + 1) invokers)
  | fieldAccess | methodAccess | functionCall | unknown =>
    rw [judgeInvoker]
    exact failsWith_pure

theorem failsWith_judgeInvokers (depth : Nat) (is : List Ast.Invoker) :
    FailsWith (Tame nests) (judgeInvokers limits depth is) := by
  cases is with
  | nil =>
    rw [judgeInvokers]
    exact failsWith_pure
  | cons i rest =>
    rw [judgeInvokers]
    exact (failsWith_judgeInvoker depth i).andThen (failsWith_judgeInvokers depth rest)
end

theorem failsWith_judgeIdentifier (identifier : Option String) :
    FailsWith (Tame nests) (judgeIdentifier identifier) := by
  cases identifier with
  | none => exact failsWith_pure
  | some name => exact failsWith_declaring name

end Tame

section Elements

variable {limits : Limits}

mutual
theorem failsWith_judgeElement (level : Level) (depth : Nat) (e : Ast.Element) :
    FailsWith (Tame (e.Nests level)) (judgeElement limits level depth e) := by
  cases e with
  | pattern p =>
    rw [judgeElement]
    exact (failsWith_judgePattern level depth p).mono (·.element)
  | group connective elements =>
    rw [judgeElement]
    have hinside := (failsWith_judgeElements level (depth + 1) elements).mono
      fun ⟨_, hmem, hnests⟩ => hnests.group connective hmem
    exact (failsWith_descending depth).andThen
      (hinside.grouping level connective (tame_overLimit limits level))
  | quantified q elements =>
    rw [judgeElement]
    have hinside := (failsWith_judgeElements level (depth + 1) elements).mono
      fun ⟨_, hmem, hnests⟩ => hnests.quantified q hmem
    exact (failsWith_descending depth).andThen hinside
  | eval content method =>
    rw [judgeElement]
    exact failsWith_pure
  | predicate content method =>
    rw [judgeElement]
    exact failsWith_insidePattern .predicate
  | constraint fieldName restrictions line =>
    rw [judgeElement]
    exact (failsWith_insidePattern .constraint).andThen
      (failsWith_judgeRestrictions depth restrictions)
  | binding identifier fieldName line =>
    rw [judgeElement]
    exact (failsWith_insidePattern .binding).andThen (failsWith_declaring identifier)
  | unknown =>
    rw [judgeElement]
    exact failsWith_pure

theorem failsWith_judgeElements (level : Level) (depth : Nat) (es : List Ast.Element) :
    FailsWith (Tame (∃ e ∈ es, e.Nests level)) (judgeElements limits level depth es) := by
  cases es with
  | nil =>
    rw [judgeElements]
    exact failsWith_pure
  | cons e rest =>
    rw [judgeElements]
    refine .andThen ((failsWith_judgeElement level depth e).mono fun hnests => ?_)
      ((failsWith_judgeElements level depth rest).mono ?_)
    · exact ⟨e, List.mem_cons_self, hnests⟩
    · rintro ⟨e', hmem, hnests⟩
      exact ⟨e', List.mem_cons_of_mem e hmem, hnests⟩

theorem failsWith_judgePattern (level : Level) (depth : Nat) (p : Ast.Pattern) :
    FailsWith (Tame (p.Nests level)) (judgePattern limits level depth p) := by
  cases p with
  | mk objectType identifier source constraints line =>
    rw [judgePattern]
    let nests : Prop := (Ast.Pattern.mk objectType identifier source constraints line).Nests level
    have hsource : FailsWith (Tame nests) (judgeSource? limits level (depth + 1) source) := by
      refine (failsWith_judgeSource? level (depth + 1) source).mono ?_
      rintro ⟨source, rfl, hnests⟩
      exact hnests.pattern
    have hnested : FailsWith (Tame nests) (demand (level = .rule) (.scope (.nested .pattern))) := by
      refine failsWith_demand fun hlevel => ⟨by rintro _ ⟨⟩, ?_⟩
      rintro _ ⟨⟩
      cases level with
      | rule => exact absurd rfl hlevel
      | pattern => exact ⟨rfl, trivial⟩
    have hconstraints : FailsWith (Tame nests)
        (judgeElements limits .pattern (depth + 1) constraints) := by
      refine (failsWith_judgeElements .pattern (depth + 1) constraints).mono ?_
      rintro ⟨e, hmem, hnests⟩
      exact hnests.ofPattern hmem
    exact (failsWith_descending depth).andThen <| (failsWith_judgeIdentifier identifier).andThen <|
      hsource.andThen <| hnested.andThen <|
        hconstraints.grouping .pattern .and (tame_overLimit limits .pattern)

theorem failsWith_judgeSource? (level : Level) (depth : Nat) (source : Option Ast.Source) :
    FailsWith (Tame (∃ s, source = some s ∧ s.Nests level))
      (judgeSource? limits level depth source) := by
  cases source with
  | none =>
    rw [judgeSource?]
    exact failsWith_pure
  | some source =>
    rw [judgeSource?]
    exact (failsWith_judgeSource level depth source).mono fun hnests => ⟨source, rfl, hnests⟩

theorem failsWith_judgeSource (level : Level) (depth : Nat) (source : Ast.Source) :
    FailsWith (Tame (source.Nests level)) (judgeSource limits level depth source) := by
  cases source with
  | accumulate input code =>
    rw [judgeSource]
    have hinput := (failsWith_judgePattern level (depth + 1) input).mono (·.accumulate code)
    exact (failsWith_descending depth).andThen hinput
  | collect input method =>
    rw [judgeSource]
    have hinput := (failsWith_judgePattern level (depth + 1) input).mono (·.collect method)
    exact (failsWith_descending depth).andThen hinput
  | supplied dataSource =>
    rw [judgeSource]
    exact (failsWith_descending depth).andThen (failsWith_judgeInvoker (depth + 1) dataSource)
  | unknown =>
    rw [judgeSource]
    exact failsWith_descending depth
end

end Elements

/-! ## Rules -/

/-- **What may be wrong with a rule**, whatever variables it is taken to have declared before. -/
theorem tame_of_judgeRuleAfter {limits : Limits} {declared : List String} {r : Ast.Rule}
    {fault : Fault} (h : judgeRuleAfter limits declared r = .error fault) :
    Tame (∃ p ∈ r.patterns, p.Crowded) fault := by
  have hlhs : FailsWith _ (judgeElements limits .rule 0 r.lhs) :=
    failsWith_judgeElements .rule 0 r.lhs
  have hrule := hlhs.grouping .rule .and (tame_overLimit limits .rule)
  refine (hrule _ fault h).mono ?_
  rintro ⟨e, hmem, p, hp, hcrowded⟩
  exact ⟨p, List.mem_flatMap.mpr ⟨e, hmem, hp⟩, hcrowded⟩

end RuleBase.Analysis

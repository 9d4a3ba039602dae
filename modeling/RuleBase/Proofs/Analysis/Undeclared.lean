import RuleBase.Proofs.Analysis.Acceptance

/-!
# Variables that are not declared

If a rule is refused for a variable, the walk through the rule has come by a comparison that needs
the variable, and it has not come by a declaration of it before. What is declared elsewhere plays no
part in it.

* `Tracks`, **`tracks_element`**: judgements refuse for a variable that is missed only;
* **`misses_of_verdict?`**: why a rule is refused for a variable.
-/

namespace RuleBase.Analysis

open Condition Ast

/-! ## Variables that are missed -/

/-- Some comparison on a walk needs a variable that has not been declared before. -/
def Misses (declared : List String) (visits : List Visit) (name : String) : Prop :=
  ∃ before symbol operand after, visits = before ++ .compares symbol operand :: after ∧
    operand.var? = some name ∧ name ∉ declared ++ names before

section Misses

variable {declared : List String} {visits visits' : List Visit} {name : String}

theorem Misses.append_left (h : Misses declared visits name) :
    Misses declared (visits ++ visits') name := by
  obtain ⟨before, symbol, operand, after, rfl, hvar, hnot⟩ := h
  refine ⟨before, symbol, operand, after ++ visits', ?_, hvar, hnot⟩
  rw [List.append_assoc, List.cons_append]

theorem Misses.append_right (h : Misses (declared ++ names visits) visits' name) :
    Misses declared (visits ++ visits') name := by
  obtain ⟨before, symbol, operand, after, rfl, hvar, hnot⟩ := h
  refine ⟨visits ++ before, symbol, operand, after, (List.append_assoc _ _ _).symm, hvar, ?_⟩
  rwa [names_append, ← List.append_assoc]

end Misses

/-! ## Judgements -/

/-- A judgement follows what a walk declares, and refuses for a variable that is missed only. -/
structure Tracks (judge : Judging) (visits : List Visit) : Prop where
  declared_eq : ∀ f f', judge f = .ok f' → f'.declared = f.declared ++ names visits
  misses : ∀ f name, judge f = .error (.unresolvedVariable name) → Misses f.declared visits name

section Steps

variable {limits : Limits} {judge judge' : Judging} {visits visits' : List Visit}

theorem tracks_pure : Tracks pure [] where
  declared_eq f f' h := by
    cases h
    exact (List.append_nil _).symm
  misses f name h := by cases h

theorem tracks_demand {p : Prop} [Decidable p] {fault : Fault}
    (hfault : ∀ name, fault ≠ .unresolvedVariable name) : Tracks (demand p fault) [] where
  declared_eq f f' h := by
    obtain ⟨-, rfl⟩ := demand_eq_ok.mp h
    exact (List.append_nil _).symm
  misses f name h := absurd (demand_eq_error.mp h).2.symm (hfault name)

theorem tracks_declaring (name : String) : Tracks (declaring name) [.declares name] where
  declared_eq f f' h := by
    cases h
    rfl
  misses f name h := by cases h

/-- **One judgement after another.** -/
theorem Tracks.append (h : Tracks judge visits) (h' : Tracks judge' visits') :
    Tracks (judge >=> judge') (visits ++ visits') where
  declared_eq f f'' hok := by
    obtain ⟨f', hfirst, hsecond⟩ := andThen_eq_ok.mp hok
    rw [h'.declared_eq f' f'' hsecond, h.declared_eq f f' hfirst, names_append, List.append_assoc]
  misses f name herror := by
    obtain hfirst | ⟨f', hfirst, hsecond⟩ := andThen_eq_error.mp herror
    · exact (h.misses f name hfirst).append_left
    · refine Misses.append_right ?_
      rw [← h.declared_eq f f' hfirst]
      exact h'.misses f' name hsecond

theorem Tracks.demand_andThen {p : Prop} [Decidable p] {fault : Fault}
    (hfault : ∀ name, fault ≠ .unresolvedVariable name) (h : Tracks judge visits) :
    Tracks (demand p fault >=> judge) visits :=
  (tracks_demand hfault).append h

theorem Tracks.descend {depth : Nat} (h : Tracks judge visits) :
    Tracks (descending limits depth >=> judge) visits :=
  h.demand_andThen nofun

theorem Tracks.group {level : Level} {connective : Connective} (h : Tracks judge visits) :
    Tracks (grouping limits level connective judge) visits where
  declared_eq f f' hok := by
    obtain ⟨inner, hinside, -, rfl⟩ := grouping_eq_ok.mp hok
    exact h.declared_eq { f with sizes := [] } inner hinside
  misses f name herror := by
    obtain hinside | ⟨inner, -, -, hfault⟩ := grouping_eq_error.mp herror
    · exact h.misses { f with sizes := [] } name hinside
    · cases level <;> cases hfault

/-- An operand is refused for its own variable only. -/
theorem var?_of_judgeOperand {operand : Ast.Operand} {f : Findings} {name : String}
    (h : judgeOperand operand f = .error (.unresolvedVariable name)) :
    operand.var? = some name ∧ name ∉ f.declared := by
  cases operand with
  | literal text => cases h
  | returnValue content declarations method => cases h
  | var identifier =>
    obtain ⟨hnot, hfault⟩ := demand_eq_error.mp h
    cases hfault
    exact ⟨rfl, hnot⟩
  | qualified text =>
    rw [judgeOperand] at h
    obtain hpath | ⟨f', hpath, hvar⟩ := andThen_eq_error.mp h
    · cases (demand_eq_error.mp hpath).2
    · obtain ⟨-, rfl⟩ := demand_eq_ok.mp hpath
      obtain ⟨hnot, hfault⟩ := demand_eq_error.mp hvar
      cases hfault
      exact ⟨rfl, hnot⟩

theorem tracks_comparison (symbol : String) (negated : Bool) (operand : Ast.Operand) :
    Tracks (judgeComparison symbol negated operand) [.compares symbol operand] where
  declared_eq f f' hok := by
    obtain ⟨-, rfl⟩ := judgeComparison_eq_ok.mp hok
    exact (List.append_nil _).symm
  misses f name herror := by
    rw [judgeComparison] at herror
    obtain hsymbol | ⟨f', hsymbol, hrest⟩ := andThen_eq_error.mp herror
    · cases (demand_eq_error.mp hsymbol).2
    · obtain ⟨-, rfl⟩ := demand_eq_ok.mp hsymbol
      obtain hoperand | ⟨f'', -, hdone⟩ := andThen_eq_error.mp hrest
      · obtain ⟨hvar, hnot⟩ := var?_of_judgeOperand hoperand
        refine ⟨[], symbol, operand, [], rfl, hvar, ?_⟩
        rwa [names, List.filterMap_nil, List.append_nil]
      · cases hdone

end Steps

/-! ## Judgements of parts -/

variable {limits : Limits}

mutual
theorem tracks_restriction (depth : Nat) (r : Ast.Restriction) :
    Tracks (judgeRestriction limits depth r) r.visits := by
  cases r with
  | comparison symbol negated operand =>
    rw [judgeRestriction, Restriction.visits]
    exact tracks_comparison symbol negated operand
  | group connective restrictions =>
    rw [judgeRestriction, Restriction.visits]
    exact (tracks_restrictions (depth + 1) restrictions).group.descend
  | unknown =>
    rw [judgeRestriction, Restriction.visits]
    exact tracks_pure

theorem tracks_restrictions (depth : Nat) (rs : List Ast.Restriction) :
    Tracks (judgeRestrictions limits depth rs) (rs.flatMap Restriction.visits) := by
  cases rs with
  | nil =>
    rw [judgeRestrictions]
    exact tracks_pure
  | cons r rest =>
    rw [judgeRestrictions, List.flatMap_cons]
    exact (tracks_restriction depth r).append (tracks_restrictions depth rest)
end

mutual
/-- Invokers need no variables. -/
theorem tracks_invoker (depth : Nat) (i : Ast.Invoker) :
    Tracks (judgeInvoker limits depth i) [] := by
  cases i with
  | accessor name invokers =>
    rw [judgeInvoker]
    exact (tracks_invokers (depth + 1) invokers).descend
  | _ =>
    rw [judgeInvoker]
    exact tracks_pure

theorem tracks_invokers (depth : Nat) (is : List Ast.Invoker) :
    Tracks (judgeInvokers limits depth is) [] := by
  cases is with
  | nil =>
    rw [judgeInvokers]
    exact tracks_pure
  | cons i rest =>
    rw [judgeInvokers]
    exact (tracks_invoker depth i).append (tracks_invokers depth rest)
end

theorem tracks_identifier (identifier : Option String) :
    Tracks (judgeIdentifier identifier) (identifier.map Visit.declares).toList := by
  cases identifier with
  | none => exact tracks_pure
  | some name => exact tracks_declaring name

mutual
/-- **The judgement of an element follows what the element declares.** -/
theorem tracks_element (level : Level) (depth : Nat) (e : Ast.Element) :
    Tracks (judgeElement limits level depth e) e.visits := by
  cases e with
  | pattern p =>
    rw [judgeElement, Element.visits]
    exact tracks_pattern level depth p
  | group connective elements =>
    rw [judgeElement, Element.visits]
    exact (tracks_elements level (depth + 1) elements).group.descend
  | quantified q elements =>
    rw [judgeElement, Element.visits]
    exact (tracks_elements level (depth + 1) elements).descend
  | eval content method =>
    rw [judgeElement, Element.visits]
    exact tracks_pure
  | predicate content method =>
    rw [judgeElement, Element.visits]
    exact tracks_demand nofun
  | constraint fieldName restrictions line =>
    rw [judgeElement, Element.visits]
    exact (tracks_restrictions depth restrictions).demand_andThen nofun
  | binding identifier fieldName line =>
    rw [judgeElement, Element.visits]
    exact (tracks_declaring identifier).demand_andThen nofun
  | unknown =>
    rw [judgeElement, Element.visits]
    exact tracks_pure

theorem tracks_elements (level : Level) (depth : Nat) (es : List Ast.Element) :
    Tracks (judgeElements limits level depth es) (es.flatMap fun e => e.visits) := by
  cases es with
  | nil =>
    rw [judgeElements]
    exact tracks_pure
  | cons e rest =>
    rw [judgeElements, List.flatMap_cons]
    exact (tracks_element level depth e).append (tracks_elements level depth rest)

/-- A pattern declares its variable before its source and its constraints. -/
theorem tracks_pattern (level : Level) (depth : Nat) (p : Ast.Pattern) :
    Tracks (judgePattern limits level depth p) p.visits := by
  cases p with
  | mk objectType identifier source constraints line =>
    rw [judgePattern, Pattern.visits.eq_def]
    simp only [List.append_assoc]
    have hconstraints := tracks_elements .pattern (depth + 1) constraints
    refine ((tracks_identifier identifier).append ?_).descend
    exact (tracks_source? level (depth + 1) source).append (hconstraints.group.demand_andThen nofun)

theorem tracks_source? (level : Level) (depth : Nat) (source : Option Ast.Source) :
    Tracks (judgeSource? limits level depth source)
      (match source with
        | none => []
        | some source => source.visits) := by
  cases source with
  | none =>
    rw [judgeSource?]
    exact tracks_pure
  | some source =>
    rw [judgeSource?]
    exact tracks_source level depth source

theorem tracks_source (level : Level) (depth : Nat) (source : Ast.Source) :
    Tracks (judgeSource limits level depth source) source.visits := by
  cases source with
  | accumulate input code =>
    rw [judgeSource, Source.visits]
    exact (tracks_pattern level (depth + 1) input).descend
  | collect input method =>
    rw [judgeSource, Source.visits]
    exact (tracks_pattern level (depth + 1) input).descend
  | supplied dataSource =>
    rw [judgeSource, Source.visits]
    exact (tracks_invoker (depth + 1) dataSource).descend
  | unknown =>
    rw [judgeSource, Source.visits, ← andThen_pure (descending limits depth)]
    exact tracks_pure.descend
end

/-! ## Rules -/

/-- **A rule that is refused for a variable misses it.** -/
theorem misses_of_verdict? {r : Ast.Rule} {e : Error} {name : String}
    (h : verdict? limits r = some e) (hfault : e.fault = .unresolvedVariable name) :
    Misses [] r.visits name := by
  rw [verdict?] at h
  cases hjudge : judgeRule limits r with
  | ok f =>
    rw [hjudge] at h
    cases h
  | error fault =>
    rw [hjudge] at h
    cases h
    cases hfault
    exact (tracks_elements .rule 0 r.lhs).group.misses {} name hjudge

end RuleBase.Analysis

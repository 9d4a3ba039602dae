import RuleBase.Condition.Scope
import RuleBase.Proofs.Ast.Formula
import RuleBase.Proofs.Operator

/-!
# Well-formed rules

What a rule has to be like for an analysis to make sense of it, whatever the limits are: its parts
stand where they have a meaning, its comparisons are comparisons, and its variables are declared
before they are used.

* `Element.WellPlaced`: no part stands outside of what gives it a meaning;
* `Operand.IsPath`, `IsComparison`: what is asked of a single comparison;
* **`Rule.WellFormed`**: what is asked of a rule; **`legal_append`**: of parts of a walk.
-/

namespace RuleBase.Ast

open Condition

/-! ## Visits -/

/-- What a walk through a condition comes by. -/
inductive Visit where
  /-- A variable is declared. -/
  | declares (name : String)
  /-- A field is compared, under a written symbol. -/
  | compares (symbol : String) (operand : Operand)

/-- The comparisons of a restriction. -/
def Restriction.visits : Restriction → List Visit
  | .comparison symbol _ operand => [.compares symbol operand]
  | .group _ restrictions => restrictions.flatMap visits
  | .unknown => []

mutual
/-- What a walk through an element comes by. -/
def Element.visits : Element → List Visit
  | .pattern p => p.visits
  | .group _ elements => elements.flatMap fun e => e.visits
  | .quantified _ elements => elements.flatMap fun e => e.visits
  | .constraint _ restrictions _ => restrictions.flatMap Restriction.visits
  | .binding identifier _ _ => [.declares identifier]
  | .eval .. => []
  | .predicate .. => []
  | .unknown => []

/-- What a walk through a pattern comes by: the pattern's own variable, then its source, then its
constraints. -/
def Pattern.visits : Pattern → List Visit
  | .mk _ identifier source constraints _ =>
    (identifier.map Visit.declares).toList ++
      (match source with
      | none => []
      | some source => source.visits) ++
      constraints.flatMap fun e => e.visits

/-- What a walk through a source comes by. -/
def Source.visits : Source → List Visit
  | .accumulate input _ => input.visits
  | .collect input _ => input.visits
  | .supplied _ => []
  | .unknown => []
end

/-- What a walk through a rule comes by. -/
def Rule.visits (r : Rule) : List Visit := r.lhs.flatMap Element.visits

/-! ## Places -/

mutual
/-- Constraints, bindings and predicates stand inside the constraints of a pattern only, and no
pattern does. -/
def Element.WellPlaced (level : Level) : Element → Prop
  | .pattern p => level = .rule ∧ p.WellPlaced
  | .group _ elements => ∀ e ∈ elements, e.WellPlaced level
  | .quantified _ elements => ∀ e ∈ elements, e.WellPlaced level
  | .constraint .. => level = .pattern
  | .binding .. => level = .pattern
  | .predicate .. => level = .pattern
  | .eval .. => True
  | .unknown => True

/-- The same for what is in a pattern. -/
def Pattern.WellPlaced : Pattern → Prop
  | .mk _ _ source constraints _ =>
    (match source with
      | none => True
      | some source => source.WellPlaced) ∧
    ∀ e ∈ constraints, e.WellPlaced .pattern

/-- The same for what is in a source. -/
def Source.WellPlaced : Source → Prop
  | .accumulate input _ => input.WellPlaced
  | .collect input _ => input.WellPlaced
  | .supplied _ => True
  | .unknown => True
end

/-! ## Comparisons -/

/-- A comparison is written, perhaps after a `not `. -/
def IsComparison (symbol : String) : Prop :=
  ∃ (e : Evaluator) (negated : Bool), e.Written symbol.toList negated

/-- The variable that an operand needs: itself, or the one that its path starts from. -/
def Operand.var? : Operand → Option String
  | .literal _ => none
  | .var identifier => some identifier
  | .returnValue .. => none
  | .qualified text => some (String.ofList (text.toList.takeWhile (· != '.')))

/-- A path has a dot. -/
def Operand.IsPath : Operand → Prop
  | .qualified text => '.' ∈ text.toList
  | _ => True

theorem isSome_determine?_iff (symbol : String) (negated : Bool) :
    (Operator.determine? symbol negated).isSome ↔ IsComparison symbol := by
  rw [Option.isSome_iff_exists]
  simp only [Operator.determine?_eq_some_iff]
  exact ⟨fun ⟨_, e, flipped, hwritten, _⟩ => ⟨e, flipped, hwritten⟩,
    fun ⟨e, flipped, hwritten⟩ => ⟨_, e, flipped, hwritten, rfl⟩⟩

/-! ## Rules -/

/-- A rule that an analysis can make sense of. -/
structure Rule.WellFormed (r : Rule) : Prop where
  placed : ∀ e ∈ r.lhs, e.WellPlaced .rule
  isComparison : ∀ symbol operand, .compares symbol operand ∈ r.visits → IsComparison symbol
  isPath : ∀ symbol operand, .compares symbol operand ∈ r.visits → operand.IsPath
  /-- Variables are declared before they are used. -/
  declared : ∀ before symbol operand after name,
    r.visits = before ++ .compares symbol operand :: after → operand.var? = some name →
      .declares name ∈ before

/-- The variables that are declared. -/
def names (visits : List Visit) : List String :=
  visits.filterMap fun
    | .declares name => some name
    | .compares .. => none

@[simp]
theorem names_append (visits visits' : List Visit) :
    names (visits ++ visits') = names visits ++ names visits' :=
  List.filterMap_append

theorem mem_names {name : String} {visits : List Visit} :
    name ∈ names visits ↔ .declares name ∈ visits := by
  simp only [names, List.mem_filterMap]
  constructor
  · rintro ⟨visit, hvisit, hname⟩
    cases visit with
    | declares name' => cases hname; exact hvisit
    | compares => cases hname
  · exact fun h => ⟨_, h, rfl⟩

/-- All comparisons of a walk make sense, if some variables have been declared before. -/
def Legal (declared : List String) : List Visit → Prop
  | [] => True
  | .declares name :: rest => Legal (declared ++ [name]) rest
  | .compares symbol operand :: rest =>
    (IsComparison symbol ∧ operand.IsPath ∧ ∀ name, operand.var? = some name → name ∈ declared) ∧
      Legal declared rest

/-- **What comes first may declare what comes later.** -/
theorem legal_append {declared : List String} {visits visits' : List Visit} :
    Legal declared (visits ++ visits') ↔
      Legal declared visits ∧ Legal (declared ++ names visits) visits' := by
  induction visits generalizing declared with
  | nil => simp [Legal, names]
  | cons visit rest ih =>
    cases visit with
    | declares name =>
      simp only [List.cons_append, Legal, ih, names, List.filterMap_cons, List.append_assoc,
        List.nil_append]
    | compares symbol operand =>
      simp only [List.cons_append, Legal, ih, names, List.filterMap_cons, and_assoc]

theorem legal_iff {declared : List String} {visits : List Visit} :
    Legal declared visits ↔ ∀ before symbol operand after,
      visits = before ++ .compares symbol operand :: after →
        IsComparison symbol ∧ operand.IsPath ∧
          ∀ name, operand.var? = some name → name ∈ declared ++ names before := by
  induction visits generalizing declared with
  | nil => simp [Legal]
  | cons visit rest ih =>
    cases visit with
    | declares name =>
      rw [Legal, ih]
      constructor
      · intro h before symbol operand after heq
        cases before with
        | nil => cases heq
        | cons first before =>
          obtain ⟨rfl, rfl⟩ := List.cons_eq_cons.mp heq
          simpa [names] using h before symbol operand after rfl
      · rintro h before symbol operand after rfl
        simpa [names] using h (.declares name :: before) symbol operand after rfl
    | compares symbol operand =>
      rw [Legal, ih]
      constructor
      · rintro ⟨hfirst, h⟩ before symbol' operand' after heq
        cases before with
        | nil =>
          obtain ⟨hsame, rfl⟩ := List.cons_eq_cons.mp heq
          cases hsame
          simpa [names] using hfirst
        | cons first before =>
          obtain ⟨rfl, rfl⟩ := List.cons_eq_cons.mp heq
          simpa [names] using h before symbol' operand' after rfl
      · intro h
        refine ⟨by simpa [names] using h [] symbol operand rest rfl, ?_⟩
        rintro before symbol' operand' after rfl
        simpa [names] using h (.compares symbol operand :: before) symbol' operand' after rfl

theorem wellFormed_iff {r : Rule} :
    r.WellFormed ↔ (∀ e ∈ r.lhs, e.WellPlaced .rule) ∧ Legal [] r.visits := by
  rw [legal_iff]
  constructor
  · rintro ⟨hplaced, hsymbol, hpath, hdeclared⟩
    refine ⟨hplaced, fun before symbol operand after heq => ?_⟩
    have hmem : .compares symbol operand ∈ r.visits := by simp [heq]
    refine ⟨hsymbol _ _ hmem, hpath _ _ hmem, fun name hname => ?_⟩
    rw [List.nil_append, mem_names]
    exact hdeclared _ _ _ _ _ heq hname
  · rintro ⟨hplaced, hlegal⟩
    have hmem : ∀ {symbol operand}, .compares symbol operand ∈ r.visits →
        IsComparison symbol ∧ operand.IsPath := by
      intro symbol operand h
      obtain ⟨before, after, heq⟩ := List.append_of_mem h
      have hthere := hlegal before symbol operand after heq
      exact ⟨hthere.1, hthere.2.1⟩
    refine ⟨hplaced, fun _ _ h => (hmem h).1, fun _ _ h => (hmem h).2, ?_⟩
    intro before symbol operand after name heq hname
    have hthere := (hlegal before symbol operand after heq).2.2 name hname
    rwa [List.nil_append, mem_names] at hthere

end RuleBase.Ast

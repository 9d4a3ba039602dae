import RuleBase.Proofs.Analysis.Verdict

/-!
# Which rules are accepted

A rule passes its judgement exactly if it is well-formed and goes beyond no limit. Groups are judged
from the inside, against the limit of the whole pattern or rule; since no group has more
alternatives than what it is a part of, that is no stricter than judging the whole.

* `Profile`, `Judged`: what decides about a part of a rule, and judgements that pass just that;
* **`judged_element`**, `judged_pattern`: every judgement is right about its part;
* **`verdict?_eq_none_iff`**, `exceeds_of_verdict?`: which rules are accepted, and why a well-formed
  one is not.
-/

namespace RuleBase.Analysis

open Condition Ast

/-! ## Profiles -/

/-- What decides about a part of a rule. -/
structure Profile where
  /-- All of it stands where it has a meaning. -/
  Placed : Prop := True
  visits : List Visit := []
  nesting : Nat := 0
  patterns : List Ast.Pattern := []
  sizes : List Nat := []

/-- One part after another. -/
def Profile.append (π π' : Profile) : Profile where
  Placed := π.Placed ∧ π'.Placed
  visits := π.visits ++ π'.visits
  nesting := max π.nesting π'.nesting
  patterns := π.patterns ++ π'.patterns
  sizes := π.sizes ++ π'.sizes

/-- Parts side by side. -/
def Profile.all {α : Type} (profile : α → Profile) (parts : List α) : Profile where
  Placed := ∀ a ∈ parts, (profile a).Placed
  visits := parts.flatMap fun a => (profile a).visits
  nesting := deepest (parts.map fun a => (profile a).nesting)
  patterns := parts.flatMap fun a => (profile a).patterns
  sizes := parts.flatMap fun a => (profile a).sizes

/-- A part that goes one level deeper. -/
def Profile.deeper (π : Profile) : Profile := { π with nesting := 1 + π.nesting }

/-- A group around a part. -/
def Profile.group (connective : Connective) (π : Profile) : Profile :=
  { π with sizes := [ways connective π.sizes] }

/-- A pattern around its constraints. -/
def Profile.ofPattern (p : Ast.Pattern) (π : Profile) : Profile :=
  { π with patterns := [p], sizes := [p.width] }

theorem Profile.all_nil {α : Type} (profile : α → Profile) : Profile.all profile [] = {} := by
  simp [Profile.all, deepest]

theorem Profile.all_cons {α : Type} (profile : α → Profile) (a : α) (parts : List α) :
    Profile.all profile (a :: parts) = (profile a).append (Profile.all profile parts) := by
  simp [Profile.all, Profile.append, deepest]

/-- A part that starts at some depth goes beyond no limit. -/
structure Profile.Fits (limits : Limits) (depth : Nat) (π : Profile) : Prop where
  nesting_le : depth + π.nesting ≤ limits.maxNestingDepth
  width_le : ∀ p ∈ π.patterns, min p.width countCeiling ≤ limits.maxPatternPossibilities

theorem fits_append {limits : Limits} {depth : Nat} {π π' : Profile} :
    (π.append π').Fits limits depth ↔ π.Fits limits depth ∧ π'.Fits limits depth := by
  constructor
  · rintro ⟨hnesting, hwidth⟩
    simp only [Profile.append] at hnesting hwidth
    exact ⟨⟨by omega, fun p hp => hwidth p (List.mem_append_left _ hp)⟩,
      ⟨by omega, fun p hp => hwidth p (List.mem_append_right _ hp)⟩⟩
  · rintro ⟨⟨hnesting, hwidth⟩, ⟨hnesting', hwidth'⟩⟩
    refine ⟨by simp only [Profile.append]; omega, fun p hp => ?_⟩
    rcases List.mem_append.mp hp with hp | hp
    · exact hwidth p hp
    · exact hwidth' p hp

/-! ## Judgements -/

/-- A part has been passed. -/
structure Passed (limits : Limits) (depth : Nat) (π : Profile) (f f' : Findings) : Prop where
  placed : π.Placed
  legal : Legal f.declared π.visits
  fits : π.Fits limits depth
  declared_eq : f'.declared = f.declared ++ names π.visits
  sizes_eq : f'.sizes = f.sizes ++ π.sizes

/-- A part has been refused for a limit, by itself or for what it contributes to the whole. -/
structure Refused (limits : Limits) (level : Level) (depth : Nat) (π : Profile) (fault : Fault) :
    Prop where
  exceeds : ∃ limit cap actual, fault = .limitExceeded limit cap actual
  unfit : π.Fits limits depth → ∃ n ∈ π.sizes, level.limit limits < min n countCeiling

/-- A judgement passes parts of its profile only, and refuses a part that makes sense for a limit
only. -/
structure Judged (limits : Limits) (level : Level) (depth : Nat) (judge : Judging) (π : Profile) :
    Prop where
  passed : ∀ f f', judge f = .ok f' → Passed limits depth π f f'
  refused : ∀ f fault, judge f = .error fault → π.Placed → Legal f.declared π.visits →
    Refused limits level depth π fault

section Steps

variable {f f' : Findings}

theorem judgeOperand_eq_ok {operand : Ast.Operand} :
    judgeOperand operand f = .ok f' ↔
      (operand.IsPath ∧ ∀ name, operand.var? = some name → name ∈ f.declared) ∧ f' = f := by
  cases operand with
  | literal text => simp [judgeOperand, Operand.IsPath, Operand.var?, pure, Except.pure, eq_comm]
  | var identifier => simp [judgeOperand, Operand.IsPath, Operand.var?, resolving, demand_eq_ok]
  | returnValue content declarations method =>
    simp [judgeOperand, Operand.IsPath, Operand.var?, pure, Except.pure, eq_comm]
  | qualified text =>
    rw [judgeOperand, andThen_eq_ok]
    constructor
    · rintro ⟨f₁, hpath, hvar⟩
      obtain ⟨hdot, rfl⟩ := demand_eq_ok.mp hpath
      obtain ⟨hmem, rfl⟩ := demand_eq_ok.mp hvar
      refine ⟨⟨hdot, fun name hname => ?_⟩, rfl⟩
      cases hname
      exact hmem
    · rintro ⟨⟨hdot, hmem⟩, rfl⟩
      exact ⟨_, demand_eq_ok.mpr ⟨hdot, rfl⟩, demand_eq_ok.mpr ⟨hmem _ rfl, rfl⟩⟩

theorem judgeComparison_eq_ok {symbol : String} {negated : Bool} {operand : Ast.Operand} :
    judgeComparison symbol negated operand f = .ok f' ↔
      (IsComparison symbol ∧ operand.IsPath ∧
        ∀ name, operand.var? = some name → name ∈ f.declared) ∧
      f' = { f with sizes := f.sizes ++ [1] } := by
  rw [judgeComparison, ← isSome_determine?_iff symbol negated, andThen_eq_ok]
  constructor
  · rintro ⟨f₁, hsymbol, hrest⟩
    obtain ⟨hsome, rfl⟩ := demand_eq_ok.mp hsymbol
    obtain ⟨f₂, hoperand, hdone⟩ := andThen_eq_ok.mp hrest
    obtain ⟨hlegal, rfl⟩ := judgeOperand_eq_ok.mp hoperand
    exact ⟨⟨hsome, hlegal⟩, (Except.ok.inj hdone).symm⟩
  · rintro ⟨⟨hsome, hlegal⟩, rfl⟩
    exact ⟨f, demand_eq_ok.mpr ⟨hsome, rfl⟩,
      andThen_eq_ok.mpr ⟨f, judgeOperand_eq_ok.mpr ⟨hlegal, rfl⟩, rfl⟩⟩

end Steps

section Judged

variable {limits : Limits} {level : Level} {depth : Nat} {judge judge' : Judging} {π π' : Profile}

theorem judged_pure (hdepth : depth ≤ limits.maxNestingDepth) :
    Judged limits level depth pure {} where
  passed f f' h := by
    cases h
    exact ⟨trivial, trivial, ⟨hdepth, by simp⟩, by simp [names], by simp⟩
  refused f fault h := by cases h

theorem judged_declaring (hdepth : depth ≤ limits.maxNestingDepth) (name : String) :
    Judged limits level depth (declaring name) { visits := [.declares name] } where
  passed f f' h := by
    cases h
    exact ⟨trivial, trivial, ⟨hdepth, by simp⟩, rfl, by simp⟩
  refused f fault h := by cases h

theorem judged_comparison (hdepth : depth ≤ limits.maxNestingDepth) (symbol : String)
    (negated : Bool) (operand : Ast.Operand) :
    Judged limits level depth (judgeComparison symbol negated operand)
      { visits := [.compares symbol operand], sizes := [1] } where
  passed f f' h := by
    obtain ⟨hlegal, rfl⟩ := judgeComparison_eq_ok.mp h
    exact ⟨trivial, ⟨hlegal, trivial⟩, ⟨hdepth, by simp⟩, by simp [names], rfl⟩
  refused f fault h _ hlegal := by
    rw [judgeComparison_eq_ok.mpr ⟨hlegal.1, rfl⟩] at h
    cases h

theorem judged_demand (hdepth : depth ≤ limits.maxNestingDepth) {p : Prop} [Decidable p] (hp : p)
    (fault : Fault) : Judged limits level depth (demand p fault) {} where
  passed f f' h := by
    obtain ⟨-, rfl⟩ := demand_eq_ok.mp h
    exact ⟨trivial, trivial, ⟨hdepth, by simp⟩, by simp [names], by simp⟩
  refused f fault' h := absurd hp (demand_eq_error.mp h).1

/-- A part that stands where it has no meaning is never passed. -/
theorem judged_misplaced (hnever : ∀ f f', judge f ≠ .ok f') (hplaced : ¬π.Placed) :
    Judged limits level depth judge π where
  passed f f' h := absurd h (hnever f f')
  refused _ _ _ h := absurd h hplaced

theorem Judged.withPatterns (h : Judged limits level depth judge π) {patterns : List Ast.Pattern}
    (hmem : ∀ p, p ∈ patterns ↔ p ∈ π.patterns) :
    Judged limits level depth judge { π with patterns } where
  passed f f' hok := by
    have hpassed := h.passed f f' hok
    exact ⟨hpassed.placed, hpassed.legal,
      ⟨hpassed.fits.nesting_le, fun p hp => hpassed.fits.width_le p ((hmem p).mp hp)⟩,
      hpassed.declared_eq, hpassed.sizes_eq⟩
  refused f fault herror hplaced hlegal := by
    obtain ⟨hexceeds, hunfit⟩ := h.refused f fault herror hplaced hlegal
    exact ⟨hexceeds, fun hfits =>
      hunfit ⟨hfits.nesting_le, fun p hp => hfits.width_le p ((hmem p).mpr hp)⟩⟩

/-- **One judgement after another.** -/
theorem Judged.append (h : Judged limits level depth judge π)
    (h' : Judged limits level depth judge' π') :
    Judged limits level depth (judge >=> judge') (π.append π') where
  passed f f'' hok := by
    obtain ⟨f', hfirst, hsecond⟩ := andThen_eq_ok.mp hok
    have hpassed := h.passed f f' hfirst
    have hpassed' := h'.passed f' f'' hsecond
    refine ⟨⟨hpassed.placed, hpassed'.placed⟩, ?_, fits_append.mpr ⟨hpassed.fits, hpassed'.fits⟩,
      ?_, ?_⟩
    · exact legal_append.mpr ⟨hpassed.legal, hpassed.declared_eq ▸ hpassed'.legal⟩
    · simp only [hpassed'.declared_eq, hpassed.declared_eq, Profile.append, names_append,
        List.append_assoc]
    · simp only [hpassed'.sizes_eq, hpassed.sizes_eq, Profile.append, List.append_assoc]
  refused f fault herror hplaced hlegal := by
    obtain ⟨hlegal₁, hlegal₂⟩ := legal_append.mp hlegal
    rcases andThen_eq_error.mp herror with hfirst | ⟨f', hfirst, hsecond⟩
    · obtain ⟨hexceeds, hunfit⟩ := h.refused f fault hfirst hplaced.1 hlegal₁
      refine ⟨hexceeds, fun hfits => ?_⟩
      obtain ⟨n, hn, hlimit⟩ := hunfit (fits_append.mp hfits).1
      exact ⟨n, List.mem_append_left _ hn, hlimit⟩
    · rw [← (h.passed f f' hfirst).declared_eq] at hlegal₂
      obtain ⟨hexceeds, hunfit⟩ := h'.refused f' fault hsecond hplaced.2 hlegal₂
      refine ⟨hexceeds, fun hfits => ?_⟩
      obtain ⟨n, hn, hlimit⟩ := hunfit (fits_append.mp hfits).2
      exact ⟨n, List.mem_append_right _ hn, hlimit⟩

/-- **One level deeper.** -/
theorem Judged.descend
    (h : depth + 1 ≤ limits.maxNestingDepth → Judged limits level (depth + 1) judge π) :
    Judged limits level depth (descending limits depth >=> judge) π.deeper where
  passed f f' hok := by
    obtain ⟨f₁, hdeeper, hinside⟩ := andThen_eq_ok.mp hok
    obtain ⟨hdepth, rfl⟩ := demand_eq_ok.mp hdeeper
    have hpassed := (h hdepth).passed f₁ f' hinside
    refine ⟨hpassed.placed, hpassed.legal, ⟨?_, hpassed.fits.width_le⟩, hpassed.declared_eq,
      hpassed.sizes_eq⟩
    have hnesting := hpassed.fits.nesting_le
    simp only [Profile.deeper]
    omega
  refused f fault herror hplaced hlegal := by
    rcases andThen_eq_error.mp herror with hdeeper | ⟨f₁, hdeeper, hinside⟩
    · obtain ⟨hdepth, rfl⟩ := demand_eq_error.mp hdeeper
      refine ⟨⟨_, _, _, rfl⟩, fun hfits => ?_⟩
      have hnesting := hfits.nesting_le
      simp only [Profile.deeper] at hnesting
      omega
    · obtain ⟨hdepth, rfl⟩ := demand_eq_ok.mp hdeeper
      obtain ⟨hexceeds, hunfit⟩ := (h hdepth).refused f₁ fault hinside hplaced hlegal
      refine ⟨hexceeds, fun hfits => hunfit ⟨?_, hfits.width_le⟩⟩
      have hnesting := hfits.nesting_le
      simp only [Profile.deeper] at hnesting
      omega

theorem exceeds_overLimit (limits : Limits) (level : Level) (count : Nat) :
    ∃ limit cap actual, overLimit limits level count = .limitExceeded limit cap actual := by
  cases level <;> exact ⟨_, _, _, rfl⟩

/-- What goes beyond a limit inside a group makes the group go beyond it. -/
theorem limit_lt_ways (connective : Connective) {sizes : List Nat} {limit : Nat}
    (hpos : ∀ n ∈ sizes, 0 < n) (h : ∃ n ∈ sizes, limit < min n countCeiling) :
    limit < min (ways connective sizes) countCeiling := by
  obtain ⟨n, hn, hlimit⟩ := h
  have hle := le_ways connective hpos hn
  omega

/-- **A group is one child of the group around it.** -/
theorem Judged.group (h : Judged limits level depth judge π) (hpos : ∀ n ∈ π.sizes, 0 < n)
    (connective : Connective) :
    Judged limits level depth (grouping limits level connective judge) (π.group connective) where
  passed f f' hok := by
    obtain ⟨inner, hinside, -, rfl⟩ := grouping_eq_ok.mp hok
    have hpassed := h.passed _ inner hinside
    refine ⟨hpassed.placed, hpassed.legal, ⟨hpassed.fits.nesting_le, hpassed.fits.width_le⟩,
      hpassed.declared_eq, ?_⟩
    have hsizes : inner.sizes = π.sizes := hpassed.sizes_eq
    rw [hsizes, Profile.group]
  refused f fault herror hplaced hlegal := by
    rcases grouping_eq_error.mp herror with hinside | ⟨inner, hinside, hlimit, rfl⟩
    · obtain ⟨hexceeds, hunfit⟩ := h.refused _ fault hinside hplaced hlegal
      refine ⟨hexceeds, fun hfits => ?_⟩
      exact ⟨_, List.mem_singleton_self _,
        limit_lt_ways connective hpos (hunfit ⟨hfits.nesting_le, hfits.width_le⟩)⟩
    · have hsizes : inner.sizes = π.sizes := (h.passed _ inner hinside).sizes_eq
      rw [hsizes] at hlimit ⊢
      exact ⟨exceeds_overLimit _ _ _, fun _ => ⟨_, List.mem_singleton_self _, hlimit⟩⟩

/-- **A pattern is one child of the group around it**, and has to go beyond no limit by itself. -/
theorem Judged.ofPattern (h : Judged limits .pattern depth judge π)
    (hpos : ∀ n ∈ π.sizes, 0 < n) (hnone : π.patterns = []) {p : Ast.Pattern}
    (hwidth : p.width = ways .and π.sizes) :
    Judged limits level depth (grouping limits .pattern .and judge) (π.ofPattern p) where
  passed f f' hok := by
    obtain ⟨inner, hinside, hlimit, rfl⟩ := grouping_eq_ok.mp hok
    have hpassed := h.passed _ inner hinside
    have hsizes : inner.sizes = π.sizes := hpassed.sizes_eq
    rw [hsizes, ← hwidth] at hlimit ⊢
    refine ⟨hpassed.placed, hpassed.legal, ⟨hpassed.fits.nesting_le, ?_⟩, hpassed.declared_eq, rfl⟩
    simpa [Profile.ofPattern, Level.limit] using hlimit
  refused f fault herror hplaced hlegal := by
    have hall : ∀ q ∈ π.patterns, min q.width countCeiling ≤ limits.maxPatternPossibilities := by
      simp [hnone]
    rcases grouping_eq_error.mp herror with hinside | ⟨inner, hinside, hlimit, rfl⟩
    · obtain ⟨hexceeds, hunfit⟩ := h.refused _ fault hinside hplaced hlegal
      refine ⟨hexceeds, fun hfits => ?_⟩
      have hlimit := limit_lt_ways .and hpos (hunfit ⟨hfits.nesting_le, hall⟩)
      rw [← hwidth] at hlimit
      exact absurd (hfits.width_le p (List.mem_singleton_self p)) (Nat.not_le.mpr hlimit)
    · have hsizes : inner.sizes = π.sizes := (h.passed _ inner hinside).sizes_eq
      rw [hsizes, ← hwidth] at hlimit ⊢
      exact ⟨exceeds_overLimit _ _ _, fun hfits =>
        absurd (hfits.width_le p (List.mem_singleton_self p)) (Nat.not_le.mpr hlimit)⟩

end Judged

/-! ## Parts of a rule -/

/-- The profile of a restriction. -/
def restrictionProfile (r : Ast.Restriction) : Profile :=
  { visits := r.visits, nesting := r.nesting, sizes := r.sizes }

/-- The profile of an invoker. -/
def invokerProfile (i : Ast.Invoker) : Profile := { nesting := i.nesting }

/-- The profile of an element that stands at a level. -/
def elementProfile (level : Level) (e : Ast.Element) : Profile where
  Placed := e.WellPlaced level
  visits := e.visits
  nesting := e.nesting
  patterns := e.patterns level
  sizes := e.sizes level

/-- The profile of a pattern of a rule. -/
def patternProfile (p : Ast.Pattern) : Profile where
  Placed := p.WellPlaced
  visits := p.visits
  nesting := p.nesting
  patterns := p.inRule.items
  sizes := p.inRule.sizes Pattern.width

/-- The profile of the variable that a pattern is bound to. -/
def identifierProfile (identifier : Option String) : Profile :=
  { visits := (identifier.map Visit.declares).toList }

/-- The profile of a source of a pattern of a rule. -/
def sourceProfile (source : Ast.Source) : Profile where
  Placed := source.WellPlaced
  visits := source.visits
  nesting := source.nesting
  patterns := source.inRule?.toList.flatMap Formula.items
  sizes := source.inRule?.toList.flatMap (Formula.sizes Pattern.width)

/-- The profile of the source of a pattern, if there is one. -/
def sourceProfile? : Option Ast.Source → Profile
  | none => {}
  | some source => sourceProfile source

/-! What profiles are made of. -/

section Equations

variable {level : Level}

theorem restrictionProfile_comparison (symbol : String) (negated : Bool) (operand : Ast.Operand) :
    restrictionProfile (.comparison symbol negated operand) =
      { visits := [.compares symbol operand], sizes := [1] } := by
  simp [restrictionProfile, Restriction.visits, Restriction.nesting, Restriction.sizes,
    Restriction.formula, Formula.sizes]

theorem restrictionProfile_unknown : restrictionProfile .unknown = {} := by
  simp [restrictionProfile, Restriction.visits, Restriction.nesting, Restriction.sizes,
    Restriction.formula, Formula.sizes]

theorem restrictionProfile_group (connective : Connective) (rs : List Ast.Restriction) :
    restrictionProfile (.group connective rs) =
      ((Profile.all restrictionProfile rs).group connective).deeper := by
  simp [restrictionProfile, Profile.all, Profile.group, Profile.deeper, Restriction.visits,
    Restriction.nesting, Restriction.sizes, Restriction.formula, Formula.sizes, List.flatMap_map]

theorem invokerProfile_accessor (name : String) (is : List Ast.Invoker) :
    invokerProfile (.accessor name is) = (Profile.all invokerProfile is).deeper := by
  simp [invokerProfile, Profile.all, Profile.deeper, Invoker.nesting]

theorem elementProfile_group (connective : Connective) (es : List Ast.Element) :
    elementProfile level (.group connective es) =
      ((Profile.all (elementProfile level) es).group connective).deeper := by
  cases level <;>
    simp [elementProfile, Profile.all, Profile.group, Profile.deeper, Element.WellPlaced,
      Element.visits, Element.nesting, Element.patterns, Element.sizes, Element.inRule,
      Element.inPattern, Formula.items, Formula.sizes, List.flatMap_map]

theorem elementProfile_quantified (q : Quantifier) (es : List Ast.Element) :
    elementProfile level (.quantified q es) = (Profile.all (elementProfile level) es).deeper := by
  cases level <;>
    simp [elementProfile, Profile.all, Profile.deeper, Element.WellPlaced, Element.visits,
      Element.nesting, Element.patterns, Element.sizes, Element.inRule, Element.inPattern,
      Formula.items, Formula.sizes, List.flatMap_map]

theorem elementProfile_eval (content : String) (method : Option String) :
    elementProfile level (.eval content method) = {} := by
  cases level <;>
    simp [elementProfile, Element.WellPlaced, Element.visits, Element.nesting, Element.patterns,
      Element.sizes, Element.inRule, Element.inPattern, Formula.items, Formula.sizes]

theorem elementProfile_unknown : elementProfile level .unknown = {} := by
  cases level <;>
    simp [elementProfile, Element.WellPlaced, Element.visits, Element.nesting, Element.patterns,
      Element.sizes, Element.inRule, Element.inPattern, Formula.items, Formula.sizes]

theorem elementProfile_predicate (content : String) (method : Option String) :
    elementProfile .pattern (.predicate content method) = {} := by
  simp [elementProfile, Element.WellPlaced, Element.visits, Element.nesting, Element.patterns,
    Element.sizes, Element.inPattern, Formula.sizes]

theorem elementProfile_binding (identifier fieldName : String) (line : Nat) :
    elementProfile .pattern (.binding identifier fieldName line) =
      { visits := [.declares identifier] } := by
  simp [elementProfile, Element.WellPlaced, Element.visits, Element.nesting, Element.patterns,
    Element.sizes, Element.inPattern, Formula.sizes]

theorem elementProfile_constraint (fieldName : String) (rs : List Ast.Restriction) (line : Nat) :
    elementProfile .pattern (.constraint fieldName rs line) =
      Profile.all restrictionProfile rs := by
  simp [elementProfile, restrictionProfile, Profile.all, Element.WellPlaced, Element.visits,
    Element.nesting, Element.patterns, Element.sizes, Element.inPattern, Formula.sizes,
    Restriction.sizes, List.flatMap_map]

theorem elementProfile_pattern (p : Ast.Pattern) :
    elementProfile .rule (.pattern p) = patternProfile p := by
  simp [elementProfile, patternProfile, Element.WellPlaced, Element.visits, Element.nesting,
    Element.patterns, Element.sizes, Element.inRule]

/-- In reading order a pattern comes before the pattern that it is drawn from, but it is judged
after it. -/
theorem patternProfile_mk (objectType : String) (identifier : Option String)
    (source : Option Ast.Source) (constraints : List Ast.Element) (line : Nat) :
    patternProfile (.mk objectType identifier source constraints line) =
      { ((identifierProfile identifier).append ((sourceProfile? source).append
          ((Profile.all (elementProfile .pattern) constraints).ofPattern
            (.mk objectType identifier source constraints line)))).deeper with
        patterns := .mk objectType identifier source constraints line ::
          (sourceProfile? source).patterns } := by
  cases source with
  | none =>
    simp [patternProfile, identifierProfile, sourceProfile?, Profile.append, Profile.all,
      Profile.ofPattern, Profile.deeper, elementProfile, Pattern.WellPlaced, Pattern.visits,
      Pattern.nesting, Pattern.inRule, Formula.drawnFrom, Formula.items, Formula.sizes]
  | some source =>
    simp [patternProfile, identifierProfile, sourceProfile?, sourceProfile, Profile.append,
      Profile.all, Profile.ofPattern, Profile.deeper, elementProfile, Pattern.WellPlaced,
      Pattern.visits, Pattern.nesting, Pattern.inRule, Formula.items_drawnFrom,
      Formula.sizes_drawnFrom]

theorem sourceProfile_accumulate (input : Ast.Pattern) (code : Accumulation) :
    sourceProfile (.accumulate input code) = (patternProfile input).deeper := by
  simp [sourceProfile, patternProfile, Profile.deeper, Source.WellPlaced, Source.visits,
    Source.nesting, Source.inRule?]

theorem sourceProfile_collect (input : Ast.Pattern) (method : Option String) :
    sourceProfile (.collect input method) = (patternProfile input).deeper := by
  simp [sourceProfile, patternProfile, Profile.deeper, Source.WellPlaced, Source.visits,
    Source.nesting, Source.inRule?]

theorem sourceProfile_supplied (dataSource : Ast.Invoker) :
    sourceProfile (.supplied dataSource) = (invokerProfile dataSource).deeper := by
  simp [sourceProfile, invokerProfile, Profile.deeper, Source.WellPlaced, Source.visits,
    Source.nesting, Source.inRule?]

theorem sourceProfile_unknown : sourceProfile .unknown = Profile.deeper {} := by
  simp [sourceProfile, Profile.deeper, Source.WellPlaced, Source.visits, Source.nesting,
    Source.inRule?]

end Equations

section Parts

variable {limits : Limits}

theorem sizes_pos_restrictions (rs : List Ast.Restriction) :
    ∀ n ∈ (Profile.all restrictionProfile rs).sizes, 0 < n := by
  intro n hn
  obtain ⟨r, -, hn⟩ := List.mem_flatMap.mp hn
  exact Formula.sizes_pos (fun _ => Nat.one_pos) _ n hn

theorem sizes_pos_elements (level : Level) (es : List Ast.Element) :
    ∀ n ∈ (Profile.all (elementProfile level) es).sizes, 0 < n := by
  intro n hn
  obtain ⟨e, -, hn⟩ := List.mem_flatMap.mp hn
  exact e.sizes_pos level n hn

mutual
theorem judged_restriction {depth : Nat} (hdepth : depth ≤ limits.maxNestingDepth)
    (r : Ast.Restriction) :
    Judged limits .pattern depth (judgeRestriction limits depth r) (restrictionProfile r) := by
  cases r with
  | comparison symbol negated operand =>
    rw [judgeRestriction, restrictionProfile_comparison]
    exact judged_comparison hdepth symbol negated operand
  | group connective rs =>
    rw [judgeRestriction, restrictionProfile_group]
    exact Judged.descend fun hdeeper =>
      (judged_restrictions hdeeper rs).group (sizes_pos_restrictions rs) connective
  | unknown =>
    rw [judgeRestriction, restrictionProfile_unknown]
    exact judged_pure hdepth

theorem judged_restrictions {depth : Nat} (hdepth : depth ≤ limits.maxNestingDepth)
    (rs : List Ast.Restriction) :
    Judged limits .pattern depth (judgeRestrictions limits depth rs)
      (.all restrictionProfile rs) := by
  cases rs with
  | nil =>
    rw [judgeRestrictions, Profile.all_nil]
    exact judged_pure hdepth
  | cons r rest =>
    rw [judgeRestrictions, Profile.all_cons]
    exact (judged_restriction hdepth r).append (judged_restrictions hdepth rest)
end

theorem judged_identifier {level : Level} {depth : Nat} (hdepth : depth ≤ limits.maxNestingDepth)
    (identifier : Option String) :
    Judged limits level depth (judgeIdentifier identifier) (identifierProfile identifier) := by
  cases identifier with
  | none => exact judged_pure hdepth
  | some name => exact judged_declaring hdepth name

mutual
theorem judged_invoker {level : Level} {depth : Nat} (hdepth : depth ≤ limits.maxNestingDepth)
    (i : Ast.Invoker) :
    Judged limits level depth (judgeInvoker limits depth i) (invokerProfile i) := by
  cases i with
  | accessor name is =>
    rw [judgeInvoker, invokerProfile_accessor]
    exact Judged.descend fun hdeeper => judged_invokers hdeeper is
  | fieldAccess name argument =>
    rw [judgeInvoker]
    simpa [invokerProfile, Invoker.nesting] using judged_pure hdepth
  | methodAccess name arguments =>
    rw [judgeInvoker]
    simpa [invokerProfile, Invoker.nesting] using judged_pure hdepth
  | functionCall name arguments =>
    rw [judgeInvoker]
    simpa [invokerProfile, Invoker.nesting] using judged_pure hdepth
  | unknown =>
    rw [judgeInvoker]
    simpa [invokerProfile, Invoker.nesting] using judged_pure hdepth

theorem judged_invokers {level : Level} {depth : Nat} (hdepth : depth ≤ limits.maxNestingDepth)
    (is : List Ast.Invoker) :
    Judged limits level depth (judgeInvokers limits depth is) (.all invokerProfile is) := by
  cases is with
  | nil =>
    rw [judgeInvokers, Profile.all_nil]
    exact judged_pure hdepth
  | cons i rest =>
    rw [judgeInvokers, Profile.all_cons]
    exact (judged_invoker hdepth i).append (judged_invokers hdepth rest)
end

theorem judgePattern_ne_ok (depth : Nat) (p : Ast.Pattern) (f f' : Findings) :
    judgePattern limits .pattern depth p f ≠ .ok f' := by
  cases p with
  | mk objectType identifier source constraints line =>
    intro hok
    rw [judgePattern] at hok
    obtain ⟨f₁, -, hok⟩ := andThen_eq_ok.mp hok
    obtain ⟨f₂, -, hok⟩ := andThen_eq_ok.mp hok
    obtain ⟨f₃, -, hok⟩ := andThen_eq_ok.mp hok
    obtain ⟨f₄, hnested, -⟩ := andThen_eq_ok.mp hok
    exact absurd (demand_eq_ok.mp hnested).1 (by decide)

theorem judged_insidePattern {level : Level} {depth : Nat} {judge : Judging} (π : Level → Profile)
    (node : Inner) (hplaced : ¬(π .rule).Placed)
    (h : Judged limits .pattern depth judge (π .pattern)) :
    Judged limits level depth (insidePattern level node >=> judge) (π level) := by
  cases level with
  | rule =>
    refine judged_misplaced (fun f f' hok => ?_) hplaced
    obtain ⟨f₁, hinside, -⟩ := andThen_eq_ok.mp hok
    exact absurd (demand_eq_ok.mp hinside).1 (by decide)
  | pattern => exact h

/-- A source of an unknown kind is a level of its own. -/
theorem judged_descending {level : Level} {depth : Nat} :
    Judged limits level depth (descending limits depth) (Profile.deeper {}) := by
  rw [← andThen_pure (descending limits depth)]
  exact Judged.descend judged_pure

mutual
theorem judged_element {level : Level} {depth : Nat} (hdepth : depth ≤ limits.maxNestingDepth)
    (e : Ast.Element) :
    Judged limits level depth (judgeElement limits level depth e) (elementProfile level e) := by
  cases e with
  | pattern p =>
    rw [judgeElement]
    cases level with
    | rule =>
      rw [elementProfile_pattern]
      exact judged_pattern p
    | pattern =>
      refine judged_misplaced (judgePattern_ne_ok depth p) ?_
      simp [elementProfile, Element.WellPlaced]
  | group connective es =>
    rw [judgeElement, elementProfile_group]
    exact Judged.descend fun hdeeper =>
      (judged_elements hdeeper es).group (sizes_pos_elements level es) connective
  | quantified q es =>
    rw [judgeElement, elementProfile_quantified]
    exact Judged.descend fun hdeeper => judged_elements hdeeper es
  | eval content method =>
    rw [judgeElement, elementProfile_eval]
    exact judged_pure hdepth
  | predicate content method =>
    rw [judgeElement]
    cases level with
    | rule =>
      refine judged_misplaced (fun f f' hok => absurd (demand_eq_ok.mp hok).1 (by decide)) ?_
      simp [elementProfile, Element.WellPlaced]
    | pattern =>
      rw [elementProfile_predicate]
      exact judged_demand hdepth rfl _
  | constraint fieldName rs line =>
    rw [judgeElement]
    refine judged_insidePattern (fun level => elementProfile level (.constraint fieldName rs line))
      _ (by simp [elementProfile, Element.WellPlaced]) ?_
    rw [elementProfile_constraint]
    exact judged_restrictions hdepth rs
  | binding identifier fieldName line =>
    rw [judgeElement]
    refine judged_insidePattern
      (fun level => elementProfile level (.binding identifier fieldName line))
      _ (by simp [elementProfile, Element.WellPlaced]) ?_
    rw [elementProfile_binding]
    exact judged_declaring hdepth identifier
  | unknown =>
    rw [judgeElement, elementProfile_unknown]
    exact judged_pure hdepth

theorem judged_elements {level : Level} {depth : Nat} (hdepth : depth ≤ limits.maxNestingDepth)
    (es : List Ast.Element) :
    Judged limits level depth (judgeElements limits level depth es)
      (.all (elementProfile level) es) := by
  cases es with
  | nil =>
    rw [judgeElements, Profile.all_nil]
    exact judged_pure hdepth
  | cons e rest =>
    rw [judgeElements, Profile.all_cons]
    exact (judged_element hdepth e).append (judged_elements hdepth rest)

theorem judged_pattern {depth : Nat} (p : Ast.Pattern) :
    Judged limits .rule depth (judgePattern limits .rule depth p) (patternProfile p) := by
  cases p with
  | mk objectType identifier source constraints line =>
    have hwidth : Pattern.width (.mk objectType identifier source constraints line) =
        ways .and (Profile.all (elementProfile .pattern) constraints).sizes := rfl
    have hnone : (Profile.all (elementProfile .pattern) constraints).patterns = [] := by
      simp [Profile.all, elementProfile, Element.patterns]
    rw [judgePattern, patternProfile_mk]
    refine Judged.withPatterns (Judged.descend fun hdeeper => ?_) ?_
    · refine (judged_identifier hdeeper identifier).append
        ((judged_source? hdeeper source).append ?_)
      exact (judged_elements hdeeper constraints).ofPattern
        (sizes_pos_elements .pattern constraints) hnone hwidth
    · simp [Profile.deeper, Profile.append, Profile.ofPattern, identifierProfile, or_comm]

theorem judged_source? {depth : Nat} (hdepth : depth ≤ limits.maxNestingDepth)
    (source : Option Ast.Source) :
    Judged limits .rule depth (judgeSource? limits .rule depth source) (sourceProfile? source) := by
  cases source with
  | none =>
    rw [judgeSource?]
    exact judged_pure hdepth
  | some source =>
    rw [judgeSource?]
    exact judged_source source

theorem judged_source {depth : Nat} (source : Ast.Source) :
    Judged limits .rule depth (judgeSource limits .rule depth source) (sourceProfile source) := by
  cases source with
  | accumulate input code =>
    rw [judgeSource, sourceProfile_accumulate]
    exact Judged.descend fun _ => judged_pattern input
  | collect input method =>
    rw [judgeSource, sourceProfile_collect]
    exact Judged.descend fun _ => judged_pattern input
  | supplied dataSource =>
    rw [judgeSource, sourceProfile_supplied]
    exact Judged.descend fun hdeeper => judged_invoker hdeeper dataSource
  | unknown =>
    rw [judgeSource, sourceProfile_unknown]
    exact judged_descending
end

end Parts

/-! ## Rules -/

variable {limits : Limits} {r : Ast.Rule}

theorem judged_rule (limits : Limits) (r : Ast.Rule) :
    Judged limits .rule 0 (grouping limits .rule .and (judgeElements limits .rule 0 r.lhs))
      ((Profile.all (elementProfile .rule) r.lhs).group .and) :=
  (judged_elements (Nat.zero_le _) r.lhs).group (sizes_pos_elements .rule r.lhs) .and

theorem fits_rule_iff : r.Fits limits ↔
    ((Profile.all (elementProfile .rule) r.lhs).group .and).Fits limits 0 ∧
      min r.width countCeiling ≤ limits.maxRulePossibilities := by
  have hnesting : 0 + ((Profile.all (elementProfile .rule) r.lhs).group .and).nesting = r.nesting :=
    Nat.zero_add _
  constructor
  · rintro ⟨hnesting_le, hpatterns, hwidth⟩
    exact ⟨⟨hnesting ▸ hnesting_le, hpatterns⟩, hwidth⟩
  · rintro ⟨⟨hnesting_le, hpatterns⟩, hwidth⟩
    exact ⟨hnesting ▸ hnesting_le, hpatterns, hwidth⟩

/-- **A rule is accepted exactly if it is well-formed and goes beyond no limit.** -/
theorem verdict?_eq_none_iff : verdict? limits r = none ↔ r.WellFormed ∧ r.Fits limits := by
  rw [verdict?, wellFormed_iff, fits_rule_iff]
  cases hrun : judgeRule limits r with
  | ok f =>
    have hpassed := (judged_rule limits r).passed {} f hrun
    obtain ⟨inner, hinside, hlimit, -⟩ := grouping_eq_ok.mp hrun
    have hsizes : inner.sizes = (Profile.all (elementProfile .rule) r.lhs).sizes :=
      ((judged_elements (Nat.zero_le _) r.lhs).passed _ inner hinside).sizes_eq
    rw [hsizes] at hlimit
    exact iff_of_true rfl ⟨⟨hpassed.placed, hpassed.legal⟩, hpassed.fits, hlimit⟩
  | error fault =>
    refine iff_of_false (by simp) ?_
    rintro ⟨⟨hplaced, hlegal⟩, hfits, hwidth⟩
    have hrefused := (judged_rule limits r).refused {} fault hrun hplaced hlegal
    obtain ⟨n, hn, hlimit⟩ := hrefused.unfit hfits
    obtain rfl : n = r.width := List.mem_singleton.mp hn
    exact absurd hwidth (Nat.not_le.mpr hlimit)

/-- **A well-formed rule is refused for a limit only.** -/
theorem exceeds_of_verdict? {e : Error} (h : verdict? limits r = some e) :
    e.rule = r.name ∧ e.line = r.line ∧
      (r.WellFormed → ∃ limit cap actual, e.fault = .limitExceeded limit cap actual) := by
  rw [verdict?] at h
  cases hrun : judgeRule limits r with
  | ok f =>
    rw [hrun] at h
    cases h
  | error fault =>
    rw [hrun] at h
    cases h
    refine ⟨rfl, rfl, fun hwell => ?_⟩
    obtain ⟨hplaced, hlegal⟩ := wellFormed_iff.mp hwell
    exact ((judged_rule limits r).refused {} fault hrun hplaced hlegal).exceeds

end RuleBase.Analysis

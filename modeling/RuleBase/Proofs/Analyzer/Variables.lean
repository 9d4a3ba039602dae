import RuleBase.Proofs.Analysis.Undeclared
import RuleBase.Proofs.Analyzer.Acceptance
import RuleBase.Proofs.Analyzer.Index

/-!
# Variables of rules

A comparison with a variable refers to the latest declaration of that variable in its own rule,
whatever other rules declare and whatever calls that failed had declared. If a call fails for a
variable, one of its rules uses the variable before it declares it.

* **`Analyzer.Reachable.resolves`**: restrictions refer to the latest variables before them, and
  calls fail for variables only that a rule has not declared.
-/

namespace RuleBase

open RuleBase.Graph Analysis

/-- The variable that a restriction refers to is one of its rule with its name, and the latest one
before the restriction. -/
structure Graph.Restriction.Resolves (r : Graph.Restriction) (g : Graph)
    (id other : ComponentId) (name : String) : Prop where
  lt : other < id
  variable_eq : ∃ v, g.ofKind? Kind.var? other = some v ∧ v.rule = r.rule ∧ v.name = name
  latest : ∀ between v, other < between → between < id → g.ofKind? Kind.var? between = some v →
    v.rule = r.rule → v.name ≠ name

theorem key?_of_var? {k : Kind} {v : Graph.Variable} (h : k.var? = some v) :
    k.key? = some (.var v.rule v.name) := by
  cases k <;> cases h
  rfl

theorem var?_of_key? {k : Kind} {rule : ComponentId} {name : String}
    (h : k.key? = some (.var rule name)) :
    ∃ v, k.var? = some v ∧ v.rule = rule ∧ v.name = name := by
  cases k <;> cases h
  exact ⟨_, rfl, rfl, rfl⟩

theorem Analysis.ResolvesIn.resolves_of_var {r : Graph.Restriction} {g : Graph}
    {id other : ComponentId} {name : String} (h : ResolvesIn r id g)
    (hvar : r.operand.var? = some (other, name)) : r.Resolves g id other name := by
  obtain ⟨hlt, ⟨c, hc, hkey⟩, hlatest⟩ := h other name hvar
  refine ⟨hlt, ?_, ?_⟩
  · obtain ⟨v, hv, hrule, hname⟩ := var?_of_key? hkey
    exact ⟨v, Option.bind_eq_some_iff.mpr ⟨c, hc, hv⟩, hrule, hname⟩
  · rintro between v hlo hhi hv hrule rfl
    obtain ⟨c', hc', hv⟩ := Option.bind_eq_some_iff.mp hv
    exact hlatest between c' hlo hhi hc' (hrule ▸ key?_of_var? hv)

namespace Analyzer

variable {limits : Limits} {a : Analyzer}

theorem misses_of_call (h : a.graph.Settled) {c : Call} {e : Analysis.Error} {name : String}
    (hfail : (a.call c).1 = .error (.analysis e)) (hfault : e.fault = .unresolvedVariable name) :
    ∃ r ∈ c.rules, e.rule = r.name ∧ e.line = r.line ∧ Misses [] r.visits name := by
  rw [call_eq] at hfail
  cases hcontent : c.content with
  | error e' =>
    rw [hcontent] at hfail
    cases hfail
  | ok ps =>
    simp only [hcontent] at hfail
    have hanswer : (a.addPackages ps).1 = .error e := by
      cases hresult : (a.addPackages ps).1 with
      | ok ids =>
        rw [hresult] at hfail
        cases hfail
      | error e' =>
        rw [hresult] at hfail
        cases hfail
        rfl
    rw [(addPackages_verdict h ps).error_iff] at hanswer
    obtain ⟨r, hr, hverdict⟩ := List.exists_of_findSome?_eq_some hanswer
    obtain ⟨hrule, hline, -⟩ := exceeds_of_verdict? hverdict
    exact ⟨r, rules_of_content hcontent ▸ hr, hrule, hline, misses_of_verdict? hverdict hfault⟩

/-- **Variables are those of the rule.** A restriction refers to the latest declaration of its
variable in its rule, and a call fails for a variable only if one of its rules compares something
with the variable before it declares it. -/
theorem Reachable.resolves (h : Reachable limits a) :
    (∀ id r other name, a.graph.ofKind? Kind.restriction? id = some r →
      r.operand.var? = some (other, name) → r.Resolves a.graph id other name) ∧
    ∀ c e name, (a.call c).1 = .error (.analysis e) → e.fault = .unresolvedVariable name →
      ∃ r ∈ c.rules, e.rule = r.name ∧ e.line = r.line ∧
        ∃ before symbol operand after, r.visits = before ++ .compares symbol operand :: after ∧
          operand.var? = some name ∧ .declares name ∉ before := by
  refine ⟨fun id r other name hr => (h.moves.resolvesIn id r hr).resolves_of_var, ?_⟩
  intro c e name hfail hfault
  obtain ⟨r, hr, hrule, hline, before, symbol, operand, after, hvisits, hvar, hnot⟩ :=
    misses_of_call h.settled hfail hfault
  rw [List.nil_append, Ast.mem_names] at hnot
  exact ⟨r, hr, hrule, hline, before, symbol, operand, after, hvisits, hvar, hnot⟩

/-- A package with a rule that declares a variable twice. -/
def heights : Ast.Package :=
  ⟨"heights", [{ name := "height", lhs := [.pattern (.mk "Person" none none
    [.binding "$a" "age" 1, .constraint "age" [.comparison "==" false (.var "$a")] 2,
      .binding "$a" "height" 3,
      .constraint "age" [.comparison "<" false (.var "$a")] 4] 0)] }]⟩

/-- An analyzer of adults and of heights. -/
def ofHeights : Analyzer := (ofAdults.call (.package heights)).2

/-- The later declaration counts from then on, but not in other rules. -/
theorem resolves_ofHeights :
    Reachable {} ofHeights ∧
      (∃ r r', ofHeights.graph.ofKind? Kind.restriction? 14 = some r ∧
        r.Resolves ofHeights.graph 14 12 "$a" ∧
        ofHeights.graph.ofKind? Kind.restriction? 18 = some r' ∧
        r'.Resolves ofHeights.graph 18 16 "$a") ∧
      ∃ r ∈ peers.rules, ∃ before symbol operand after,
        r.visits = before ++ .compares symbol operand :: after ∧
          operand.var? = some "$a" ∧ .declares "$a" ∉ before := by
  have hreach : Reachable {} ofHeights := (Reachable.new.call _).call _
  obtain ⟨hresolves, hmisses⟩ := Reachable.resolves hreach
  have hvar : (ofHeights.graph.ofKind? Kind.restriction? 14).bind (·.operand.var?) =
      some (12, "$a") := by decide +kernel
  have hlater : (ofHeights.graph.ofKind? Kind.restriction? 18).bind (·.operand.var?) =
      some (16, "$a") := by decide +kernel
  have hfail : (ofHeights.call (.package peers)).1 =
      .error (.analysis ⟨"peer", 0, .unresolvedVariable "$a"⟩) := by decide +kernel
  obtain ⟨r, hr, hother⟩ := Option.bind_eq_some_iff.mp hvar
  obtain ⟨r', hr', hother'⟩ := Option.bind_eq_some_iff.mp hlater
  refine ⟨hreach, ⟨r, r', hr, hresolves 14 r 12 "$a" hr hother, hr',
    hresolves 18 r' 16 "$a" hr' hother'⟩, ?_⟩
  obtain ⟨r, hr, -, -, hvisits⟩ := hmisses _ _ "$a" hfail rfl
  exact ⟨r, hr, hvisits⟩

end Analyzer

end RuleBase

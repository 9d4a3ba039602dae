import RuleBase.Proofs.Analysis.Negation
import RuleBase.Proofs.Analyzer.Atomic

/-!
# Negated comparisons

Whether a comparison is negated decides about one operator and about nothing else: packages with
some of their comparisons negated are accepted when the packages are, and the analyzer becomes the
same one but for the operators of these comparisons, which hold exactly where the others do not.

* **`Analyzer.Reachable.addPackages_negateIn`**: packages with any choice of comparisons negated.
-/

namespace RuleBase

open RuleBase.Graph Analysis

namespace Analyzer

variable {limits : Limits} {a : Analyzer}

theorem staged_of_parallel (a : Analyzer) {α : Type} {cs : List Ast.Comparison}
    {chosen : Ast.Choice} {body body' : Loading α} (h : Parallel loading cs chosen body body') :
    (∃ e, (a.staged body).1 = .error e ∧ (a.staged body').1 = .error e) ∨
      ∃ (result : α) (g g' : Graph) (new : List (ComponentId × Operator)),
        a.staged body = (.ok result, { a with graph := g.commit }) ∧
        a.staged body' = (.ok result, { a with graph := g'.commit }) ∧
        g.neutral = g'.neutral ∧ g.operators = a.graph.operators ++ new ∧
        g'.operators = a.graph.operators ++ negateChosen chosen new ∧
        new.map (fun e => some e.2) = cs.map Ast.Comparison.operator? := by
  have hruns := h a.graph.checkpoint a.graph.checkpoint rfl
  rw [staged, staged]
  cases hrun : body a.graph.checkpoint with
  | error e g =>
    rw [hrun] at hruns
    obtain ⟨g', hrun'⟩ := hruns.of_error
    rw [hrun']
    exact .inl ⟨e, rfl, rfl⟩
  | ok result g =>
    rw [hrun] at hruns
    obtain ⟨g', hrun', -⟩ := hruns.of_ok
    rw [hrun'] at hruns ⊢
    cases hruns with
    | ok new hneutral hnew hoperators hoperators' =>
      exact .inr ⟨result, g, g', new, rfl, rfl, congrArg State.graph hneutral, hoperators,
        hoperators', hnew⟩

/-- **Negation changes operators and nothing else.** Packages with the chosen comparisons negated
get the same answer. If they are added, each comparison has got a restriction, in reading order, and
the analyzer is the same one but for the operators of the restrictions that are chosen: these are
turned round, and hold exactly where they did not. -/
theorem Reachable.addPackages_negateIn (h : Reachable limits a) (ps : List Ast.Package)
    (chosen : Ast.Choice) :
    (a.addPackages (Ast.Package.negateIn chosen ps)).1 = (a.addPackages ps).1 ∧
      ∀ ids, (a.addPackages ps).1 = .ok ids →
        ∃ new : List (ComponentId × Operator),
          (a.addPackages ps).2.graph.operators = a.graph.operators ++ new ∧
          new.map (fun e => some e.2) =
            (ps.flatMap Ast.Package.comparisons).map Ast.Comparison.operator? ∧
          (a.addPackages (Ast.Package.negateIn chosen ps)).2 =
            { (a.addPackages ps).2 with
              graph := negateAt chosen (new.map (·.1)) (a.addPackages ps).2.graph } ∧
          ∀ i id o, new[i]? = some (id, o) → chosen i = true →
            ∃ o', (a.addPackages (Ast.Package.negateIn chosen ps)).2.graph.ofKind?
                Kind.operator? id = some o' ∧
              ∀ (α : Type*) (I : Interpretation α), o'.denote I = (o.denote I)ᶜ := by
  have hsound : ∀ ps, (a.addPackages ps).2.graph.Sound := fun ps =>
    (h.call (.packages ps)).settled.sound
  obtain ⟨e, hfail, hfail'⟩ |
      ⟨ids, g, g', new, hok, hok', hneutral, hoperators, hoperators', hnew⟩ :=
    a.staged_of_parallel (parallel_loadAll a.limits chosen ps)
  · rw [addPackages, addPackages, hfail, hfail']
    exact ⟨rfl, by rintro _ ⟨⟩⟩
  · have hsound' := hsound (Ast.Package.negateIn chosen ps)
    have hg : g.commit.Sound := by
      have hstaged := hsound ps
      rwa [addPackages, hok] at hstaged
    rw [addPackages, hok'] at hsound' ⊢
    rw [addPackages, hok]
    refine ⟨rfl, fun _ _ => ⟨new, hoperators, hnew, ?_, fun i id o hi hchosen => ?_⟩⟩
    · have hsound : g.Sound := hg.of_eq rfl rfl rfl
      have hsame := hsound.commit_eq_negateAt hneutral hoperators hoperators'
      exact congrArg (fun graph => { a with graph }) hsame
    · refine ⟨o.negate, hsound'.mem_ofKind_iff.mp ?_, fun α I => o.denote_negate I⟩
      have hmem : (id, o.negate) ∈ negateChosen chosen new := by
        refine List.mem_of_getElem? (i := i) ?_
        rw [negateChosen, List.getElem?_mapIdx, hi]
        simp [hchosen]
      have hall : (id, o.negate) ∈ g'.operators := by
        rw [hoperators']
        exact List.mem_append_right _ hmem
      exact hall

/-- A package about people with some names or of some age. -/
def regulars : Ast.Package :=
  ⟨"regulars", [{ name := "regular", lhs := [.quantified .existential [
    .pattern (.mk "Person" none (some (.collect (.mk "Person" none none
      [.constraint "name" [.comparison "matches" false (.literal (some "A.*"))] 0] 0) none))
      [.constraint "age" [.group .or [.comparison "not ==" true (.literal (some "18")),
        .comparison "<" false (.literal (some "65"))]] 0] 0)]] }]⟩

/-- The first two comparisons are negated, inside a source and inside a group. One has no complement
among the comparisons, and the other one is negated twice already. Read as comparisons of texts,
both hold of the other texts now. -/
theorem addPackages_negateIn_regulars :
    Reachable {} ofAdults ∧ (ofAdults.addPackages [regulars]).1 = .ok [9] ∧
      (ofAdults.addPackages (Ast.Package.negateIn (fun i => i < 2) [regulars])).1 = .ok [9] ∧
      (ofAdults.addPackages [regulars]).2.graph.operators =
        [(7, ⟨.greater, false⟩), (16, ⟨.matches, false⟩), (18, ⟨.equal, false⟩),
          (19, ⟨.less, false⟩)] ∧
      (ofAdults.addPackages (Ast.Package.negateIn (fun i => i < 2) [regulars])).2.graph.operators =
        [(7, ⟨.greater, false⟩), (16, ⟨.matches, true⟩), (18, ⟨.notEqual, false⟩),
          (19, ⟨.less, false⟩)] ∧
      (ofAdults.addPackages (Ast.Package.negateIn (fun i => i < 2) [regulars])).2.graph =
        negateAt (fun i => i < 2) [16, 18, 19] (ofAdults.addPackages [regulars]).2.graph ∧
      ∀ id ∈ [16, 18], ∃ o',
        (ofAdults.addPackages (Ast.Package.negateIn (fun i => i < 2) [regulars])).2.graph.ofKind?
            Kind.operator? id = some o' ∧
          ∀ t, t ∈ o'.denote .texts ↔ t.1 ≠ t.2 := by
  have hreach : Reachable {} ofAdults := Reachable.new.call (.package adults)
  have hok : (ofAdults.addPackages [regulars]).1 = .ok [9] := by decide +kernel
  have hold : ofAdults.graph.operators = [(7, ⟨.greater, false⟩)] := by decide +kernel
  have hall : (ofAdults.addPackages [regulars]).2.graph.operators =
      [(7, ⟨.greater, false⟩), (16, ⟨.matches, false⟩), (18, ⟨.equal, false⟩),
        (19, ⟨.less, false⟩)] := by decide +kernel
  obtain ⟨hanswer, hadded⟩ := Reachable.addPackages_negateIn.{0} hreach [regulars] fun i => i < 2
  obtain ⟨new, hoperators, -, hsame, hturned⟩ := hadded _ hok
  rw [hall, hold] at hoperators
  have hnew : [(16, ⟨.matches, false⟩), (18, ⟨.equal, false⟩), (19, ⟨.less, false⟩)] = new :=
    (List.cons.inj hoperators).2
  subst hnew
  refine ⟨hreach, hok, hanswer.trans hok, hall, by decide +kernel, ?_, ?_⟩
  · rw [hsame]
    rfl
  · rw [List.forall_mem_cons, List.forall_mem_singleton]
    constructor
    · obtain ⟨o', ho', hdenote⟩ := hturned 0 16 ⟨.matches, false⟩ rfl rfl
      exact ⟨o', ho', fun t => by rw [hdenote _ .texts]; rfl⟩
    · obtain ⟨o', ho', hdenote⟩ := hturned 1 18 ⟨.equal, false⟩ rfl rfl
      exact ⟨o', ho', fun t => by rw [hdenote _ .texts]; rfl⟩

end Analyzer

end RuleBase

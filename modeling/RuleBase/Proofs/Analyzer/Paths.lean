import RuleBase.Proofs.Analysis.Nodewise
import RuleBase.Proofs.Analyzer.Completeness
import RuleBase.Proofs.Analyzer.Typing
import RuleBase.Proofs.Analyzer.Variables
import RuleBase.Proofs.Graph.Paths

/-!
# Variables that paths start from, over calls

Whether a variable counts as standing for the value of a field is a function of the graph: it does
if its object is a field, or if the path of a restriction starts from it. Such a restriction is one
of the rule of the variable, and refers to it by its name; nothing else makes a variable count.

* **`Analyzer.Reachable.objectType_eq`**: the types of the objects of all variables.
-/

namespace RuleBase

open RuleBase.Graph Condition

namespace Analysis

/-! ## Comparisons -/

/-- The operand of a comparison has been looked up, and the restriction may come about. -/
theorem maintains_lowerOperand (rule : RuleSite) (operand : Ast.Operand) {s : State}
    (h : PathsTold none s.graph) :
    match lowerOperand rule operand s with
    | .ok operand s' => ∀ p (r : Graph.Restriction), r.operand = operand →
        PathsTold none (s'.graph.add (some p) (.restriction r))
    | .error _ s' => PathsTold none s'.graph := by
  have hplain : ∀ p (r : Graph.Restriction), (∀ id name path, r.operand ≠ .qualified id name path) →
      PathsTold none (s.graph.add (some p) (.restriction r)) := by
    refine fun p r hr => h.add (some p) ?_ (by rintro v ⟨⟩)
    rintro _ id name path ⟨⟩ hpath
    exact absurd hpath (hr id name path)
  cases operand with
  | literal text =>
    rintro p r hr
    exact hplain p r fun _ _ _ => by rw [hr]; rintro ⟨⟩
  | returnValue content declarations method =>
    rintro p r hr
    exact hplain p r fun _ _ _ => by rw [hr]; rintro ⟨⟩
  | var identifier =>
    cases hfind : s.graph.findVar? rule.id identifier with
    | none =>
      rw [lowerOperand, bind_of_error (varFor_of_none hfind)]
      exact h
    | some id =>
      rw [lowerOperand, bind_of_ok (varFor_of_some hfind)]
      rintro p r hr
      exact hplain p r fun _ _ _ => by rw [hr]; rintro ⟨⟩
  | qualified text =>
    rw [lowerOperand]
    cases hsplit : splitPath? text with
    | none => exact h
    | some parts =>
      obtain ⟨name, path⟩ := parts
      have hparts : orFail rule (.malformedIdentifier text) (some (name, path)) s =
        .ok (name, path) s := rfl
      rw [bind_of_ok hparts]
      dsimp only
      cases hfind : s.graph.findVar? rule.id name with
      | none =>
        rw [bind_of_error (varFor_of_none hfind)]
        exact h
      | some id =>
        rw [bind_of_ok (varFor_of_some hfind)]
        rintro p r hr
        obtain ⟨hpending, v, hv, htype⟩ := h.startPath hfind
        have hadd : PathsTold (some id)
            ((s.graph.modify id (onVar asField)).add (some p) (.restriction r)) := by
          refine hpending.add (some p) ?_ (by rintro v ⟨⟩)
          rintro _ other name' path' ⟨⟩ hpath
          rw [hr] at hpath
          cases hpath
          exact ⟨v, hv, htype⟩
        exact hadd.reached ⟨_, r, name, path, ofKind?_add_nextId .., hr⟩

theorem pathsTold_onField {g : Graph} (h : PathsTold none g) (field : ComponentId)
    (change : Field → Field) (hchange : Change (onField change)) :
    PathsTold none (g.modify field (onField change)) :=
  h.modify field hchange.essence_eq fun k => by cases k <;> rfl

theorem maintains_restrict (rule : RuleSite) {p field : ComponentId} {r : Graph.Restriction}
    {type : Option FieldType} {s : State}
    (h : PathsTold none (s.graph.add (some p) (.restriction r))) :
    PathsTold none
      (final ((do
        let id ← add (some p) (.restriction r)
        settleType field type
        inScopes rule (addRestriction id)) s)).graph := by
  have hadd : add (some p) (.restriction r) s =
    .ok s.graph.nextId { s with graph := s.graph.add (some p) (.restriction r) } := rfl
  rw [bind_of_ok hadd, bind_of_ok (settleType_eq ..)]
  refine always_inScopes (R := Maintains (PathsTold none)) rule _ _ ?_
  cases type with
  | none => exact h
  | some type => exact pathsTold_onField h _ _ (.refine type)

theorem maintains_lowerComparison (rule : RuleSite) (pattern : PatternSite)
    (constraint : ConstraintSite) (p : ComponentId) (symbol : String) (negated : Bool)
    (operand : Ast.Operand) :
    Always (OnGraph (Maintains (PathsTold none)))
      (lowerComparison rule pattern constraint p symbol negated operand) := by
  refine always_bind (always_orFail _ _ _) fun operator s h => ?_
  have hoperand := maintains_lowerOperand rule operand h
  cases hrun : lowerOperand rule operand s with
  | error e s' =>
    rw [hrun] at hoperand
    rw [bind_of_error hrun]
    exact hoperand
  | ok operand' s' =>
    rw [hrun] at hoperand
    rw [bind_of_ok hrun]
    exact maintains_restrict rule (hoperand p _ rfl)

/-! ## Walks -/

theorem pathsTold_fieldFor (pattern : PatternSite) (name : String) (line : Nat) {s : State}
    (h : PathsTold none s.graph) :
    ∃ field s', fieldFor pattern name line s = .ok field s' ∧ PathsTold none s'.graph ∧
      ∃ f, s'.graph.ofKind? Kind.field? field = some f := by
  cases hfind : s.graph.findField? pattern.factClass name with
  | none =>
    refine ⟨_, _, fieldFor_of_none hfind line, h.add _ (by rintro _ _ _ _ ⟨⟩) (by rintro _ ⟨⟩), ?_⟩
    exact ⟨_, ofKind?_add_nextId ..⟩
  | some field =>
    obtain ⟨f, hf, -⟩ := h.sound.field?_of_findField? hfind
    refine ⟨_, _, fieldFor_of_some hfind line, ?_⟩
    split
    · have hchange := Change.mention line
      obtain ⟨f', hf', -⟩ := (kept_modify s.graph field hchange.essence_eq).field? hf
      exact ⟨pathsTold_onField h field _ hchange, f', hf'⟩
    · exact ⟨h, f, hf⟩

/-- **Exactly the right variables count as standing for fields**, all along the walk through a
rule. -/
theorem nodewise_pathsTold (rule : RuleSite) :
    Nodewise rule fun _ {_} x => Always (OnGraph (Maintains (PathsTold none))) x where
  pure _ _ := always_pure
  bind _ _ _ _ _ := always_bind
  fail _ _ _ := always_throw _
  node p _ kind _ hkey hrestriction hk := by
    refine always_bind (always_add fun g h => h.add _ ?_ fun v hv => ?_) hk
    · rw [hrestriction]
      rintro _ _ _ _ ⟨⟩
    · cases kind <;> cases hv
      cases hkey
  within _ _ _ _ := always_within
  compare p pattern constraint := maintains_lowerComparison rule pattern constraint p
  quantifier _ := always_underQuantifier
  classFor _ name :=
    always_findOrAdd (always_add fun g h => h.add _ (by rintro _ _ _ _ ⟨⟩) (by rintro _ ⟨⟩))
  fieldFor _ pattern name line s h := by
    obtain ⟨field, s', hrun, hend, -⟩ := pathsTold_fieldFor pattern name line h
    rw [hrun]
    exact hend
  bound p name factClass objectType := by
    refine always_bind (always_add fun g h => h.add _ (by rintro _ _ _ _ ⟨⟩) ?_) fun _ =>
      always_pure _
    rintro _ ⟨⟩ ⟨⟩
  binding p pattern name fieldName line := by
    intro s h
    obtain ⟨field, s', hrun, hend, f, hf⟩ := pathsTold_fieldFor pattern fieldName line h
    rw [bind_of_ok hrun]
    refine hend.add _ (by rintro _ _ _ _ ⟨⟩) ?_
    rintro _ ⟨⟩ -
    exact ⟨field, f, rfl, hf⟩
  fill _ id change hfill _ h :=
    h.modify id hfill.change.essence_eq fun k => by cases hfill <;> cases k <;> rfl
  handOver _ := always_handOver fun g pattern possibilities h => h.of_eq rfl rfl rfl
  keep _ := always_keepPossibilities fun s r possibilities h => h.of_eq rfl rfl rfl

theorem pathsTold_loadAll (limits : Limits) (ps : List Ast.Package) :
    Always (Maintains (PathsTold none)) (loadAll limits ps) := by
  refine always_loadAll (fun g p h => h.add none (by rintro _ _ _ _ ⟨⟩) (by rintro _ ⟨⟩))
    (fun package r => always_bind (always_add fun g h => ?_) fun _ =>
      (nodewise_pathsTold _).lowerBody limits r) ps
  exact h.add _ (by rintro _ _ _ _ ⟨⟩) (by rintro _ ⟨⟩)

end Analysis

namespace Analyzer

variable {limits : Limits} {a : Analyzer} {id : ComponentId} {v : Graph.Variable}

/-! ## Calls -/

theorem Reachable.pathsTold (h : Reachable limits a) : PathsTold none a.graph :=
  h.of_loadAll .empty (fun _ _ hg => hg.of_eq rfl rfl rfl) fun limits ps _ _ _ hg hrun =>
    (Analysis.pathsTold_loadAll limits ps).of_ok hrun hg

theorem Reachable.objectType_cases (h : Reachable limits a)
    (hv : a.graph.ofKind? Kind.var? id = some v) :
    v.objectType = .field ∨ v.objectType = .factClass := by
  obtain hfield | ⟨object, hobject, htype⟩ := h.moves.tellsType id v hv
  · exact .inl hfield
  obtain ⟨parent, hfits⟩ := h.fits_var hv
  obtain ⟨pattern, p, -, hp, ⟨-, hclass, -⟩ | ⟨field, f, hfield, hf, -⟩⟩ := hfits.object
  · obtain rfl := Option.some.inj (hobject.symm.trans hclass)
    have hfactClass := typeOf?_of_className? (h.fits_pattern hp).className_eq
    exact .inr (Option.some.inj (htype.symm.trans hfactClass))
  · obtain rfl := Option.some.inj (hobject.symm.trans hfield)
    exact .inl (Option.some.inj (htype.symm.trans (typeOf?_of_field? hf)))

/-- **A variable counts as standing for a field exactly if its object is one, or the path of a
restriction starts from it**, and as standing for a fact of a class otherwise. A restriction with a
path is one of the rule of the variable, and starts from the latest variable of that name before it.
So no other use of a variable, and no use of another variable of its name, makes any difference, nor
does anything that is called later. -/
theorem Reachable.objectType_eq (h : Reachable limits a)
    (hv : a.graph.ofKind? Kind.var? id = some v) :
    (v.objectType = .field ↔ v.IsOfField a.graph ∨ a.graph.HasPathFrom id) ∧
      (v.objectType = .factClass ↔ ¬ (v.IsOfField a.graph ∨ a.graph.HasPathFrom id)) ∧
      (∀ restriction r name path, a.graph.ofKind? Kind.restriction? restriction = some r →
        r.operand = .qualified id name path →
          r.rule = v.rule ∧ name = v.name ∧ r.Resolves a.graph restriction id name) ∧
      ∀ cs, (a.session cs).2.graph.ofKind? Kind.var? id = some v := by
  have htold := h.pathsTold
  have hfield : v.objectType = .field ↔ v.IsOfField a.graph ∨ a.graph.HasPathFrom id := by
    refine ⟨fun htype => ?_, ?_⟩
    · obtain hobject | hpath | hnone := htold.reason id v hv htype
      · exact .inl hobject
      · exact .inr hpath
      · cases hnone
    · rintro (⟨field, f, hobject, hf⟩ | hpath)
      · obtain htype | ⟨object, hobject', htype⟩ := h.moves.tellsType id v hv
        · exact htype
        · obtain rfl := Option.some.inj (hobject'.symm.trans hobject)
          exact Option.some.inj (htype.symm.trans (typeOf?_of_field? hf))
      · obtain ⟨v', hv', htype⟩ := htold.counts id hpath
        obtain rfl := Option.some.inj (hv.symm.trans hv')
        exact htype
  refine ⟨hfield, ?_, fun restriction r name path hr hoperand => ?_, fun cs => ?_⟩
  · rw [← hfield]
    obtain htype | htype := h.objectType_cases hv <;> simp [htype]
  · have hresolves := (h.moves.resolvesIn restriction r hr).resolves_of_var
      (show r.operand.var? = some (id, name) by rw [hoperand]; rfl)
    obtain ⟨v', hv', hrule, hname⟩ := hresolves.variable_eq
    obtain rfl := Option.some.inj (hv.symm.trans hv')
    exact ⟨hrule.symm, hname.symm, hresolves⟩
  · obtain ⟨⟨cid, parent, place, kind⟩, hc, hkind⟩ := Option.bind_eq_some_iff.mp hv
    obtain rfl : kind = .var v := by
      cases kind <;> cases hkind
      rfl
    obtain ⟨kind', hnow, hbecomes⟩ := h.becomes_session hc rfl cs
    cases hbecomes
    exact Option.bind_eq_some_iff.mpr ⟨_, hnow, rfl⟩

/-- A package with a rule that declares a variable twice, with a path from the first one. -/
def neighbours : Ast.Package :=
  ⟨"neighbours", [{ name := "neighbour", lhs := [
    .pattern (.mk "Person" (some "$p") none [] 0),
    .pattern (.mk "Person" none none
      [.constraint "street" [.comparison "==" false (.qualified "$p.street")] 2] 0),
    .pattern (.mk "Person" (some "$p") none
      [.constraint "spouse" [.comparison "==" false (.var "$p")] 3] 0)] }]⟩

/-- An analyzer of neighbours. -/
def ofNeighbours : Analyzer := (call { limits := {} } (.package neighbours)).2

/-- The first variable has a path and the other one of its name has none; both stand for persons. -/
theorem objectType_ofNeighbours :
    Reachable {} ofNeighbours ∧
      (∃ v, ofNeighbours.graph.ofKind? Kind.var? 5 = some v ∧ v.name = "$p" ∧
        ofNeighbours.graph.HasPathFrom 5) ∧
      ∃ v, ofNeighbours.graph.ofKind? Kind.var? 11 = some v ∧ v.name = "$p" ∧
        ¬ ofNeighbours.graph.HasPathFrom 11 ∧
        (ofNeighbours.session [.package peers, .package neighbours]).2.graph.ofKind?
          Kind.var? 11 = some v := by
  have hreach : Reachable {} ofNeighbours := Reachable.new.call _
  have hfirst : (ofNeighbours.graph.ofKind? Kind.var? 5).map
      (fun v => (v.name, v.objectType, v.objectId)) = some ("$p", .field, some 3) := by
    decide +kernel
  have hclass : ofNeighbours.graph.ofKind? Kind.field? 3 = none := by decide +kernel
  have hsecond : (ofNeighbours.graph.ofKind? Kind.var? 11).map
      (fun v => (v.name, v.objectType)) = some ("$p", .factClass) := by decide +kernel
  obtain ⟨v, hv, hv'⟩ := Option.map_eq_some_iff.mp hfirst
  obtain ⟨w, hw, hw'⟩ := Option.map_eq_some_iff.mp hsecond
  simp only [Prod.mk.injEq] at hv' hw'
  obtain ⟨hfield, -⟩ := Reachable.objectType_eq hreach hv
  obtain ⟨-, hfactClass, -, hstays⟩ := Reachable.objectType_eq hreach hw
  refine ⟨hreach, ⟨v, hv, hv'.1, ?_⟩, w, hw, hw'.1, ?_, hstays _⟩
  · obtain ⟨field, f, hobject, hf⟩ | hpath := hfield.mp hv'.2.1
    · obtain rfl := Option.some.inj (hv'.2.2.symm.trans hobject)
      rw [hclass] at hf
      cases hf
    · exact hpath
  · exact fun hpath => hfactClass.mp hw'.2 (.inr hpath)

end Analyzer

end RuleBase

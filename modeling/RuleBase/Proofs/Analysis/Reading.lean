import RuleBase.Proofs.Ast.Wording
import RuleBase.Proofs.Graph.References

/-!
# What a graph shows of conditions

What is shown of a restriction or a pattern stays as it is when a graph goes on. So formulas over
components say the same as formulas over what was declared in every graph that comes later.

* `Graph.word?`: a restriction as it is shown; `Graph.heading?`: a pattern as it is shown;
* `Says`: formulas over components say the same as other formulas; `Says.append`, `Says.group`,
  `Says.drawnFrom`, …: they are put together alike;
* `Reads`: restrictions say what texts do;
* `Reading`, `Reading.texts`, `Occurrence.reading`: what is to be known of a pattern to show its
  possibilities.
-/

namespace RuleBase

open RuleBase.Graph Condition

namespace Graph

/-- A restriction as it is shown, with the name of the field of its constraint. -/
def word? (g : Graph) (id : ComponentId) : Option String :=
  (g.ofKind? Kind.restriction? id).bind fun r =>
    (g.ofKind? Kind.constraint? r.constraint).map fun k => k.fieldName ++ " " ++ r.display

/-- Whether a pattern counts as being under a quantifier. -/
def Pattern.isUnder (p : Pattern) : Quantifier → Bool
  | .negated => p.isNot
  | .existential => p.isExists
  | .universal => p.isForall

/-- The name of a pattern, and the quantifiers that it is under. -/
def heading? (g : Graph) (id : ComponentId) : Option (String × (Quantifier → Bool)) :=
  (g.ofKind? Kind.pattern? id).map fun p => (p.name, p.isUnder)

variable {g g' : Graph} {id : ComponentId}

theorem Made.word? {r : Restriction} {parent : Option ComponentId} {name : String}
    (h : Made id parent (.restriction r) g)
    (hname : (g.ofKind? Kind.constraint? r.constraint).map (·.fieldName) = some name) :
    g.word? id = some (name ++ " " ++ r.display) := by
  obtain ⟨k, hk, rfl⟩ := Option.map_eq_some_iff.mp hname
  rw [Graph.word?, h.ofKind? fun k => by cases k <;> rfl]
  simp only [Kind.restriction?, Option.bind_some, hk, Option.map_some]

theorem Made.heading? {p : Pattern} {parent : Option ComponentId}
    (h : Made id parent (.pattern p) g) : g.heading? id = some (p.name, p.isUnder) := by
  rw [Graph.heading?, ← ofKind?_map, h.ofKind? fun k => by cases k <;> rfl]
  rfl

theorem Kept.fieldName (h : Kept g g') {name : String}
    (hname : (g.ofKind? Kind.constraint? id).map (·.fieldName) = some name) :
    (g'.ofKind? Kind.constraint? id).map (·.fieldName) = some name := by
  obtain ⟨k, hk, rfl⟩ := Option.map_eq_some_iff.mp hname
  rw [h.ofKind? (fun k => by cases k <;> rfl) hk]
  rfl

end Graph

namespace Analysis

section Says

variable {ι κ ρ : Type}

/-- In a graph and in all that come later, formulas over components say the same as others. -/
def Says (read : Graph → ι → ρ) (say : κ → ρ) (g : Graph) (parts : List (Formula ι))
    (us : List (Formula κ)) : Prop :=
  ∀ g', Kept g g' → parts.map (·.map (read g')) = us.map (·.map say)

namespace Says

variable {read : Graph → ι → ρ} {say : κ → ρ} {g g' : Graph} {parts parts' : List (Formula ι)}
  {us us' : List (Formula κ)}

theorem keep (h : Says read say g parts us) (hkept : Kept g g') : Says read say g' parts us :=
  fun g'' hkept' => h g'' (hkept.trans hkept')

theorem nil (g : Graph) : Says read say g [] [] := fun _ _ => rfl

theorem append (h : Says read say g parts us) (h' : Says read say g parts' us') :
    Says read say g (parts ++ parts') (us ++ us') := by
  intro g' hkept
  rw [List.map_append, List.map_append, h g' hkept, h' g' hkept]

theorem item {i : ι} {k : κ} (h : ∀ g', Kept g g' → read g' i = say k) :
    Says read say g [.item i] [.item k] := by
  intro g' hkept
  simp [Formula.map, h g' hkept]

theorem group (h : Says read say g parts us) (connective : Connective) :
    Says read say g [.group connective parts] [.group connective us] := by
  intro g' hkept
  simp [Formula.map, h g' hkept]

theorem list (h : Says read say g parts us) : Says read say g [.list parts] [.list us] := by
  intro g' hkept
  simp [Formula.map, h g' hkept]

theorem drawnFrom {i : ι} {k : κ} {input : Option (Formula ι)} {u : Option (Formula κ)}
    (h : ∀ g', Kept g g' → read g' i = say k) (hinput : Says read say g input.toList u.toList) :
    Says read say g [.drawnFrom i input] [.drawnFrom k u] := by
  intro g' hkept
  have hsame := hinput g' hkept
  cases input <;> cases u <;> simp at hsame <;> simp [Formula.map_drawnFrom, h g' hkept, hsame]

/-- They agree on all that can be told of what they say. -/
theorem map_eq {α : Type} {f : ι → α} {f' : κ → α} (h : Says read say g parts us) (tell : ρ → α)
    (hf : ∀ i, tell (read g i) = f i) (hf' : ∀ k, tell (say k) = f' k) :
    parts.map (·.map f) = us.map (·.map f') := by
  have hmap := congrArg (List.map (Formula.map tell)) (h g (kept_refl g))
  simpa [Function.comp_def, Formula.map_map, hf, hf'] using hmap

end Says

end Says

/-- Restrictions say what texts do. -/
abbrev Reads : Graph → List (Formula ComponentId) → List (Formula String) → Prop :=
  Says Graph.word? some

theorem shape_eq_of_reads {g : Graph} {parts : List (Formula ComponentId)}
    {constraints : List Ast.Element} (h : Reads g parts (constraints.map Ast.Element.wording)) :
    parts.map (·.map fun _ => ()) = constraints.map Ast.Element.inPattern := by
  rw [h.map_eq (fun _ => ()) (fun _ => rfl) fun _ => rfl, List.map_map]
  exact List.map_congr_left fun e _ => Ast.map_wording e

end Analysis

/-! ## Patterns -/

/-- What is to be known of a pattern to show its possibilities: how it is declared, its name with
the quantifiers that it is under, and the formulas of its constraints. -/
structure Reading where
  ast : Ast.Pattern
  heading? : Option (String × (Quantifier → Bool))
  words : List (Formula (Option String))

/-- The possibilities of a pattern as they are shown. -/
def Reading.texts (r : Reading) : List String :=
  r.heading?.toList.flatMap fun (name, isUnder) =>
    (resolve .and (r.words.flatMap (Formula.children fun w => [[w]]))).map fun words =>
      Ast.patternText isUnder name (words.filterMap id)

/-- What a declaration tells of a pattern. -/
def Ast.Occurrence.reading (o : Ast.Occurrence) : Reading :=
  ⟨o.pattern, some (o.pattern.objectType, o.isUnder),
    o.pattern.constraints.map fun e => e.wording.map some⟩

theorem Ast.Occurrence.texts_reading (o : Ast.Occurrence) : o.reading.texts = o.texts := by
  have hsome : (resolve .and ((o.pattern.constraints.map fun e => e.wording.map some).flatMap
      (Formula.children fun w => [[w]]))) =
      (resolve .and (o.pattern.constraints.flatMap fun e => e.wording.children fun w => [[w]])).map
        (List.map some) := by
    rw [List.flatMap_map, map_resolve, List.map_flatMap]
    refine congrArg _ (List.flatMap_congr fun e _ => ?_)
    rw [Formula.children_map, Formula.map_children]
    rfl
  simp only [Reading.texts, reading, Option.toList_some, List.flatMap_singleton, hsome,
    List.map_map, texts]
  refine List.map_congr_left fun words _ => ?_
  simp [List.filterMap_map]

end RuleBase

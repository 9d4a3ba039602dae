import RuleBase.Proofs.Analyzer.Continuity
import RuleBase.Proofs.Graph.Typing

/-!
# Types of fields over calls

The type of a field is a function of the graph: it is what the restrictions on the field come to, in
the order of their numbers, whichever rules, packages and calls they are from. Calls that fail leave
no trace in it.

* **`Analyzer.Reachable.fieldType_eq`**: the types of all fields.
-/

namespace RuleBase

open RuleBase.Graph Condition

namespace Analysis

/-! ## Walks -/

theorem settleType_eq (field : ComponentId) (type : Option FieldType) (s : State) :
    settleType field type s = .ok () { s with graph := s.graph.settle field type } := by
  cases type <;> rfl

/-- **Fields have the types that restrictions come to, all along the walk through a rule.** -/
theorem modular_typesSettled (rule : RuleSite) :
    Modular rule (Always (OnGraph (Maintains TypesSettled))) where
  pure := always_pure
  bind := always_bind
  fail _ := always_throw _
  find _ := always_look _
  quantifier q := always_underQuantifier q
  add parent _ hfresh _ h := h.add parent hfresh.restriction?_eq hfresh.fieldType_eq
  fill id _ hfill _ h := by
    refine h.modify id hfill.change.key?_eq hfill.change.restriction?_eq fun k => ?_
    cases hfill <;> cases k <;> rfl
  mention field line _ _ h := by
    have hchange := Change.mention line
    refine h.modify field hchange.key?_eq hchange.restriction?_eq fun k => ?_
    cases k <;> rfl
  startPath := by
    refine always_startPath fun s name id _ h => ?_
    refine h.modify id Change.asField.key?_eq Change.asField.restriction?_eq fun k => ?_
    cases k <;> rfl
  restrict parent r s h := by
    have hadd : Analysis.add parent (.restriction r) s =
      .ok s.graph.nextId { s with graph := s.graph.add parent (.restriction r) } := rfl
    rw [bind_of_ok hadd, bind_of_ok (settleType_eq ..)]
    exact always_inScopes (R := Maintains TypesSettled) rule _ _ (h.restrict parent r)
  within _ _ _ := always_within
  handOver := always_handOver fun g pattern possibilities h =>
    h.of_eq rfl (h.sound.of_eq rfl rfl rfl)
  keep := always_keepPossibilities fun s r possibilities h =>
    h.of_eq rfl (h.sound.of_eq rfl rfl rfl)

/-! ## Packages -/

theorem typesSettled_lowerRule (limits : Limits) (package : ComponentId) (r : Ast.Rule) :
    Always (OnGraph (Maintains TypesSettled)) (lowerRule limits package r) :=
  always_bind (always_add fun _ h => h.add _ rfl (by rintro _ ⟨⟩)) fun _ =>
    (modular_typesSettled _).lowerBody limits r

theorem typesSettled_loadAll (limits : Limits) (ps : List Ast.Package) :
    Always (Maintains TypesSettled) (loadAll limits ps) :=
  always_loadAll (fun _ _ h => h.add none rfl (by rintro _ ⟨⟩)) (typesSettled_lowerRule limits) ps

/-! ## Fields before restrictions -/

section Moves

variable {g g' : Graph}

/-- A new restriction is on an older field, that of its constraint. -/
theorem Suits.field_lt {parent : Option ComponentId} {r : Graph.Restriction}
    (h : Suits g parent (.restriction r)) (hfits : ∀ id c, g.get? id = some c → c.FitsIn g) :
    r.field < g.nextId := by
  have hfit : r.Fits (g.add parent (.restriction r)) g.nextId parent := h.fits
  obtain ⟨k, hk, -, -, hfield, -⟩ := hfit.agrees
  obtain ⟨⟨cid, above, place, kind⟩, hc, hkind⟩ := Option.bind_eq_some_iff.mp hk
  obtain hold | ⟨-, hnew⟩ := get?_add_eq_some hc
  · obtain rfl : kind = .constraint k := by
      cases kind <;> cases hkind
      rfl
    have hconstraint : k.Fits g cid := hfits r.constraint _ hold
    obtain ⟨p, f, -, hf, -⟩ := hconstraint.agrees
    rw [hfield]
    exact Nat.lt_succ_of_le (le_size_of_ofKind? hf)
  · obtain rfl : kind = .restriction r := congrArg Component.kind hnew
    cases hkind

theorem Move.field_lt (h : Move g g') (hfits : ∀ id c, g.get? id = some c → c.FitsIn g)
    (hlt : ∀ entry ∈ g.ofKind Kind.restriction?, entry.2.field < entry.1) :
    ∀ entry ∈ g'.ofKind Kind.restriction?, entry.2.field < entry.1 := by
  cases h with
  | add parent kind hsuits =>
    rw [ofKind_add]
    intro entry hentry
    obtain hold | hnew := List.mem_append.mp hentry
    · exact hlt entry hold
    · obtain ⟨r, hr, rfl⟩ := Option.map_eq_some_iff.mp (Option.mem_toList.mp hnew)
      obtain rfl : kind = .restriction r := by
        cases kind <;> cases hr
        rfl
      exact hsuits.field_lt hfits
  | change other change hchange => rwa [ofKind_modify g other hchange.restriction?_eq]
  | _ => exact hlt

/-- **Every restriction is younger than its field.** -/
theorem Moves.field_lt (h : Moves {} g) :
    ∀ entry ∈ g.ofKind Kind.restriction?, entry.2.field < entry.1 := by
  induction h with
  | refl => exact fun _ hentry => absurd hentry List.not_mem_nil
  | tail hmoves hmove ih => exact hmove.field_lt (Moves.fitsIn hmoves) ih

end Moves

end Analysis

namespace Analyzer

variable {limits : Limits} {a : Analyzer}

/-! ## Calls -/

/-- **Any calls leave all fields with the types that the restrictions come to.** -/
theorem Reachable.typesSettled (h : Reachable limits a) : a.graph.TypesSettled := by
  refine h.of_loadAll typesSettled_empty
    (fun g _ hg => hg.of_eq rfl (hg.sound.of_eq rfl rfl rfl)) fun limits ps g ids g' hg hrun => ?_
  exact (Analysis.typesSettled_loadAll limits ps).of_ok hrun hg

theorem Reachable.fieldType_session (h : Reachable limits a) {id : ComponentId} {f : Field}
    (hf : a.graph.ofKind? Kind.field? id = some f) (hsettled : f.fieldType.isRefinable = false)
    (cs : List Call) :
    ∃ f', (a.session cs).2.graph.ofKind? Kind.field? id = some f' ∧
      f'.fieldType = f.fieldType := by
  obtain ⟨⟨cid, parent, place, kind⟩, hc, hkind⟩ := Option.bind_eq_some_iff.mp hf
  obtain rfl : kind = .field f := by
    cases kind <;> cases hkind
    rfl
  obtain ⟨kind', hnow, hbecomes⟩ := h.becomes_session hc rfl cs
  cases hbecomes with
  | same => exact ⟨f, Option.bind_eq_some_iff.mpr ⟨_, hnow, rfl⟩, rfl⟩
  | @field _ f' hfield =>
    refine ⟨f', Option.bind_eq_some_iff.mpr ⟨_, hnow, rfl⟩, ?_⟩
    obtain hsame | ⟨hopen, -⟩ := hfield.fieldType
    · exact hsame
    · rw [isRefinable_iff.mpr hopen] at hsettled
      cases hsettled

/-- **The type of a field is what the restrictions on it come to**, in the order of their numbers.
So it is the first type other than null that any of them tells, and that type stays. -/
theorem Reachable.fieldType_eq (h : Reachable limits a) {id : ComponentId} {f : Field}
    (hf : a.graph.ofKind? Kind.field? id = some f) :
    f.fieldType = (a.graph.typesOf id).foldl .refine .unknown ∧
      (a.graph.ofKind Kind.restriction?).Pairwise (·.1 < ·.1) ∧
      (∀ entry, entry ∈ a.graph.ofKind Kind.restriction? ↔
        a.graph.ofKind? Kind.restriction? entry.1 = some entry.2) ∧
      f.fieldType = ((a.graph.typesOf id).find? (· ≠ .null)).getD
        (if a.graph.typesOf id = [] then .unknown else .null) ∧
      ∀ type, (a.graph.typesOf id).find? (· ≠ .null) = some type → ∀ cs, ∃ f',
        (a.session cs).2.graph.ofKind? Kind.field? id = some f' ∧ f'.fieldType = type := by
  have hsettled := h.typesSettled
  have hfold := hsettled.fieldType_eq id f hf
  rw [typesTold_restrictionsAfter h.moves.field_lt] at hfold
  have hfirst := hfold.trans (FieldType.foldl_refine (unknown_notMem_typesOf a.graph id))
  refine ⟨hfold, hsettled.sound.pairwise_ofKind _, fun _ => hsettled.sound.mem_ofKind_iff, hfirst,
    fun type htype cs => ?_⟩
  rw [htype, Option.getD_some] at hfirst
  have hnull : type ≠ .null := by simpa using List.find?_some htype
  have hknown : type ≠ .unknown :=
    ne_of_mem_of_not_mem (List.mem_of_find?_eq_some htype) (unknown_notMem_typesOf a.graph id)
  rw [← hfirst] at hnull hknown ⊢
  refine h.fieldType_session hf ?_ cs
  simp [FieldType.isRefinable, hnull, hknown]

/-- A package that compares fields with values of every type and with all that is no value. -/
def census : Ast.Package :=
  ⟨"census", [{ name := "resident", lhs := [.pattern (.mk "Person" (some "$p") none [
    .constraint "age" [.comparison "==" false (.literal none)] 0,
    .constraint "born" [.comparison "<" false (.literal (some "27-Oct-2009"))] 0,
    .constraint "height" [.comparison ">" false (.literal (some "1.75"))] 0,
    .constraint "name" [.comparison "==" false (.literal (some "Bob"))] 0,
    .binding "$n" "name" 0,
    .constraint "nick" [.group .or [.comparison "==" false (.var "$n"),
      .comparison "==" false (.literal (some "Bobby"))]] 0,
    .constraint "home" [.comparison "==" false (.qualified "$p.work")] 0,
    .constraint "retired" [.comparison "==" false (.returnValue "age > 65" [] none),
      .comparison "==" false (.literal (some "true"))] 0,
    .constraint "weight" [.comparison "<" false (.returnValue "2 * 40" [] none)] 0] 0)] }]⟩

/-- An analyzer that has been told of an age null, in vain of a text, and of a number. -/
def ofCensus : Analyzer := (session {} [.package census, .package peers, .package adults]).2

/-- Null gives way to a number of another package, and a variable does not give way to a text. The
package that fails leaves no trace. -/
theorem fieldType_ofCensus :
    (session {} [.package census, .package peers, .package adults]).1 =
        [.ok [1], .error (.analysis ⟨"peer", 0, .unresolvedVariable "$a"⟩), .ok [34]] ∧
      (ofCensus.graph.ofKind Kind.field?).map
          (fun e => (e.2.name, ofCensus.graph.typesOf e.1, e.2.fieldType)) =
        [("age", [.null, .int], .int), ("born", [.date], .date), ("height", [.decimal], .decimal),
          ("name", [.string], .string), ("nick", [.var, .string], .var), ("home", [.var], .var),
          ("retired", [.bool], .bool), ("weight", [], .unknown)] ∧
      ∃ f, (ofCensus.session [.packages [peers, adults], .package elders]).2.graph.ofKind?
        Kind.field? 6 = some f ∧ f.fieldType = .int := by
  have hreach : Reachable {} ofCensus := Reachable.new.calls _
  have htypes : ∀ entry ∈ ofCensus.graph.ofKind Kind.field?,
      entry.2.fieldType = (ofCensus.graph.typesOf entry.1).foldl .refine .unknown := by
    intro entry hentry
    exact (Reachable.fieldType_eq hreach (hreach.typesSettled.sound.mem_ofKind_iff.mp hentry)).1
  have htold : (ofCensus.graph.ofKind Kind.field?).map
      (fun e => (e.2.name, ofCensus.graph.typesOf e.1)) =
        [("age", [.null, .int]), ("born", [.date]), ("height", [.decimal]), ("name", [.string]),
          ("nick", [.var, .string]), ("home", [.var]), ("retired", [.bool]), ("weight", [])] := by
    decide +kernel
  have hage : (ofCensus.graph.ofKind? Kind.field? 6).isSome = true := by decide +kernel
  obtain ⟨f, hf⟩ := Option.isSome_iff_exists.mp hage
  obtain ⟨-, -, -, -, hstays⟩ := Reachable.fieldType_eq hreach hf
  refine ⟨by decide +kernel, ?_, hstays .int (by decide +kernel) _⟩
  calc (ofCensus.graph.ofKind Kind.field?).map
        (fun e => (e.2.name, ofCensus.graph.typesOf e.1, e.2.fieldType))
    _ = (ofCensus.graph.ofKind Kind.field?).map (fun e => (e.2.name, ofCensus.graph.typesOf e.1,
          (ofCensus.graph.typesOf e.1).foldl .refine .unknown)) :=
      List.map_congr_left fun entry hentry => by rw [htypes entry hentry]
    _ = ((ofCensus.graph.ofKind Kind.field?).map
          fun e => (e.2.name, ofCensus.graph.typesOf e.1)).map
          (fun t => (t.1, t.2, t.2.foldl .refine .unknown)) := by
      simp only [List.map_map, Function.comp_def]
    _ = _ := by
      rw [htold]
      rfl

end Analyzer

end RuleBase

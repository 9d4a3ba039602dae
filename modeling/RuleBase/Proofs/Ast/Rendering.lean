import RuleBase.Proofs.Ast.Decoding
import RuleBase.Proofs.Ast.Extent

/-!
# Full renderings as texts

The full rendering of a rule base can be read back as a value, and it nests at most twice as deep as
the rule base, but for what packages, rules and the innermost parts add: a part that counts for the
nesting takes an object and the array or the object that holds it.

* `Restriction.within_toJson`, **`Element.within_toJson`**, **`Package.within_toJson`**: how deep
  renderings nest;
* **`readDocument_toJson`**: what the rendering of a package is read as.
-/

namespace RuleBase.Ast

/-! ## Values -/

/-- A value that can be read back and nests at most so deep. -/
def Within (d : Nat) (j : Json) : Prop := j.Writable ∧ j.depth ≤ d

theorem Within.mono {d d' : Nat} {j : Json} (h : Within d j) (hle : d ≤ d') : Within d' j :=
  ⟨h.1, Nat.le_trans h.2 hle⟩

@[simp]
theorem within_string (d : Nat) (s : String) : Within d (.string s) :=
  ⟨.string s, Nat.zero_le d⟩

@[simp]
theorem within_bool (d : Nat) (b : Bool) : Within d (.bool b) :=
  ⟨.bool b, Nat.zero_le d⟩

@[simp]
theorem within_null (d : Nat) : Within d .null :=
  ⟨.null, Nat.zero_le d⟩

@[simp]
theorem within_optional (d : Nat) (text : Option String) : Within d (.optionalString text) := by
  cases text with
  | none => exact within_null d
  | some s => exact within_string d s

theorem within_line (d : Nat) {n : Nat} (h : n < lineBound) : Within d (.nat n) :=
  ⟨.int h, Nat.zero_le d⟩

theorem within_array {d : Nat} {items : List Json} :
    Within (d + 1) (.array items) ↔ ∀ item ∈ items, Within d item := by
  rw [Within, Json.writable_array, Json.depth_array_le]
  exact ⟨fun h item hitem => ⟨h.1 item hitem, h.2 item hitem⟩,
    fun h => ⟨fun item hitem => (h item hitem).1, fun item hitem => (h item hitem).2⟩⟩

theorem within_object {d : Nat} {members : List (String × Json)} :
    Within (d + 1) (.object members) ↔ ∀ m ∈ members, Within d m.2 := by
  rw [Within, Json.writable_object, Json.depth_object_le]
  exact ⟨fun h m hm => ⟨h.1 m hm, h.2 m hm⟩,
    fun h => ⟨fun m hm => (h m hm).1, fun m hm => (h m hm).2⟩⟩

theorem within_node {d : Nat} {kind : String} {members : List (String × Json)} :
    Within (d + 1) (node kind members) ↔ ∀ m ∈ members, Within d m.2 := by
  rw [node, within_object, List.forall_mem_cons]
  exact and_iff_right (within_string d kind)

theorem within_unknownNode (d : Nat) : Within (d + 1) unknownNode :=
  within_node.mpr (List.forall_mem_nil _)

/-- The rendering of parts, none of which nests deeper than their bound on the nesting says. -/
theorem within_parts {α : Type} {toJson : α → Json} {nesting : α → Nat} (c : Nat) {as : List α}
    (h : ∀ a ∈ as, Within (2 * nesting a + c) (toJson a)) :
    Within (2 * deepest (as.map nesting) + c + 1) (.array (as.map toJson)) := by
  refine within_array.mpr fun item hitem => ?_
  obtain ⟨a, ha, rfl⟩ := List.mem_map.mp hitem
  have hle : nesting a ≤ deepest (as.map nesting) := le_deepest (List.mem_map_of_mem ha)
  exact (h a ha).mono (by omega)

theorem bound_succ (n c : Nat) : 2 * (1 + n) + c = 2 * n + c + 1 + 1 := by
  omega

theorem restrictionsToJson_eq (rs : List Restriction) :
    restrictionsToJson rs = rs.map Restriction.toJson := by
  induction rs with
  | nil => rfl
  | cons r rest ih => rw [restrictionsToJson, ih, List.map_cons]

theorem invokersToJson_eq (is : List Invoker) : invokersToJson is = is.map Invoker.toJson := by
  induction is with
  | nil => rfl
  | cons i rest ih => rw [invokersToJson, ih, List.map_cons]

theorem elementsToJson_eq (es : List Element) : elementsToJson es = es.map Element.toJson := by
  induction es with
  | nil => rfl
  | cons e rest ih => rw [elementsToJson, ih, List.map_cons]

/-! ## Restrictions and invokers -/

theorem within_comparisonToJson (evaluator : String) (negated : Bool) (operand : Operand) :
    Within 2 (comparisonToJson evaluator negated operand) := by
  cases operand with
  | returnValue content declarations method =>
    have hlist : Within 1 (Json.list .string declarations) :=
      within_array.mpr (List.forall_mem_map.mpr fun s _ => within_string 0 s)
    exact within_node.mpr (by simp [hlist])
  | literal text => exact within_node.mpr (by simp)
  | var identifier => exact within_node.mpr (by simp)
  | qualified text => exact within_node.mpr (by simp)

theorem Restriction.within_toJson (r : Restriction) : Within (2 * r.nesting + 2) r.toJson := by
  cases r with
  | comparison evaluator negated operand =>
    rw [Restriction.nesting, Restriction.toJson]
    exact within_comparisonToJson evaluator negated operand
  | group connective restrictions =>
    have hparts := within_parts 2 fun r (hr : r ∈ restrictions) => r.within_toJson
    rw [Restriction.nesting, Restriction.toJson, restrictionsToJson_eq, bound_succ]
    exact within_node.mpr (by simp [hparts])
  | unknown => exact within_unknownNode _

theorem Invoker.within_toJson (i : Invoker) : Within (2 * i.nesting + 1) i.toJson := by
  cases i with
  | fieldAccess name argument => exact within_node.mpr (by simp)
  | methodAccess name arguments => exact within_node.mpr (by simp)
  | functionCall name arguments => exact within_node.mpr (by simp)
  | accessor name invokers =>
    have hparts := within_parts 1 fun i (hi : i ∈ invokers) => i.within_toJson
    rw [Invoker.nesting, Invoker.toJson, invokersToJson_eq, bound_succ]
    exact within_node.mpr (by simp [hparts])
  | unknown => exact within_unknownNode _

/-! ## Elements -/

theorem Accumulation.within_members (a : Accumulation) (d : Nat) :
    ∀ m ∈ a.members, Within d m.2 := by
  simp [Accumulation.members]

theorem pattern_bound {n m : Nat} (h : n ≤ m) : 2 * n + 5 ≤ 2 * (1 + m) + 3 := by
  omega

mutual
theorem Element.within_toJson {e : Element} (h : e.InRange) :
    Within (2 * e.nesting + 4) e.toJson := by
  match e with
  | .pattern p =>
    rw [Element.InRange] at h
    rw [Element.nesting, Element.toJson]
    exact within_node.mpr (Pattern.within_members h)
  | .group connective elements =>
    rw [Element.InRange] at h
    have hparts := within_parts 4 fun e he => Element.within_toJson (h e he)
    rw [Element.nesting, Element.toJson, elementsToJson_eq, bound_succ]
    exact within_node.mpr (by simp [hparts])
  | .quantified quantifier elements =>
    rw [Element.InRange] at h
    have hparts := within_parts 4 fun e he => Element.within_toJson (h e he)
    rw [Element.nesting, Element.toJson, elementsToJson_eq, bound_succ]
    exact within_node.mpr (by simp [hparts])
  | .eval content method => exact within_node.mpr (by simp)
  | .constraint fieldName restrictions line =>
    rw [Element.InRange] at h
    have hparts := within_parts 2 fun r (hr : r ∈ restrictions) => r.within_toJson
    rw [Element.nesting, Element.toJson, restrictionsToJson_eq]
    exact within_node.mpr (by simp [hparts, within_line _ h])
  | .binding identifier fieldName line =>
    rw [Element.InRange] at h
    exact within_node.mpr (by simp [within_line _ h])
  | .predicate content method => exact within_node.mpr (by simp)
  | .unknown => exact within_unknownNode _

theorem Pattern.within_members {p : Pattern} (h : p.InRange) :
    ∀ m ∈ p.members, Within (2 * p.nesting + 3) m.2 := by
  match p with
  | .mk objectType identifier none constraints line =>
    rw [Pattern.InRange] at h
    obtain ⟨-, hconstraints, hline⟩ := h
    have hparts := within_parts 4 fun e he => Element.within_toJson (hconstraints e he)
    rw [Pattern.nesting, Pattern.members, elementsToJson_eq, Nat.zero_max]
    simp [hparts.mono (pattern_bound (Nat.le_refl _)), within_line _ hline]
  | .mk objectType identifier (some source) constraints line =>
    rw [Pattern.InRange] at h
    obtain ⟨hsource, hconstraints, hline⟩ := h
    have hparts := within_parts 4 fun e he => Element.within_toJson (hconstraints e he)
    have hdrawn := (Source.within_toJson hsource).mono (Nat.le_add_right _ 2)
    rw [Pattern.nesting, Pattern.members, elementsToJson_eq]
    simp [hparts.mono (pattern_bound (Nat.le_max_right _ _)),
      hdrawn.mono (pattern_bound (Nat.le_max_left _ _)), within_line _ hline]

theorem Source.within_toJson {s : Source} (h : s.InRange) :
    Within (2 * s.nesting + 3) s.toJson := by
  match s with
  | .accumulate input code =>
    rw [Source.InRange] at h
    have hinput := within_object.mpr (Pattern.within_members h)
    rw [Source.nesting, Source.toJson, bound_succ]
    exact within_node.mpr (List.forall_mem_cons.mpr ⟨hinput, code.within_members _⟩)
  | .collect input method =>
    rw [Source.InRange] at h
    have hinput := within_object.mpr (Pattern.within_members h)
    rw [Source.nesting, Source.toJson, bound_succ]
    exact within_node.mpr (List.forall_mem_cons.mpr ⟨hinput, by simp⟩)
  | .supplied dataSource =>
    have hsource := dataSource.within_toJson.mono (Nat.le_add_right _ 3)
    rw [Source.nesting, Source.toJson, bound_succ]
    exact within_node.mpr (by simpa using hsource)
  | .unknown => exact within_unknownNode _
end

/-! ## Packages -/

theorem Rule.within_toJson {r : Rule} (h : r.InRange) : Within (2 * r.nesting + 6) r.toJson := by
  have hparts := within_parts 4 fun e he => Element.within_toJson (h.lhs e he)
  have hsalience (d : Nat) : Within d (.int r.salience) := by
    refine ⟨.int ?_, Nat.zero_le d⟩
    have hlt : r.salience.natAbs < 2147483649 := by
      have hrange := h.salience
      omega
    exact Nat.lt_trans hlt (by decide)
  rw [Rule.nesting, Rule.toJson, elementsToJson_eq]
  exact within_object.mpr (by simp [hsalience, within_line _ h.line, hparts])

/-- How many parts that count lie on a path through a package. -/
def Package.nesting (p : Package) : Nat := deepest (p.rules.map Rule.nesting)

/-- **The full rendering nests at most twice as deep as the package**, and a little deeper. -/
theorem Package.within_toJson {p : Package} (h : p.InRange) :
    Within (2 * p.nesting + 8) p.toJson := by
  have hparts := within_parts 6 fun r hr => Rule.within_toJson (h r hr)
  rw [Package.nesting, Package.toJson]
  exact within_object.mpr (by simpa [Json.list] using hparts)

/-- **The full rendering of a package is read back** if it does not nest deeper than documents may,
and is malformed otherwise. -/
theorem readDocument_toJson {p : Package} (h : p.InRange) :
    readDocument p.toJson.compress =
      if p.toJson.depth ≤ maxDocumentDepth then .ok [p] else .error .malformed := by
  have hwritable : p.toJson.Writable := (Package.within_toJson h).1
  split_ifs with hdepth
  · have hspelling : Spelling [p] p.toJson := .inr ⟨p, rfl, p.spelled_toJson⟩
    have hpackages := packagesOfJson?_of_spelling hspelling (List.forall_mem_singleton.mpr h) hdepth
    exact readDocument_of_read (Json.read_compress hwritable hdepth) hpackages
  · rw [readDocument, Json.value_compress_of_lt hwritable (Nat.not_le.mp hdepth)]

end RuleBase.Ast

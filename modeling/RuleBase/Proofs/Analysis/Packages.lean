import RuleBase.Proofs.Analysis.Nodewise
import RuleBase.Proofs.Analysis.Woven

/-!
# Names of packages

Rules bring no packages about. A package that is loaded has the name of one that is there already,
or comes last, so the names of the packages are those that have been loaded, each at the place of
its first use.

* **`packageNames_loadAll`**: the names of packages that are loaded.
-/

namespace RuleBase

namespace Graph

/-- The names of the packages of a graph, the oldest first. -/
def packageNames (g : Graph) : List String := (g.ofKind Kind.package?).map (·.2.name)

section PackageNames

variable {g : Graph}

theorem packageNames_add (parent : Option ComponentId) (kind : Kind) :
    (g.add parent kind).packageNames =
      g.packageNames ++ (kind.package?.map (·.name)).toList := by
  rw [packageNames, ofKind_add, List.map_append]
  cases kind.package? <;> rfl

theorem mem_packageNames {name : String} :
    name ∈ g.packageNames ↔ ∃ c ∈ g.components, c.kind.key? = some (.package name) := by
  have hkey : ∀ kind : Kind,
      kind.key? = some (.package name) ↔ kind.package?.map (·.name) = some name := by
    intro kind
    cases kind <;> simp [Kind.key?, Kind.package?]
  simp only [packageNames, ofKind, List.map_filterMap, List.mem_filterMap, Option.map_map,
    Function.comp_def, hkey]

/-- **The names of packages are the names that packages are found by.** -/
theorem Tabled.mem_packageNames_iff (h : g.Tabled) {name : String} :
    name ∈ g.packageNames ↔ (g.findPackage? name).isSome := by
  simp [mem_packageNames, h.toIndexed.findPackage?_eq, oldestOf?]

end PackageNames

end Graph

namespace Analysis

open RuleBase.Graph Condition

/-! ## Walks through rules -/

/-- The packages of a graph have the names of those of another one. -/
def SamePackages (g g' : Graph) : Prop := g'.packageNames = g.packageNames

instance : Std.Refl SamePackages := ⟨fun _ => rfl⟩

instance : IsTrans Graph SamePackages := ⟨fun _ _ _ h h' => h'.trans h⟩

section Walks

variable {g : Graph}

theorem samePackages_add (parent : Option ComponentId) {kind : Kind} (h : kind.package? = none) :
    SamePackages g (g.add parent kind) := by
  rw [SamePackages, packageNames_add, h]
  exact List.append_nil _

theorem samePackages_modify (id : ComponentId) {change : Kind → Kind} (h : Change change) :
    SamePackages g (g.modify id change) := by
  have hsame : ∀ k, (change k).package? = k.package? := fun k => by cases h <;> cases k <;> rfl
  rw [SamePackages, packageNames, ofKind_modify g id hsame]
  rfl

theorem package?_of_key?_eq_none {kind : Kind} (h : kind.key? = none) : kind.package? = none := by
  cases kind <;> cases h <;> rfl

theorem branching_samePackages (rule : RuleSite) :
    Branching rule fun _ {_} x => Always (OnGraph SamePackages) x where
  pure _ _ := always_pure
  bind _ _ _ _ _ := always_bind
  fail _ _ _ := always_throw _
  node _ _ _ _ hkey _ hk :=
    always_bind (always_add fun _ => samePackages_add _ (package?_of_key?_eq_none hkey)) hk

/-- **The walk through a rule leaves the packages alone.** -/
theorem nodewise_samePackages (rule : RuleSite) :
    Nodewise rule fun _ {_} x => Always (OnGraph SamePackages) x :=
  (branching_samePackages rule).nodewise (fun _ _ _ => samePackages_add _ rfl)
    (fun _ _ _ => samePackages_add _ rfl) (fun _ _ _ => samePackages_add _ rfl)
    (fun _ _ _ _ => samePackages_add _ rfl) (fun _ _ id _ => samePackages_modify id)
    (fun _ _ _ _ => rfl) fun _ _ _ _ => rfl

theorem samePackages_lowerRules (limits : Limits) (package : ComponentId) (rs : List Ast.Rule) :
    Always (OnGraph SamePackages) (lowerRules limits package rs) := by
  refine always_lowerRules (fun r => ?_) rs
  refine always_bind (always_add fun _ => samePackages_add _ rfl) fun id => ?_
  exact (nodewise_samePackages ⟨id, r.name, r.line⟩).lowerBody limits r

end Walks

section Packages

variable {limits : Limits} {names : List String} {g g' : Graph}

/-- A further name counts unless it has been there before. -/
theorem eraseDups_concat (names : List String) (name : String) :
    (names ++ [name]).eraseDups =
      if name ∈ names then names.eraseDups else names.eraseDups ++ [name] := by
  rw [List.eraseDups_append]
  split
  next h => simp [List.removeAll, h]
  next h => simp [List.removeAll, List.eraseDups_cons, h]

theorem nodup_eraseDups (names : List String) : names.eraseDups.Nodup := by
  induction names using List.reverseRecOn with
  | nil => exact List.nodup_nil
  | append_singleton names name ih =>
    rw [eraseDups_concat]
    split
    next => exact ih
    next hnew => exact List.concat_eq_append ▸ ih.concat (by simpa using hnew)

/-- **The name of a package that is loaded** is there already, or comes last. -/
theorem packageNames_load {p : Ast.Package} {id : ComponentId} (hmoves : Moves {} g)
    (hnames : g.packageNames = names.eraseDups) (hrun : load limits p g = .ok id g') :
    g'.packageNames = (names ++ [p.name]).eraseDups := by
  obtain ⟨s, s', hfind, hrules, rfl⟩ := load_eq_ok hrun
  have hsame : s'.graph.packageNames = s.graph.packageNames :=
    (samePackages_lowerRules limits id p.rules).of_ok hrules
  have hmem : p.name ∈ names ↔ (g.findPackage? p.name).isSome := by
    rw [← hmoves.tabled.mem_packageNames_iff, hnames, List.mem_eraseDups]
  rw [hsame, eraseDups_concat]
  obtain ⟨hfound, rfl⟩ | ⟨hnone, -, rfl⟩ := findOrAdd_eq_ok hfind
  · rw [if_pos (hmem.mpr (Option.isSome_of_eq_some hfound)), hnames]
  · rw [if_neg fun h => by simpa [hnone] using hmem.mp h, packageNames_add, hnames]
    rfl

/-- **The packages that have been loaded**, each at the place of its first use. -/
theorem packageNames_loadAll {ps : List Ast.Package} {ids : List ComponentId}
    (hmoves : Moves {} g) (hnames : g.packageNames = names.eraseDups)
    (hrun : loadAll limits ps g = .ok ids g') :
    g'.packageNames = (names ++ ps.map (·.name)).eraseDups := by
  refine (loadAll_induction (I := fun before g' => Moves {} g' ∧
    g'.packageNames = (names ++ before.map (·.name)).eraseDups) hrun
    ⟨hmoves, by simpa using hnames⟩ ?_).2
  rintro before p g₁ id g₂ ⟨hmoves₁, hbefore⟩ hload
  have hwoven := woven_load (hmoves₁.arranged arranged_empty) hload
  refine ⟨hmoves₁.trans hwoven.moves, ?_⟩
  rw [List.map_append, ← List.append_assoc]
  exact packageNames_load hmoves₁ hbefore hload

end Packages

end Analysis

end RuleBase

import RuleBase.Proofs.Analysis.Nodewise
import RuleBase.Proofs.Analysis.Reuse
import RuleBase.Proofs.Graph.Continued

/-!
# Packages in parts

A package that is loaded in parts, one after another, is loaded as a whole: each later part finds
the component of the first one, and goes on where the part before has ended.

* **`ids_of_loadAll`**: packages of one name are one component;
* `Ast.Package.SplitsInto`, **`loadAll_of_splits`**: the parts of a package make the same graph.
-/

namespace RuleBase

/-- Some packages are the parts of a package, in their order. -/
structure Ast.Package.SplitsInto (p : Ast.Package) (parts : List Ast.Package) : Prop where
  ne_nil : parts ≠ []
  name_eq : ∀ q ∈ parts, q.name = p.name
  rules_eq : parts.flatMap (·.rules) = p.rules

/-- The component of the package with the given name, if there is one. -/
def Graph.packageId (g : Graph) (name : String) : ComponentId := (g.findPackage? name).getD 0

namespace Analysis

open RuleBase.Graph Condition

/-! ## Keys -/

/-- What has been found by a key still is, unless it is a variable. -/
def Finds (g g' : Graph) : Prop :=
  ∀ key id, key.isShadowing = false → g.keyTable.find? key = some id →
    g'.keyTable.find? key = some id

instance : Std.Refl Finds := ⟨fun _ _ _ _ h => h⟩

instance : IsTrans Graph Finds :=
  ⟨fun _ _ _ h h' key id hplain hid => h' key id hplain (h key id hplain hid)⟩

section Finds

variable {rule : ComponentId} {g g' : Graph}

theorem finds_add (g : Graph) (parent : Option ComponentId) (kind : Kind) :
    Finds g (g.add parent kind) :=
  fun _ _ hplain hid => find?_add_of_some hid fun _ => hplain

theorem finds_modify (g : Graph) (id : ComponentId) (change : Kind → Kind) :
    Finds g (g.modify id change) := by
  obtain ⟨journal?, hsame⟩ := exists_modify_eq g id change
  exact hsame ▸ fun _ _ _ hid => hid

theorem Update.finds (h : Update rule g g') : Finds g g' := by
  cases h with
  | add parent kind => exact finds_add g parent kind
  | fill id change => exact finds_modify g id change
  | mention field line => exact finds_modify g field _
  | settle field type => exact finds_modify g field _
  | startPath id => exact finds_modify g id _
  | _ => exact fun _ _ _ hid => hid

theorem finds_lowerRule (limits : Limits) (package : ComponentId) (r : Ast.Rule) :
    Always (OnGraph Finds) (lowerRule limits package r) :=
  always_bind (always_add fun g => finds_add g _ _) fun _ =>
    (compositional_onGraph fun _ _ h => h.finds).modular.lowerBody limits r

theorem finds_lowerRules (limits : Limits) (package : ComponentId) (rs : List Ast.Rule) :
    Always (OnGraph Finds) (lowerRules limits package rs) :=
  always_lowerRules (finds_lowerRule limits package) rs

/-- **No package is lost** when further ones are loaded. -/
theorem finds_loadAll (limits : Limits) (ps : List Ast.Package) :
    Always Finds (loadAll limits ps) :=
  always_loadAll (fun g _ => finds_add g _ _) (finds_lowerRule limits) ps

end Finds

section Packages

variable {limits : Limits} {p q : Ast.Package} {g g' : Graph} {id : ComponentId} {s s' : State}

theorem findPackage?_of_packageFor {name : String} (hrun : packageFor name s = .ok id s') :
    s'.graph.findPackage? name = some id := by
  obtain ⟨hfind, rfl⟩ | ⟨hnone, rfl, rfl⟩ := findOrAdd_eq_ok hrun
  · exact hfind
  · have htable : s.graph.keyTable.find? (.package name) = none := hnone
    simp [findPackage?, Graph.add, Kind.key?, foundWith, Key.isShadowing, Table.find?_alter, htable]

theorem load_of_ok (hpackage : packageFor p.name ⟨g, []⟩ = .ok id s)
    (hrules : lowerRules limits id p.rules s = .ok () s') : load limits p g = .ok id s'.graph := by
  have hrun : lowerPackage limits p ⟨g, []⟩ = .ok id s' := by
    rw [lowerPackage, bind_of_ok hpackage, bind_of_ok hrules]
    rfl
  rw [load, hrun]

theorem findPackage?_of_load (hrun : load limits p g = .ok id g') :
    g'.findPackage? p.name = some id := by
  obtain ⟨s, s', hpackage, hrules, rfl⟩ := load_eq_ok hrun
  exact (finds_lowerRules limits id p.rules).of_ok hrules _ _ rfl
    (findPackage?_of_packageFor hpackage)

/-- **Packages of one name are one component**, which their names still lead to later. -/
theorem ids_of_loadAll {ps : List Ast.Package} {ids : List ComponentId} {later : Graph}
    (hrun : loadAll limits ps g = .ok ids g') (hlater : Finds g' later) :
    ids = ps.map (later.packageId ·.name) := by
  induction ps generalizing g ids with
  | nil =>
    cases hrun
    rfl
  | cons p rest ih =>
    obtain ⟨id, g₁, hfirst, hrun₁⟩ := bind_eq_ok hrun
    obtain ⟨ids', g₂, hrest, hdone⟩ := bind_eq_ok hrun₁
    cases hdone
    have hfind : later.findPackage? p.name = some id :=
      hlater _ _ rfl ((finds_loadAll limits rest).of_ok hrest _ _ rfl (findPackage?_of_load hfirst))
    rw [List.map_cons, ← ih hrest, packageId, hfind]
    rfl

/-! ## Parts -/

theorem lowerRules_append (limits : Limits) (package : ComponentId) (rs rs' : List Ast.Rule) :
    lowerRules limits package (rs ++ rs') =
      (lowerRules limits package rs >>= fun _ => lowerRules limits package rs') := by
  induction rs with
  | nil => rw [List.nil_append, lowerRules, pure_bind]
  | cons r rest ih => rw [List.cons_append, lowerRules, lowerRules, ih, bind_assoc]

/-- A package whose rules are those of two others of its name is loaded as these two. -/
theorem load_append (hname : q.name = p.name)
    (hrun : load limits ⟨p.name, p.rules ++ q.rules⟩ g = .ok id g') :
    ∃ g₁, load limits p g = .ok id g₁ ∧ load limits q g₁ = .ok id g' := by
  obtain ⟨s, s', hpackage, hrules, rfl⟩ := load_eq_ok hrun
  rw [lowerRules_append] at hrules
  obtain ⟨u, s₁, hfirst, hsecond⟩ := bind_eq_ok hrules
  refine ⟨s₁.graph, load_of_ok hpackage hfirst, ?_⟩
  -- all scopes are closed behind the first part, so the second one starts like a walk of its own
  have hopened : s.scopes = [] := by
    have hclosed := (closes_packageFor (E := fun _ => False) p.name ⟨g, []⟩ rfl).1
    rwa [show packageFor p.name ⟨g, []⟩ = .ok id s from hpackage] at hclosed
  have hclosed := (closes_lowerRules limits id p.rules s hopened).1
  rw [hfirst] at hclosed
  have hstart : (⟨s₁.graph, []⟩ : State) = s₁ := by rw [← show s₁.scopes = [] from hclosed]
  have hfind : s₁.graph.findPackage? q.name = some id :=
    hname ▸ (finds_lowerRules limits id p.rules).of_ok hfirst _ _ rfl
      (findPackage?_of_packageFor hpackage)
  exact load_of_ok (findOrAdd_of_some hfind) (hstart ▸ hsecond)

theorem loadAll_append (limits : Limits) (ps qs : List Ast.Package) :
    loadAll limits (ps ++ qs) = do
      let ids ← loadAll limits ps
      let ids' ← loadAll limits qs
      return ids ++ ids' := by
  induction ps with
  | nil => simp [loadAll]
  | cons p rest ih => simp [loadAll, ih]

theorem loadAll_append_eq_ok {ps qs : List Ast.Package} {ids : List ComponentId}
    (hrun : loadAll limits (ps ++ qs) g = .ok ids g') :
    ∃ ids₁ ids₂ g₁, loadAll limits ps g = .ok ids₁ g₁ ∧ loadAll limits qs g₁ = .ok ids₂ g' ∧
      ids = ids₁ ++ ids₂ := by
  rw [loadAll_append] at hrun
  obtain ⟨ids₁, g₁, hfirst, hrun₁⟩ := bind_eq_ok hrun
  obtain ⟨ids₂, g₂, hsecond, hdone⟩ := bind_eq_ok hrun₁
  cases hdone
  exact ⟨ids₁, ids₂, g₁, hfirst, hsecond, rfl⟩

/-- **The parts of a package make the same graph**, one after another. -/
theorem loadAll_of_splits {parts : List Ast.Package} (hparts : p.SplitsInto parts)
    (hrun : load limits p g = .ok id g') :
    loadAll limits parts g = .ok (parts.map fun _ => id) g' := by
  obtain ⟨hne, hname, hrules⟩ := hparts
  induction parts generalizing p g with
  | nil => exact absurd rfl hne
  | cons q rest ih =>
    have hq : q.name = p.name := hname q List.mem_cons_self
    cases rest with
    | nil =>
      have hsame : q = p := by
        rw [List.flatMap_singleton] at hrules
        cases p
        cases q
        simp_all
      rw [hsame, loadAll, bind_of_ok hrun]
      rfl
    | cons q' rest =>
      let others : Ast.Package := ⟨p.name, (q' :: rest).flatMap (·.rules)⟩
      have hboth : load limits ⟨q.name, q.rules ++ others.rules⟩ g = .ok id g' := by
        rw [← List.flatMap_cons, hrules, hq]
        exact hrun
      obtain ⟨g₁, hfirst, hothers⟩ := load_append (q := others) hq.symm hboth
      have hrest := ih hothers (List.cons_ne_nil q' rest)
        (fun q'' hq'' => hname q'' (List.mem_cons_of_mem q hq'')) rfl
      rw [loadAll, bind_of_ok hfirst, bind_of_ok hrest]
      rfl

theorem loadAll_flatten {ps : List Ast.Package} {parts : List (List Ast.Package)}
    (hparts : List.Forall₂ Ast.Package.SplitsInto ps parts) {ids : List ComponentId}
    (hrun : loadAll limits ps g = .ok ids g') :
    ∃ ids', loadAll limits parts.flatten g = .ok ids' g' := by
  induction hparts generalizing g ids with
  | nil => exact ⟨ids, hrun⟩
  | @cons p qs ps parts hfirst _ ih =>
    obtain ⟨id, g₁, hload, hrun₁⟩ := bind_eq_ok hrun
    obtain ⟨ids', g₂, hrest, hdone⟩ := bind_eq_ok hrun₁
    cases hdone
    obtain ⟨ids'', hrest'⟩ := ih hrest
    refine ⟨(qs.map fun _ => id) ++ ids'', ?_⟩
    rw [List.flatten_cons, loadAll_append, bind_of_ok (loadAll_of_splits hfirst hload),
      bind_of_ok hrest']
    rfl

end Packages

end Analysis

end RuleBase

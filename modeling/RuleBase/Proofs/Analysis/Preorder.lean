import RuleBase.Proofs.Analysis.Nodewise
import RuleBase.Proofs.Analysis.Woven
import RuleBase.Proofs.Graph.Preorder

/-!
# Walks in reading order

At every moment of a walk, the component that it is at can grow: it comes last among its siblings,
and so does everything above it. So components come about in reading order, also when a package is
extended later on.

* **`preordered_loadAll`**: packages that are loaded leave a graph in reading order.
-/

namespace RuleBase.Analysis

open RuleBase.Graph Condition

/-- Components stay where they are, and one that can grow still can. -/
structure Sprouts (p : ComponentId) (g g' : Graph) : Prop where
  nodeParent?_eq : ∀ id q, g.nodeParent? id = some q → g'.nodeParent? id = some q
  edgeAt : EdgeAt p g → EdgeAt p g'

section Sprouts

variable {p : ComponentId} {g g' : Graph}

instance : Std.Refl (Sprouts p) := ⟨fun _ => ⟨fun _ _ h => h, fun h => h⟩⟩

instance : IsTrans Graph (Sprouts p) := ⟨fun _ _ _ h h' =>
  ⟨fun id q hid => h'.nodeParent?_eq id q (h.nodeParent?_eq id q hid),
    fun hedge => h'.edgeAt (h.edgeAt hedge)⟩⟩

theorem sprouts_of_eq (hsame : g'.nodeParent? = g.nodeParent?) (hle : g.size ≤ g'.size) :
    Sprouts p g g' :=
  ⟨fun _ _ hid => hsame ▸ hid, fun h => h.of_eq hsame hle⟩

theorem sprouts_modify (g : Graph) (id : ComponentId) {change : Kind → Kind}
    (h : ∀ k, (change k).type = k.type) : Sprouts p g (g.modify id change) :=
  sprouts_of_eq (nodeParent?_modify g id h) (Nat.le_of_eq (size_modify g id change).symm)

theorem Change.type_eq {change : Kind → Kind} (h : Change change) (k : Kind) :
    (change k).type = k.type := by
  rw [← Kind.type_essence, h.essence_eq, Kind.type_essence]

theorem sprouts_add_aside (g : Graph) (parent : Option ComponentId) {kind : Kind}
    (h : kind.type = .field ∨ parent = none) : Sprouts p g (g.add parent kind) :=
  sprouts_of_eq (nodeParent?_add_of_none g parent h) (by rw [size_add]; exact Nat.le_succ _)

/-- **What lets a new component grow lets the one above it grow.** -/
theorem sprouts_above {kind : Kind} (htype : kind.type ≠ .field)
    (h : Sprouts g.nextId (g.add (some p) kind) g') : Sprouts p g g' := by
  have hadd : (g.add (some p) kind).nodeParent? =
      Function.update g.nodeParent? g.nextId (some p) := by
    rw [nodeParent?_add, if_neg htype]
  refine ⟨fun id q hid => h.nodeParent?_eq id q ?_, fun hedge => ?_⟩
  · have hold : id ≠ g.nextId := Nat.ne_of_lt (Nat.lt_succ_of_le (le_size_of_nodeParent? hid))
    rw [hadd, Function.update_of_ne hold, hid]
  · refine (h.edgeAt (hedge.add htype)).of_child (h.nodeParent?_eq _ _ ?_)
    rw [hadd, Function.update_self]

end Sprouts

section Walks

variable {p : ComponentId} {α : Type}

theorem sprouts_add_bind {kind : Kind} {k : ComponentId → Walk α} (htype : kind.type ≠ .field)
    (hk : ∀ id, Always (OnGraph (Sprouts id)) (k id)) :
    Always (OnGraph (Sprouts p)) (add (some p) kind >>= k) := by
  intro s
  have hadd : add (some p) kind s =
    .ok s.graph.nextId { s with graph := s.graph.add (some p) kind } := rfl
  rw [bind_of_ok hadd]
  exact sprouts_above htype (hk _ { s with graph := s.graph.add (some p) kind })

theorem branching_sprouts (rule : RuleSite) :
    Branching rule fun p {_} x => Always (OnGraph (Sprouts p)) x where
  pure _ _ := always_pure
  bind _ _ _ _ _ := always_bind
  fail _ _ _ := always_throw _
  node p _ kind _ hkey _ hk := by
    refine sprouts_add_bind (fun htype => ?_) hk
    cases kind <;> cases htype
    cases hkey

/-- **Walks at a component let it grow.** -/
theorem nodewise_sprouts (rule : RuleSite) :
    Nodewise rule fun p {_} x => Always (OnGraph (Sprouts p)) x :=
  (branching_sprouts rule).nodewise (fun _ _ _ => sprouts_above (by rintro ⟨⟩) (Std.Refl.refl _))
    (fun _ _ _ => sprouts_above (by rintro ⟨⟩) (Std.Refl.refl _))
    (fun _ g _ => sprouts_add_aside g none (.inr rfl))
    (fun _ g parent _ => sprouts_add_aside g parent (.inl rfl))
    (fun _ g id _ h => sprouts_modify g id h.type_eq)
    (fun _ _ _ _ => sprouts_of_eq rfl (Nat.le_refl _))
    fun _ _ _ _ => sprouts_of_eq rfl (Nat.le_refl _)

theorem sprouts_lowerRules (limits : Limits) (rs : List Ast.Rule) :
    Always (OnGraph (Sprouts p)) (lowerRules limits p rs) := by
  refine always_lowerRules (fun r => sprouts_add_bind nofun fun id => ?_) rs
  exact (nodewise_sprouts ⟨id, r.name, r.line⟩).lowerBody limits r

end Walks

section Packages

variable {limits : Limits} {g g' : Graph}

/-- A package has no parent, whether it is new or extended. -/
theorem edgeAt_packageFor {name : String} {s s' : State} {id : ComponentId}
    (hmoves : Moves {} s.graph) (h : Preordered s.graph.nodeParent?)
    (hrun : packageFor name s = .ok id s') : EdgeAt id s'.graph := by
  obtain ⟨hfind, rfl⟩ | ⟨-, rfl, rfl⟩ := findOrAdd_eq_ok hrun
  · have hsound := (hmoves.arranged arranged_empty).toSound
    have hpackage := hsound.package?_of_findPackage? hfind
    obtain ⟨⟨cid, parent, place, kind⟩, hc, hkind⟩ := Option.bind_eq_some_iff.mp hpackage
    obtain rfl : kind = .package ⟨name⟩ := by
      cases kind <;> cases hkind
      rfl
    obtain rfl : parent = none := hmoves.fitsIn id _ hc
    refine ⟨h, .root ?_, le_size_of_get? hc⟩
    rw [nodeParent?, typeOf?, parentOf?, hc]
    rfl
  · have hsame : (s.graph.add none (.package ⟨name⟩)).nodeParent? = s.graph.nodeParent? :=
      nodeParent?_add_of_none s.graph none (.inr rfl)
    refine ⟨hsame ▸ h, .root ?_, Nat.le_of_eq (size_add s.graph none _).symm⟩
    rw [hsame, Option.eq_none_iff_forall_ne_some]
    exact fun q hq => absurd (le_size_of_nodeParent? hq) (Nat.not_succ_le_self _)

theorem preordered_load {ast : Ast.Package} {id : ComponentId} (hmoves : Moves {} g)
    (h : Preordered g.nodeParent?) (hrun : load limits ast g = .ok id g') :
    Preordered g'.nodeParent? := by
  obtain ⟨s, s', hfind, hrules, rfl⟩ := load_eq_ok hrun
  have hsprouts : Sprouts id s.graph s'.graph := (sprouts_lowerRules limits ast.rules).of_ok hrules
  exact (hsprouts.edgeAt (edgeAt_packageFor hmoves h hfind)).preordered

/-- **Packages that are loaded leave a graph in reading order.** -/
theorem preordered_loadAll {ps : List Ast.Package} {ids : List ComponentId} (hmoves : Moves {} g)
    (h : Preordered g.nodeParent?) (hrun : loadAll limits ps g = .ok ids g') :
    Preordered g'.nodeParent? := by
  refine (loadAll_induction (I := fun _ g' => Moves {} g' ∧ Preordered g'.nodeParent?) hrun
    ⟨hmoves, h⟩ ?_).2
  rintro before p g₁ id g₂ ⟨hmoves₁, hbefore⟩ hload
  have hwoven := woven_load (hmoves₁.arranged arranged_empty) hload
  exact ⟨hmoves₁.trans hwoven.moves, preordered_load hmoves₁ hbefore hload⟩

end Packages

end RuleBase.Analysis

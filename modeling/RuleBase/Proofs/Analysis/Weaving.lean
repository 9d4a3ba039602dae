import RuleBase.Proofs.Analysis.Moves
import RuleBase.Proofs.Analysis.Run

/-!
# Walks that weave components in

A part of a walk that succeeds makes moves, and leaves all components finished but for the one that
it works below: that one may get further children. A component that has to be filled in is woven in
as a whole, with what happens below it before and after it is filled in.

* **`Woven.node`**: a component with what is below it;
* `Weaves`: what a walk does where some facts hold; **`weaves_bind`**, `weaves_value_bind`,
  `weaves_node_bind`, `weaves_within`: walks part by part.
-/

namespace RuleBase.Analysis

open RuleBase.Graph Condition

variable {g g' g'' g₁ g₂ g₃ : Graph} {p? : Option ComponentId}

/-! ## Moves that leave components finished -/

/-- Moves on a graph that leave components finished, but for one, and fill in none. -/
structure Woven (p? : Option ComponentId) (g g' : Graph) : Prop where
  moves : Moves g g'
  finished : ∀ id, some id ≠ p? → g.FinishedAt id → g'.FinishedAt id
  same : ∀ id c, g.get? id = some c → c.kind.type.isPlain = false → g'.get? id = some c

namespace Woven

theorem refl (g : Graph) : Woven p? g g := ⟨moves_refl g, fun _ _ h => h, fun _ _ h _ => h⟩

theorem trans (h : Woven p? g g') (h' : Woven p? g' g'') : Woven p? g g'' where
  moves := h.moves.trans h'.moves
  finished id hid hdone := h'.finished id hid (h.finished id hid hdone)
  same id c hc hplain := h'.same id c (h.same id c hc hplain) hplain

end Woven

theorem finishedAt_keep {id : ComponentId} (h : Kept g g') (hsound : g.Sound)
    (hget : g'.get? id = g.get? id) (hchildren : g'.childIds (some id) = g.childIds (some id))
    (hdone : g.FinishedAt id) : g'.FinishedAt id := by
  intro c hc
  rw [hget] at hc
  exact (hdone c hc).keep h hsound hchildren

theorem finishedAt_modify (hsound : g.Sound) {id other : ComponentId} {change : Kind → Kind}
    (hchange : Change change) (hne : id ≠ other) (hdone : g.FinishedAt other) :
    (g.modify id change).FinishedAt other := by
  refine finishedAt_keep (kept_modify g id hchange.essence_eq) hsound ?_ (by simp) hdone
  rw [get?_modify]
  simp [hne]

/-- A new component leaves all others finished but for its parent. -/
theorem finishedAt_add (hsound : g.Sound) {parent : Option ComponentId} (kind : Kind)
    {id : ComponentId} (hne : id ≠ g.nextId)
    (hparent : parent = some id → ∃ c, g.get? id = some c ∧ c.kind.type.isPlain = true)
    (hdone : g.FinishedAt id) : (g.add parent kind).FinishedAt id := by
  intro c hc
  obtain hold | ⟨hid, -⟩ := get?_add_eq_some hc
  · by_cases hsame : some id = parent
    · obtain ⟨c', hc', hplain⟩ := hparent hsame.symm
      obtain rfl := Option.some.inj (hold.symm.trans hc')
      exact Kind.finished_of_isPlain hplain _ _
    · refine (hdone c hold).keep (kept_add g parent kind) hsound ?_
      rw [childIds_add, if_neg hsame, List.append_nil]
  · exact absurd hid hne

/-- A component has been filled in, if there was something to fill in. -/
def Fills (id : ComponentId) (g g' : Graph) : Prop :=
  g' = g ∨ ∃ change, Change change ∧ g' = g.modify id change

theorem Fills.moves {id : ComponentId} (h : Fills id g g') : Moves g g' := by
  obtain rfl | ⟨change, hchange, rfl⟩ := h
  · exact moves_refl _
  · exact (Move.change id change hchange).moves

theorem Fills.finished {id other : ComponentId} (h : Fills id g g') (hsound : g.Sound)
    (hne : id ≠ other) (hdone : g.FinishedAt other) : g'.FinishedAt other := by
  obtain rfl | ⟨change, hchange, rfl⟩ := h
  · exact hdone
  · exact finishedAt_modify hsound hchange hne hdone

theorem Fills.get?_eq {id other : ComponentId} (h : Fills id g g') (hne : id ≠ other) :
    g'.get? other = g.get? other := by
  obtain rfl | ⟨change, hchange, rfl⟩ := h
  · rfl
  · rw [get?_modify]
    simp [hne]

namespace Woven

theorem of_still (hsound : g.Sound) (hmove : Move g g') (hget : ∀ id, g'.get? id = g.get? id)
    (hchildren : ∀ parent, g'.childIds parent = g.childIds parent) : Woven p? g g' where
  moves := hmove.moves
  finished id _ := finishedAt_keep hmove.kept hsound (hget id) (hchildren _)
  same id _ hc _ := (hget id).trans hc

theorem modify (hsound : g.Sound) (id : ComponentId) {change : Kind → Kind}
    (hchange : Change change) (hplain : ∀ k : Kind, k.type.isPlain = false → change k = k) :
    Woven p? g (g.modify id change) := by
  have hsame : ∀ other c, g.get? other = some c → c.kind.type.isPlain = false →
      (g.modify id change).get? other = some c := by
    intro other c hc hnot
    rw [get?_modify_of_some hc, hplain c.kind hnot, ite_self]
  refine ⟨(Move.change id change hchange).moves, fun other _ hdone c' hc' => ?_, hsame⟩
  rw [get?_modify] at hc'
  obtain ⟨c, hc, hc'⟩ := Option.map_eq_some_iff.mp hc'
  have htype : c'.kind.type = c.kind.type := by
    rw [← hc']
    split
    · rw [← Kind.type_essence, hchange.essence_eq, Kind.type_essence]
    · rfl
  cases hp : c.kind.type.isPlain with
  | true => exact Kind.finished_of_isPlain (htype ▸ hp) _ _
  | false =>
    have hget : (g.modify id change).get? other = g.get? other := by rw [hsame other c hc hp, hc]
    refine finishedAt_keep (kept_modify g id hchange.essence_eq) hsound hget (by simp) hdone c' ?_
    rw [hsame other c hc hp, ← hc', hplain c.kind hp, ite_self]

/-- **A component is woven in** with what happens below it before and after it is filled in, if it
agrees with that in the end. -/
theorem node (harranged : g.Arranged) {parent : Option ComponentId} {kind : Kind}
    (hsuits : Suits g parent kind)
    (hparent : ∀ id, parent = some id → some id ≠ p? →
      ∃ c, g.get? id = some c ∧ c.kind.type.isPlain = true)
    (before : Woven (some g.nextId) (g.add parent kind) g₁) (filled : Fills g.nextId g₁ g₂)
    (after : Woven (some g.nextId) g₂ g₃) (hdone : g₃.FinishedAt g.nextId) : Woven p? g g₃ := by
  have hadd : Moves g (g.add parent kind) := (Move.add parent kind hsuits).moves
  have harranged₁ := before.moves.arranged (hadd.arranged harranged)
  refine ⟨hadd.trans (before.moves.trans (filled.moves.trans after.moves)), ?_, ?_⟩
  · intro id hid hold
    by_cases hnew : id = g.nextId
    · rw [hnew]
      exact hdone
    · have hne : some id ≠ some g.nextId := fun heq => hnew (Option.some.inj heq)
      have hadded := finishedAt_add harranged.toSound kind hnew (fun hp => hparent id hp hid) hold
      have hbefore := before.finished id hne hadded
      exact after.finished id hne (filled.finished harranged₁.toSound (Ne.symm hnew) hbefore)
  · intro id c hc hplain
    have hle : id ≤ g.size := le_size_of_get? hc
    have hne : g.nextId ≠ id := Nat.ne_of_gt (Nat.lt_succ_of_le hle)
    have hbefore := before.same id c ((get?_add_of_le g parent kind hle).trans hc) hplain
    exact after.same id c ((filled.get?_eq hne).trans hbefore) hplain

theorem plain_node (harranged : g.Arranged) {parent : Option ComponentId} {kind : Kind}
    (hsuits : Suits g parent kind) (hkind : kind.type.isPlain = true)
    (hparent : ∀ id, parent = some id → some id ≠ p? →
      ∃ c, g.get? id = some c ∧ c.kind.type.isPlain = true)
    (h : Woven (some g.nextId) (g.add parent kind) g') : Woven p? g g' := by
  refine node harranged hsuits hparent h (.inl rfl) (refl _) fun c hc => ?_
  obtain ⟨c', hc', -, hessence⟩ := h.moves.kept _ _ (get?_add_nextId g parent kind)
  obtain rfl := Option.some.inj (hc'.symm.trans hc)
  refine Kind.finished_of_isPlain ?_ _ _
  rw [← Kind.type_essence, hessence, Kind.type_essence]
  exact hkind

end Woven

/-! ## Facts that last -/

/-- A fact about graphs that moves keep. -/
def Lasting (F : Graph → Prop) : Prop := ∀ g g', Kept g g' → F g → F g'

theorem Lasting.and {F F' : Graph → Prop} (h : Lasting F) (h' : Lasting F') :
    Lasting fun g => F g ∧ F' g :=
  fun g g' hkept hboth => ⟨h g g' hkept hboth.1, h' g g' hkept hboth.2⟩

theorem lasting_true : Lasting fun _ => True := fun _ _ _ h => h

theorem lasting_made (id : ComponentId) (parent : Option ComponentId) (kind : Kind) :
    Lasting (Made id parent kind) := fun _ _ hkept h => h.keep hkept

/-! ## Walks -/

/-- A walk weaves in components below one of them where some facts hold. -/
def Weaves {α : Type} (F : Graph → Prop) (p? : Option ComponentId) (x : Walk α) : Prop :=
  ∀ s a s', s.graph.Arranged → F s.graph → x s = .ok a s' → Woven p? s.graph s'.graph

section Walks

variable {α β : Type} {F F' : Graph → Prop} {x : Walk α} {k : α → Walk β}

theorem Weaves.of_imp (h : Weaves F' p? x) (himp : ∀ g, F g → F' g) : Weaves F p? x :=
  fun s a s' harranged hF => h s a s' harranged (himp _ hF)

/-- **A sequence weaves what its parts weave.** -/
theorem weaves_bind (hlasting : Lasting F) (hx : Weaves F p? x) (hk : ∀ a, Weaves F p? (k a)) :
    Weaves F p? (x >>= k) := by
  intro s b s'' harranged hF hrun
  obtain ⟨a, s', hfirst, hsecond⟩ := bind_eq_ok hrun
  have hwoven := hx s a s' harranged hF hfirst
  exact hwoven.trans (hk a s' b s'' (hwoven.moves.arranged harranged)
    (hlasting _ _ hwoven.moves.kept hF) hsecond)

/-- What is known of the result of the first part can be used in the second one. -/
theorem weaves_value_bind {Q : α → Graph → Prop} (hlasting : Lasting F) (hx : Weaves F p? x)
    (hvalue : ∀ s a s', s.graph.Arranged → F s.graph → x s = .ok a s' → Q a s'.graph)
    (hk : ∀ a, Weaves (fun g => F g ∧ Q a g) p? (k a)) : Weaves F p? (x >>= k) := by
  intro s b s'' harranged hF hrun
  obtain ⟨a, s', hfirst, hsecond⟩ := bind_eq_ok hrun
  have hwoven := hx s a s' harranged hF hfirst
  exact hwoven.trans (hk a s' b s'' (hwoven.moves.arranged harranged)
    ⟨hlasting _ _ hwoven.moves.kept hF, hvalue s a s' harranged hF hfirst⟩ hsecond)

/-! ### Steps that weave nothing -/

theorem weaves_of_graph_eq (h : ∀ s a s', x s = .ok a s' → s'.graph = s.graph) : Weaves F p? x := by
  intro s a s' _ _ hrun
  rw [h s a s' hrun]
  exact .refl _

theorem weaves_pure (a : α) : Weaves F p? (pure a) :=
  weaves_of_graph_eq fun _ _ _ hrun => by cases hrun; rfl

theorem weaves_inScopes (rule : RuleSite) (step : Scoping α) : Weaves F p? (inScopes rule step) :=
  weaves_of_graph_eq fun _ _ _ hrun => by
    obtain ⟨scopes, -, rfl⟩ := inScopes_eq_ok hrun
    rfl

theorem weaves_orFail_bind {rule : RuleSite} {fault : Fault} {o : Option α}
    (hk : ∀ a, o = some a → Weaves F p? (k a)) : Weaves F p? (orFail rule fault o >>= k) := by
  intro s b s' harranged hF hrun
  obtain ⟨a, s₁, hfound, hrest⟩ := bind_eq_ok hrun
  obtain ⟨ho, rfl⟩ := orFail_eq_ok hfound
  exact hk a ho _ b s' harranged hF hrest

theorem weaves_descend_bind {limits : Limits} {site : Site} {k : Site → Walk β}
    (hk : ∀ depth, Weaves F p? (k { site with depth })) :
    Weaves F p? (descend limits site >>= k) := by
  intro s b s' harranged hF hrun
  obtain ⟨site', s₁, hdescend, hrest⟩ := bind_eq_ok hrun
  obtain ⟨⟨depth, rfl⟩, rfl⟩ := descend_eq_ok hdescend
  exact hk depth _ b s' harranged hF hrest

theorem weaves_modify (id : ComponentId) {change : Kind → Kind} (hchange : Change change)
    (hplain : ∀ k : Kind, k.type.isPlain = false → change k = k) :
    Weaves F p? (modify id change) := by
  intro s a s' harranged _ hrun
  cases hrun
  exact .modify harranged.toSound id hchange hplain

theorem weaves_keepPatternPossibilities (rule pattern : ComponentId)
    (possibilities : List (List ComponentId)) :
    Weaves F p? (keepPatternPossibilities rule pattern possibilities) := by
  intro s a s' harranged _ hrun
  cases hrun
  exact .of_still harranged.toSound (.patternPossibilities rule pattern possibilities)
    (fun id => by cases id <;> rfl) fun _ => rfl

theorem weaves_keepRulePossibilities (rule : ComponentId)
    (possibilities : List (List PossibilityId)) :
    Weaves F p? (keepRulePossibilities rule possibilities) := by
  intro s a s' harranged _ hrun
  cases hrun
  exact .of_still harranged.toSound (.rulePossibilities rule possibilities)
    (fun id => by cases id <;> rfl) fun _ => rfl

/-! ### Nodes and scopes -/

/-- **A component that has nothing to be filled in**, with what comes below it. -/
theorem weaves_node_bind {p : ComponentId} {kind : Kind} {k : ComponentId → Walk β}
    (hkind : kind.type.isPlain = true) (hlasting : Lasting F')
    (hsuits : ∀ g, g.Arranged → F g → Suits g (some p) kind ∧ F' g)
    (hk : ∀ id, Weaves (fun g => F' g ∧ Made id (some p) kind g) (some id) (k id)) :
    Weaves F (some p) (add (some p) kind >>= k) := by
  intro s b s' harranged hF hrun
  obtain ⟨id, s₁, hadd, hrest⟩ := bind_eq_ok hrun
  obtain ⟨rfl, rfl⟩ := add_eq_ok hadd
  obtain ⟨hsuits, hF'⟩ := hsuits _ harranged hF
  refine .plain_node harranged hsuits hkind (fun id hid hne => absurd hid.symm hne) ?_
  refine hk _ _ b s' (harranged.add kind hsuits.parent_le) ⟨?_, made_add _ _ _⟩ hrest
  exact hlasting _ _ (kept_add _ _ kind) hF'

theorem weaves_within {limits : Limits} {rule : RuleSite} {scope : Scope} {body : Walk Unit}
    (hbody : Weaves F p? body) : Weaves F p? (within limits rule scope body) := by
  intro s closed s' harranged hF hrun
  obtain ⟨frame, s₁, -, hinside, scopes, -, rfl⟩ := within_eq_ok hrun
  exact hbody { s with scopes := frame :: s.scopes } () s₁ harranged hF hinside

end Walks

end RuleBase.Analysis

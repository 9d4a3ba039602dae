import RuleBase.Analysis.Package
import RuleBase.Proofs.Analysis.Plain
import RuleBase.Proofs.Graph.Outline

/-!
# Walks that draw outlines

A part of a walk adds outlines behind the children of one component and leaves all other components
of rules alone. What walks draw is put together like the walks: a sequence draws one list behind the
other, and what is drawn below a new component becomes a node.

* **`draws_bind`**, **`draws_node_bind`**: sequences and nodes.
-/

namespace RuleBase.Analysis

open RuleBase.Graph Condition

variable {g g' g'' : Graph} {p : ComponentId} {ts ts' : List Outline}

/-! ## Graphs that go on -/

/-- A graph has gone on from another one: the components of rules have kept their labels, and their
children unless new ones come about right there. -/
structure Onward (p? : Option ComponentId) (g g' : Graph) : Prop where
  arranged : g'.Arranged
  label_eq : ∀ id label, g.labelOf? id = some label → g'.labelOf? id = some label
  childIds_eq : ∀ id, g.IsInner id → some id ≠ p? → g'.childIds (some id) = g.childIds (some id)

namespace Onward

variable {p? : Option ComponentId}

theorem refl (h : g.Arranged) : Onward p? g g :=
  ⟨h, fun _ _ hlabel => hlabel, fun _ _ _ => rfl⟩

theorem of_none (h : Onward none g g') : Onward p? g g' :=
  ⟨h.arranged, h.label_eq, fun id hid _ => h.childIds_eq id hid nofun⟩

theorem isInner (h : Onward p? g g') {id : ComponentId} (hid : g.IsInner id) : g'.IsInner id := by
  obtain ⟨label, hne, hlabel⟩ := hid
  exact ⟨label, hne, h.label_eq id label hlabel⟩

theorem trans (h : Onward p? g g') (h' : Onward p? g' g'') : Onward p? g g'' where
  arranged := h'.arranged
  label_eq id label hlabel := h'.label_eq id label (h.label_eq id label hlabel)
  childIds_eq id hid hne :=
    (h'.childIds_eq id (h.isInner hid) hne).trans (h.childIds_eq id hid hne)

/-- What happens below a new component changes no older one. -/
theorem trans_new {parent : Option ComponentId} {kind : Kind}
    (hadd : Onward p? g (g.add parent kind))
    (h : Onward (some g.nextId) (g.add parent kind) g') : Onward p? g g' where
  arranged := h.arranged
  label_eq id label hlabel := h.label_eq id label (hadd.label_eq id label hlabel)
  childIds_eq id hid hne := by
    have hold : id ≠ g.nextId := Nat.ne_of_lt (Nat.lt_succ_of_le hid.le_size)
    have hlater : some id ≠ some g.nextId := fun heq => hold (Option.some.inj heq)
    rw [h.childIds_eq id (hadd.isInner hid) hlater, hadd.childIds_eq id hid hne]

/-- Away from where new children come about, nothing has changed inside rules. -/
theorem agrees (h : Onward p? g g') {id : ComponentId} (hid : g.IsInner id) (hne : some id ≠ p?) :
    g'.labelOf? id = g.labelOf? id ∧ g'.childIds (some id) = g.childIds (some id) := by
  refine ⟨?_, h.childIds_eq id hid hne⟩
  obtain ⟨label, -, hlabel⟩ := hid
  rw [hlabel, h.label_eq id label hlabel]

theorem showsAll_of_lt (h : Onward (some p) g g') (harranged : g.Arranged) {ids : List ComponentId}
    (hids : ∀ id ∈ ids, p < id) (hshows : g.ShowsAll ts ids) : g'.ShowsAll ts ids := by
  refine hshows.of_agrees harranged (p + 1) (fun i hlo hi => h.agrees hi ?_) ts ids hids
  rintro ⟨⟩
  exact Nat.lt_irrefl p hlo

theorem shows (h : Onward none g g') (harranged : g.Arranged) {t : Outline} {id : ComponentId}
    (hshows : g.Shows t id) : g'.Shows t id :=
  hshows.of_agrees harranged 0 (fun _ _ hi => h.agrees hi nofun) t id (Nat.zero_le id)

theorem showsAll (h : Onward none g g') (harranged : g.Arranged) {ids : List ComponentId}
    (hshows : g.ShowsAll ts ids) : g'.ShowsAll ts ids :=
  hshows.of_agrees harranged 0 (fun _ _ hi => h.agrees hi nofun) ts ids fun id _ => Nat.zero_le id

theorem add (h : g.Arranged) {parent : Option ComponentId} (kind : Kind)
    (hle : ∀ id, parent = some id → id ≤ g.size)
    (hparent : ∀ id, g.IsInner id → some id ≠ p? → some id ≠ parent) :
    Onward p? g (g.add parent kind) where
  arranged := h.add kind hle
  label_eq id label hlabel := by
    rw [labelOf?_add_of_le _ _ (le_size_of_labelOf? hlabel)]
    exact hlabel
  childIds_eq id hid hne := by rw [childIds_add, if_neg (hparent id hid hne), List.append_nil]

theorem add_child (h : g.Arranged) (hp : g.IsInner p) (kind : Kind) :
    Onward (some p) g (g.add (some p) kind) :=
  add h kind (fun _ hid => Option.some.inj hid ▸ hp.le_size) fun _ _ hne => hne

theorem add_shared (h : g.Arranged) {parent : Option ComponentId} (kind : Kind)
    (hparent : ∀ id, parent = some id → g.labelOf? id = some .shared) :
    Onward p? g (g.add parent kind) :=
  add h kind (fun id hid => le_size_of_labelOf? (hparent id hid)) fun id hid _ heq =>
    hid.ne_of_shared (hparent id heq.symm) rfl

theorem modify (h : g.Arranged) (id : ComponentId) {change : Kind → Kind}
    (hkey : ∀ k, (change k).key? = k.key?) (hlabel : ∀ k, (change k).label = k.label) :
    Onward p? g (g.modify id change) where
  arranged := h.modify id hkey
  label_eq other label hother := by rw [labelOf?_modify g id hlabel, hother]
  childIds_eq other _ _ := childIds_modify g id change _

theorem of_eq (h : g.Arranged) (hcomponents : g'.components = g.components)
    (hchild : g'.childTable = g.childTable) (hkey : g'.keyTable = g.keyTable) :
    Onward p? g g' := by
  obtain ⟨components, _, _, _, childTable, keyTable, _⟩ := g'
  subst hcomponents hchild hkey
  exact ⟨h.of_eq rfl rfl rfl, fun _ _ hlabel => hlabel, fun _ _ _ => rfl⟩

end Onward

/-! ## Outlines below one component -/

/-- New outlines have come about below a component, behind its older children, and no rules. -/
structure Grows (p : ComponentId) (g g' : Graph) (ts : List Outline) : Prop
    extends Onward (some p) g g' where
  drawn : ∃ ids, g'.childIds (some p) = g.childIds (some p) ++ ids ∧ g'.ShowsAll ts ids
  rules_eq : g'.rules = g.rules

namespace Grows

theorem of_onward (h : Onward none g g') (hp : g.IsInner p) (hrules : g'.rules = g.rules) :
    Grows p g g' [] where
  toOnward := h.of_none
  drawn := ⟨[], by rw [h.childIds_eq p hp nofun, List.append_nil], by rw [ShowsAll]⟩
  rules_eq := hrules

/-- **What comes about later stands behind.** -/
theorem trans (h : Grows p g g' ts) (h' : Grows p g' g'' ts') : Grows p g g'' (ts ++ ts') where
  toOnward := h.toOnward.trans h'.toOnward
  drawn := by
    obtain ⟨ids, hids, hshows⟩ := h.drawn
    obtain ⟨ids', hids', hshows'⟩ := h'.drawn
    refine ⟨ids ++ ids', by rw [hids', hids, List.append_assoc], showsAll_append ?_ hshows'⟩
    -- the first outlines stand below children of `p`, which are younger than `p`
    refine h'.toOnward.showsAll_of_lt h.arranged (fun id hid => ?_) hshows
    exact h.arranged.lt_of_mem p id (hids ▸ List.mem_append_right _ hid)
  rules_eq := h'.rules_eq.trans h.rules_eq

theorem shows {parent : Option ComponentId} {kind : Kind}
    (h : Grows g.nextId (g.add parent kind) g' ts) (harranged : g.Arranged)
    (hparent : some g.nextId ≠ parent) (hlabel : kind.label ≠ .shared) :
    g'.Shows (.node kind.label ts) g.nextId := by
  obtain ⟨ids, hids, hshows⟩ := h.drawn
  have hnone : (g.add parent kind).childIds (some g.nextId) = [] := by
    rw [childIds_add, if_neg hparent, List.append_nil]
    exact harranged.childIds_of_size_le (Nat.le_succ _)
  rw [hnone, List.nil_append] at hids
  rw [Shows, hids]
  exact ⟨h.label_eq _ _ (labelOf?_add_nextId g _ kind), hlabel, hshows⟩

/-- **What has come about below a new component is a node.** -/
theorem node (harranged : g.Arranged) (hp : g.IsInner p) {kind : Kind}
    (hlabel : kind.label ≠ .shared) (hrule : kind.logged? ≠ some .rule)
    (h : Grows g.nextId (g.add (some p) kind) g' ts) :
    Grows p g g' [.node kind.label ts] := by
  have hadd := Onward.add_child harranged hp kind
  have hne : some p ≠ some g.nextId := fun heq =>
    Nat.ne_of_lt (Nat.lt_succ_of_le hp.le_size) (Option.some.inj heq)
  refine ⟨hadd.trans_new h.toOnward, ⟨[g.nextId], ?_, ?_⟩, ?_⟩
  · rw [h.childIds_eq p (hadd.isInner hp) hne, childIds_add, if_pos rfl]
  · rw [ShowsAll]
    exact ⟨g.nextId, [], rfl, h.shows harranged hne.symm hlabel, by rw [ShowsAll]⟩
  · rw [h.rules_eq, rules_add_of_ne _ _ hrule]

end Grows

/-- A graph in which outlines can come about below a component: it belongs to a rule, and the given
classes do not. -/
structure Ready (p : ComponentId) (classes : List ComponentId) (g : Graph) : Prop where
  arranged : g.Arranged
  isInner : g.IsInner p
  shared : ∀ id ∈ classes, g.labelOf? id = some .shared

namespace Ready

variable {classes : List ComponentId}

theorem of_onward {p? : Option ComponentId} (h : Ready p classes g) (honward : Onward p? g g') :
    Ready p classes g' where
  arranged := honward.arranged
  isInner := honward.isInner h.isInner
  shared id hid := honward.label_eq id _ (h.shared id hid)

theorem new {p? parent : Option ComponentId} {kind : Kind} (h : Onward p? g (g.add parent kind))
    (hshared : ∀ id ∈ classes, g.labelOf? id = some .shared) (hlabel : kind.label ≠ .shared) :
    Ready g.nextId classes (g.add parent kind) where
  arranged := h.arranged
  isInner := ⟨_, hlabel, labelOf?_add_nextId g parent kind⟩
  shared id hid := h.label_eq id _ (hshared id hid)

end Ready

/-! ## Walks -/

/-- A walk that succeeds draws outlines below a component, behind its older children. -/
def Draws {α : Type} (p : ComponentId) (classes : List ComponentId) (x : Walk α)
    (ts : List Outline) : Prop :=
  ∀ s a s', Ready p classes s.graph → x s = .ok a s' → Grows p s.graph s'.graph ts

variable {α β : Type} {classes : List ComponentId} {x : Walk α} {k : α → Walk β}

/-- **A sequence draws one list behind the other.** -/
theorem draws_bind (hx : Draws p classes x ts) (hk : ∀ a, Draws p classes (k a) ts') :
    Draws p classes (x >>= k) (ts ++ ts') := by
  intro s b s'' hready hrun
  obtain ⟨a, s', hfirst, hsecond⟩ := bind_eq_ok hrun
  have hgrows := hx s a s' hready hfirst
  exact hgrows.trans (hk a s' b s'' (hready.of_onward hgrows.toOnward) hsecond)

/-- What is known of the result of the first part can be used in the second one. -/
theorem draws_value_bind {P : α → Prop} (hx : Draws p classes x [])
    (hvalue : ∀ s a s', x s = .ok a s' → P a) (hk : ∀ a, P a → Draws p classes (k a) ts) :
    Draws p classes (x >>= k) ts := by
  intro s b s'' hready hrun
  obtain ⟨a, s', hfirst, hsecond⟩ := bind_eq_ok hrun
  have hgrows := hx s a s' hready hfirst
  have hlater := hk a (hvalue s a s' hfirst) s' b s'' (hready.of_onward hgrows.toOnward) hsecond
  exact hgrows.trans hlater

theorem draws_silent_bind (hx : Draws p classes x []) (hk : ∀ a, Draws p classes (k a) ts) :
    Draws p classes (x >>= k) ts :=
  draws_bind hx hk

theorem draws_bind_silent (hx : Draws p classes x ts) (hk : ∀ a, Draws p classes (k a) []) :
    Draws p classes (x >>= k) ts := by
  have hboth := draws_bind hx hk
  rwa [List.append_nil] at hboth

/-! ### Steps that draw nothing -/

theorem draws_of_graph_eq (h : ∀ s a s', x s = .ok a s' → s'.graph = s.graph) :
    Draws p classes x [] := by
  intro s a s' hready hrun
  rw [h s a s' hrun]
  exact .of_onward (.refl hready.arranged) hready.isInner rfl

theorem draws_pure (a : α) : Draws p classes (pure a) [] :=
  draws_of_graph_eq fun _ _ _ hrun => by cases hrun; rfl

theorem draws_inScopes (rule : RuleSite) (step : Scoping α) :
    Draws p classes (inScopes rule step) [] :=
  draws_of_graph_eq fun _ _ _ hrun => by
    obtain ⟨scopes, -, rfl⟩ := inScopes_eq_ok hrun
    rfl

theorem draws_underQuantifier (q : Quantifier) : Draws p classes (underQuantifier q) [] :=
  draws_of_graph_eq fun _ _ _ hrun => by rw [(underQuantifier_eq_ok hrun).2]

theorem draws_orFail_bind {rule : RuleSite} {fault : Fault} {o : Option α}
    (hk : ∀ a, o = some a → Draws p classes (k a) ts) :
    Draws p classes (orFail rule fault o >>= k) ts := by
  refine draws_value_bind (draws_of_graph_eq fun _ _ _ hrun => ?_) (fun s a s' hrun => ?_) hk
  · rw [(orFail_eq_ok hrun).2]
  · exact (orFail_eq_ok hrun).1

theorem draws_descend_bind {limits : Limits} {site : Site} {k : Site → Walk β}
    (hk : ∀ depth, Draws p classes (k { site with depth }) ts) :
    Draws p classes (descend limits site >>= k) ts := by
  refine draws_value_bind (draws_of_graph_eq fun _ _ _ hrun => ?_)
    (fun s a s' hrun => (descend_eq_ok hrun).1) ?_
  · rw [(descend_eq_ok hrun).2]
  · rintro _ ⟨depth, rfl⟩
    exact hk depth

theorem draws_modify (id : ComponentId) {change : Kind → Kind} (hkeeping : Keeping change)
    (hlabel : ∀ k, (change k).label = k.label) : Draws p classes (modify id change) [] := by
  intro s a s' hready hrun
  cases hrun
  exact .of_onward (.modify hready.arranged id hkeeping.key?_eq hlabel) hready.isInner
    (rules_modify s.graph id hkeeping.logged?_eq)

theorem draws_keepPatternPossibilities (rule pattern : ComponentId)
    (possibilities : List (List ComponentId)) :
    Draws p classes (keepPatternPossibilities rule pattern possibilities) [] := by
  intro s a s' hready hrun
  cases hrun
  exact .of_onward (.of_eq hready.arranged rfl rfl rfl) hready.isInner rfl

theorem draws_keepRulePossibilities (rule : ComponentId)
    (possibilities : List (List PossibilityId)) :
    Draws p classes (keepRulePossibilities rule possibilities) [] := by
  intro s a s' hready hrun
  cases hrun
  exact .of_onward (.of_eq hready.arranged rfl rfl rfl) hready.isInner rfl

/-! ### Nodes and scopes -/

/-- **What is drawn below a new component becomes a node.** -/
theorem draws_node_bind {kind : Kind} {k : ComponentId → Walk β} (hlabel : kind.label ≠ .shared)
    (hrule : kind.logged? ≠ some .rule) (hk : ∀ id, Draws id classes (k id) ts) :
    Draws p classes (add (some p) kind >>= k) [.node kind.label ts] := by
  intro s b s' hready hrun
  obtain ⟨id, s₁, hadd, hrest⟩ := bind_eq_ok hrun
  obtain ⟨rfl, rfl⟩ := add_eq_ok hadd
  have honward := Onward.add_child hready.arranged hready.isInner kind
  exact .node hready.arranged hready.isInner hlabel hrule
    (hk _ _ b s' (.new honward hready.shared hlabel) hrest)

theorem draws_within {limits : Limits} {rule : RuleSite} {scope : Scope} {body : Walk Unit}
    (hbody : Draws p classes body ts) : Draws p classes (within limits rule scope body) ts := by
  intro s closed s' hready hrun
  obtain ⟨frame, s₁, -, hinside, scopes, -, rfl⟩ := within_eq_ok hrun
  exact hbody { s with scopes := frame :: s.scopes } () s₁ hready hinside

/-! ### Components that rules share -/

theorem draws_add_shared {parent : Option ComponentId} {kind : Kind}
    (hrule : kind.logged? ≠ some .rule) (hparent : ∀ id, parent = some id → id ∈ classes) :
    Draws p classes (add parent kind) [] := by
  intro s a s' hready hrun
  cases hrun
  have hshared : ∀ id, parent = some id → s.graph.labelOf? id = some .shared :=
    fun id hid => hready.shared id (hparent id hid)
  refine .of_onward (.add_shared hready.arranged kind hshared) hready.isInner ?_
  exact rules_add_of_ne s.graph parent hrule

theorem label_onField (change : Field → Field) (k : Kind) : (onField change k).label = k.label := by
  cases k <;> rfl

theorem onward_findOrAdd {key : Key} {kind : Kind} {s s' : State} {id : ComponentId}
    (harranged : s.graph.Arranged) (hkey : ∀ k : Kind, k.key? = some key → k.label = .shared)
    (hlabel : kind.label = .shared) (hrule : kind.logged? ≠ some .rule)
    (hrun : findOrAdd (·.keyTable.find? key) none kind s = .ok id s') :
    Onward none s.graph s'.graph ∧ s'.graph.rules = s.graph.rules ∧
      s'.graph.labelOf? id = some .shared := by
  obtain ⟨hfind, rfl⟩ | ⟨-, rfl, rfl⟩ := findOrAdd_eq_ok hrun
  · obtain ⟨c, hc, hckey⟩ := harranged.key?_eq key _ hfind
    exact ⟨.refl harranged, rfl, by rw [labelOf?, hc, Option.map_some, hkey c.kind hckey]⟩
  · refine ⟨.add_shared harranged kind (by rintro _ ⟨⟩), rules_add_of_ne s.graph none hrule, ?_⟩
    exact (labelOf?_add_nextId s.graph none kind).trans (by rw [hlabel])

theorem draws_classFor_bind {name : String} {k : ComponentId → Walk β}
    (hk : ∀ id, Draws p (id :: classes) (k id) ts) :
    Draws p classes (classFor name >>= k) ts := by
  intro s b s' hready hrun
  obtain ⟨id, s₁, hclass, hrest⟩ := bind_eq_ok hrun
  have hkey : ∀ k : Kind, k.key? = some (.factClass name) → k.label = .shared := by
    intro k hk
    cases k <;> simp [Kind.key?, Kind.label] at hk ⊢
  have hrule : (Kind.factClass name).logged? ≠ some .rule := by rintro ⟨⟩
  obtain ⟨honward, hrules, hshared⟩ := onward_findOrAdd hready.arranged hkey rfl hrule hclass
  have hready' := hready.of_onward honward
  refine (Grows.of_onward honward hready.isInner hrules).trans (hk id s₁ b s' ?_ hrest)
  exact ⟨hready'.arranged, hready'.isInner, List.forall_mem_cons.mpr ⟨hshared, hready'.shared⟩⟩

theorem draws_fieldFor {pattern : PatternSite} (hclass : pattern.factClass ∈ classes)
    (name : String) (line : Nat) : Draws p classes (fieldFor pattern name line) [] := by
  have hadd : ∀ kind : Kind, kind.logged? ≠ some .rule →
      Draws p classes (add (some pattern.factClass) kind) [] := fun kind hrule =>
    draws_add_shared hrule fun id hid => by cases hid; exact hclass
  refine draws_silent_bind (draws_of_graph_eq fun _ _ _ hrun => by cases hrun; rfl) fun found => ?_
  cases found with
  | none => exact hadd _ nofun
  | some id =>
    change Draws p classes (if line ≠ 0 then modify id (onField (Field.mention line)) >>=
      fun _ => pure id else pure id) []
    split
    · exact draws_silent_bind (draws_modify id (keeping_mention line) (label_onField _))
        fun _ => draws_pure id
    · exact draws_pure id

end RuleBase.Analysis

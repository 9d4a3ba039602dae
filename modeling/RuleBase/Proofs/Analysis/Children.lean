import RuleBase.Proofs.Analysis.Drawn
import RuleBase.Proofs.Analysis.Parts

/-!
# What is filled in

Some components are filled in once what is below them has come about: a source with its input or
with what supplies it, a pattern with its source. What has come about below a component is what its
outlines show, so there are no other children that could have been meant.

* `Adds`: a reference leads to a new child; **`childIds_of_adds`**: to the only new one;
* `Surrounds`, `Sourced`, **`finished_of_parts`**: a pattern with its variable, its source and its
  constraints.
-/

namespace RuleBase

open RuleBase.Graph Condition

namespace Graph

variable {g g' : Graph} {p : ComponentId}

/-! ## Children -/

/-- A reference leads to a new child of a component. -/
structure Adds (p : ComponentId) (g g' : Graph) (r : Reference) : Prop where
  size_lt : g.size < r.id
  parentOf?_eq : g'.parentOf? r.id = some p
  leads : r.LeadsIn g'

theorem Adds.keep {g'' : Graph} {r : Reference} (h : Adds p g g' r) (hkept : Kept g' g'') :
    Adds p g g'' r :=
  ⟨h.size_lt, hkept.parentOf? h.parentOf?_eq, hkept.typeOf? h.leads⟩

theorem Adds.mem_childIds {r : Reference} (h : Adds p g g' r) (hsound : g'.Sound) :
    r.id ∈ g'.childIds (some p) := by
  obtain ⟨c, hc, hparent⟩ := Option.bind_eq_some_iff.mp h.parentOf?_eq
  exact hsound.mem_childIds_iff.mpr ⟨c, hc, hparent⟩

theorem Kept.size_le (h : Kept g g') : g.size ≤ g'.size := by
  cases hsize : g.size with
  | zero => exact Nat.zero_le _
  | succ n =>
    have hlt : n < g.components.length := Nat.lt_of_succ_le (Nat.le_of_eq hsize.symm)
    obtain ⟨c, hc, -⟩ := h (n + 1) _ (List.getElem?_eq_getElem hlt)
    exact le_size_of_get? hc

/-- A label of a source. -/
def Label.IsSource (label : Label) : Prop :=
  (∃ code, label = .accumulate code) ∨ (∃ method, label = .collect method) ∨ label = .supply

theorem Kind.isSource_label {k : Kind} (h : k.type.IsSource) : k.label.IsSource := by
  cases k <;> simp [Kind.type, ComponentType.IsSource] at h <;>
    simp [Kind.label, Label.IsSource]

/-- What stands at the top of an outline. -/
def Outline.label : Outline → Label
  | .node label _ => label

/-- Some components are no sources. -/
def NoSources (g : Graph) (ids : List ComponentId) : Prop :=
  ∀ id ∈ ids, ∃ type, g.typeOf? id = some type ∧ ¬type.IsSource

theorem NoSources.keep {ids : List ComponentId} (h : g.NoSources ids) (hkept : Kept g g') :
    g'.NoSources ids := by
  intro id hid
  obtain ⟨type, htype, hnot⟩ := h id hid
  exact ⟨type, hkept.typeOf? htype, hnot⟩

theorem ShowsAll.noSources {ts : List Outline} {ids : List ComponentId} (h : g.ShowsAll ts ids)
    (hts : ∀ t ∈ ts, ¬t.label.IsSource) : g.NoSources ids := by
  induction ts generalizing ids with
  | nil =>
    rw [ShowsAll] at h
    subst h
    exact List.forall_mem_nil _
  | cons t ts ih =>
    rw [ShowsAll] at h
    obtain ⟨id, rest, rfl, hfirst, hrest⟩ := h
    obtain ⟨hlabel, hlater⟩ := List.forall_mem_cons.mp hts
    refine List.forall_mem_cons.mpr ⟨?_, ih hrest hlater⟩
    obtain ⟨label, children⟩ := t
    rw [Shows] at hfirst
    obtain ⟨c, hc, rfl⟩ := Option.map_eq_some_iff.mp hfirst.1
    exact ⟨c.kind.type, congrArg _ hc, fun hsource => hlabel (Kind.isSource_label hsource)⟩

/-- A pattern is finished if its source is the only one among its children. -/
theorem finished_pattern {k : Pattern} {id : ComponentId} {before after : List ComponentId}
    (hchildren : g.childIds (some id) = before ++ (k.source.map (·.id)).toList ++ after)
    (hbefore : g.NoSources before) (hafter : g.NoSources after)
    (hsource : ∀ r, k.source = some r → r.LeadsIn g ∧ r.type.IsSource) :
    (Kind.pattern k).Finished g id := by
  have hother : ∀ ids, g.NoSources ids → ∀ r : Reference, r.id ∈ ids → r.LeadsIn g →
      ¬r.type.IsSource := by
    intro ids hids r hr hleads
    obtain ⟨type, htype, hnot⟩ := hids r.id hr
    rwa [Option.some.inj (hleads.symm.trans htype)]
  intro source
  rw [hchildren]
  constructor
  · intro hk
    refine ⟨?_, hsource source hk⟩
    simp [hk]
  · rintro ⟨hmem, hleads, htype⟩
    obtain hmem | hmem := List.mem_append.mp hmem
    · obtain hmem | hmem := List.mem_append.mp hmem
      · exact absurd htype (hother _ hbefore _ hmem hleads)
      · rw [Option.mem_toList] at hmem
        obtain ⟨r, hr, hid⟩ := Option.map_eq_some_iff.mp hmem
        have hleads' : g.typeOf? r.id = some r.type := (hsource r hr).1
        have hsame : some source.type = some r.type := by rw [← hleads', hid]; exact hleads.symm
        obtain ⟨id, type⟩ := source
        obtain ⟨rid, rtype⟩ := r
        obtain rfl := Option.some.inj hsame
        obtain rfl : rid = id := hid
        exact hr
    · exact absurd htype (hother _ hafter _ hmem hleads)

end Graph

namespace Analysis

/-- **A reference to a new child leads to the only new one**, if there is not more than one. -/
theorem childIds_of_adds {g g' : Graph} {p : ComponentId} {ts : List Outline}
    {reference : Option Reference} (hgrows : Grows p g g' ts) (hsound : g.Sound)
    (hlength : ts.length ≤ 1) (hnone : reference = none → ts = [])
    (hsome : ∀ r, reference = some r → Adds p g g' r) :
    g'.childIds (some p) = g.childIds (some p) ++ (reference.map (·.id)).toList := by
  obtain ⟨ids, hids, hshows⟩ := hgrows.drawn
  rw [hids]
  refine congrArg _ ?_
  cases reference with
  | none =>
    rw [hnone rfl, ShowsAll] at hshows
    exact hshows
  | some r =>
    have hadds := hsome r rfl
    have hmem := hadds.mem_childIds hgrows.arranged.toSound
    rw [hids] at hmem
    obtain hold | hnew := List.mem_append.mp hmem
    · exact absurd (hsound.le_size_of_mem_childIds hold) (Nat.not_le.mpr hadds.size_lt)
    · match ts, ids, hshows, hlength with
      | [], ids, hshows, _ =>
        rw [ShowsAll] at hshows
        subst hshows
        cases hnew
      | [t], ids, hshows, _ =>
        rw [ShowsAll] at hshows
        obtain ⟨id, rest, rfl, -, hrest⟩ := hshows
        rw [ShowsAll] at hrest
        subst hrest
        obtain hid := List.mem_singleton.mp hnew
        simp [hid]

/-! ## Outlines of elements -/

mutual
theorem not_isSource_outlines (rule : String) (e : Ast.Element) :
    ∀ t ∈ e.outlines rule, ¬t.label.IsSource := by
  cases e with
  | quantified q elements =>
    rw [Ast.Element.outlines]
    exact not_isSource_flatten rule elements
  | pattern p =>
    obtain ⟨objectType, identifier, source, constraints, line⟩ := p
    rw [Ast.Element.outlines, Ast.Pattern.outline.eq_def]
    simp [Outline.label, Label.IsSource]
  | _ =>
    rw [Ast.Element.outlines]
    simp [Outline.label, Label.IsSource]

theorem not_isSource_flatten (rule : String) (es : List Ast.Element) :
    ∀ t ∈ (es.map (Ast.Element.outlines rule)).flatten, ¬t.label.IsSource := by
  cases es with
  | nil => exact nofun
  | cons e rest =>
    rw [List.map_cons, List.flatten_cons]
    exact List.forall_mem_append.mpr
      ⟨not_isSource_outlines rule e, not_isSource_flatten rule rest⟩
end

/-! ## Invokers -/

variable {s s' : State} {p : ComponentId}

theorem adds_add (g : Graph) (p : ComponentId) (kind : Kind) :
    Adds p g (g.add (some p) kind) ⟨g.nextId, kind.type⟩ where
  size_lt := Nat.lt_succ_self _
  parentOf?_eq := (made_add g (some p) kind).parentOf?
  leads := (made_add g (some p) kind).typeOf?

theorem adds_addTyped {kind : Kind} {reference : Option Reference}
    (hrun : addTyped p kind s = .ok reference s') :
    ∃ r, reference = some r ∧ Adds p s.graph s'.graph r := by
  obtain ⟨id, s₁, hadd, hdone⟩ := bind_eq_ok hrun
  obtain ⟨rfl, rfl⟩ := add_eq_ok hadd
  cases hdone
  exact ⟨_, rfl, adds_add _ p kind⟩

theorem length_outlines_invoker (i : Ast.Invoker) : i.outlines.length ≤ 1 := by
  cases i <;> simp [Ast.Invoker.outlines]

theorem adds_lowerInvoker {limits : Limits} {site : Site} {i : Ast.Invoker}
    {reference : Option Reference} (harranged : s.graph.Arranged)
    (hrule : ∃ rule, s.graph.Nearest .rule p rule)
    (hrun : lowerInvoker limits site p i s = .ok reference s') :
    (reference = none → i.outlines = []) ∧
      ∀ r, reference = some r → Adds p s.graph s'.graph r := by
  have hknown : ∀ {ts : List Outline}, (∃ r, reference = some r ∧ Adds p s.graph s'.graph r) →
      (reference = none → ts = []) ∧ ∀ r, reference = some r → Adds p s.graph s'.graph r := by
    rintro ts ⟨r, rfl, hadds⟩
    exact ⟨by rintro ⟨⟩, by rintro _ ⟨⟩; exact hadds⟩
  cases i with
  | unknown =>
    rw [lowerInvoker] at hrun
    cases hrun
    exact ⟨fun _ => by rw [Ast.Invoker.outlines], by rintro _ ⟨⟩⟩
  | accessor name invokers =>
    rw [lowerInvoker] at hrun
    obtain ⟨site', s₁, hdescend, hrun₁⟩ := bind_eq_ok hrun
    obtain ⟨-, rfl⟩ := descend_eq_ok hdescend
    obtain ⟨id, s₂, hadd, hrun₂⟩ := bind_eq_ok hrun₁
    obtain ⟨rfl, rfl⟩ := add_eq_ok hadd
    obtain ⟨u, s₃, hinvokers, hdone⟩ := bind_eq_ok hrun₂
    cases hdone
    obtain ⟨rule, hrule⟩ := hrule
    have hsuits : Suits s₁.graph (some p) (.accessor name) :=
      suits_in_rule hrule rfl (by rintro ⟨⟩) (by rintro ⟨⟩) fun _ _ _ h => h
    have hmade := made_add s₁.graph (some p) (.accessor name)
    have hwoven := weaves_lowerInvokers limits site' _ invokers _ _ _
      (harranged.add (.accessor name) hsuits.parent_le)
      ⟨rule, hmade.nearest (hrule.keep (kept_add _ _ _)) (by rintro ⟨⟩)⟩ hinvokers
    exact hknown ⟨_, rfl, (adds_add s₁.graph p (.accessor name)).keep hwoven.moves.kept⟩
  | _ =>
    rw [lowerInvoker] at hrun
    exact hknown (adds_addTyped hrun)

/-! ## Sources and patterns -/

variable {limits : Limits}

/-- The classes that a walk knows. -/
def classesOf (pattern? : Option PatternSite) : List ComponentId :=
  (pattern?.map (·.factClass)).toList

theorem sharesIn_classesOf (site : Site) : site.SharesIn (classesOf site.pattern?) := by
  intro q hq
  simp [classesOf, hq]

theorem isInner_of_typeOf? {g : Graph} {id : ComponentId} {type : ComponentType}
    (htype : g.typeOf? id = some type) (hpackage : type ≠ .package) (hclass : type ≠ .factClass)
    (hfield : type ≠ .field) : g.IsInner id := by
  obtain ⟨c, hc, rfl⟩ := Option.map_eq_some_iff.mp htype
  refine ⟨c.kind.label, ?_, by rw [labelOf?, hc]; rfl⟩
  obtain ⟨cid, parent, place, kind⟩ := c
  cases kind <;> simp_all [Kind.type, Kind.label]

theorem RuleSite.Knows.ready {rule : RuleSite} {pattern? : Option PatternSite} {g : Graph}
    (h : rule.Knows pattern? p g) (harranged : g.Arranged) {id : ComponentId}
    (hid : g.IsInner id) : Ready id (classesOf pattern?) g where
  arranged := harranged
  isInner := hid
  shared other hother := by
    rw [classesOf, Option.mem_toList] at hother
    obtain ⟨q, hq, rfl⟩ := Option.map_eq_some_iff.mp hother
    obtain ⟨c, hc, hname⟩ := Option.bind_eq_some_iff.mp (h.known q hq).className_eq
    rw [labelOf?, hc]
    obtain ⟨cid, parent, place, kind⟩ := c
    cases kind <;> first | rfl | cases hname

theorem RuleSite.StandsAt.isInner {rule : RuleSite} {q : PatternSite} {g : Graph}
    (h : rule.StandsAt (some q) q.id g) : g.IsInner q.id :=
  isInner_of_typeOf? (h.nearest q rfl).typeOf?_eq nofun nofun nofun

theorem childIds_add_nextId {g : Graph} (harranged : g.Arranged) {kind : Kind} (hp : p ≤ g.size) :
    (g.add (some p) kind).childIds (some g.nextId) = [] := by
  have hne : some g.nextId ≠ some p := fun heq =>
    Nat.not_succ_le_self _ ((Option.some.inj heq).symm ▸ hp)
  rw [childIds_add, if_neg hne, List.append_nil]
  exact harranged.childIds_of_size_le (Nat.le_succ _)

theorem fills_attach {id : ComponentId} {c : Component} {change : Option Reference → Kind → Kind}
    {reference : Option Reference} (hchange : ∀ reference, Change (change reference))
    (hget : s.graph.get? id = some c) (hnone : change none c.kind = c.kind)
    (hrun : attach id change reference s = .ok () s') :
    Fills id s.graph s'.graph ∧
      s'.graph.get? id = some { c with kind := change reference c.kind } := by
  cases reference with
  | none =>
    cases hrun
    exact ⟨.inl rfl, by rw [hget, hnone]⟩
  | some r =>
    cases hrun
    refine ⟨.inr ⟨_, hchange (some r), rfl⟩, ?_⟩
    rw [get?_modify_of_some hget, if_pos rfl]

theorem Fills.childIds_eq {id : ComponentId} {g g' : Graph} (h : Fills id g g')
    (parent : Option ComponentId) : g'.childIds parent = g.childIds parent := by
  obtain rfl | ⟨change, -, rfl⟩ := h
  · rfl
  · exact childIds_modify g id change parent

/-! ### The parts of a pattern -/

/-- What the walk through a pattern has woven in besides its source. -/
structure Surrounds (q : ComponentId) (g g' : Graph) : Prop where
  woven : Woven (some q) g g'
  grown : ∃ ids, g'.childIds (some q) = g.childIds (some q) ++ ids ∧ g'.NoSources ids

theorem Surrounds.of_grows {q : ComponentId} {g g' : Graph} {ts : List Outline}
    (hwoven : Woven (some q) g g') (hgrows : Grows q g g' ts)
    (hts : ∀ t ∈ ts, ¬t.label.IsSource) : Surrounds q g g' := by
  obtain ⟨ids, hids, hshows⟩ := hgrows.drawn
  exact ⟨hwoven, ids, hids, hshows.noSources hts⟩

theorem Surrounds.trans {q : ComponentId} {g g' g'' : Graph} (h : Surrounds q g g')
    (h' : Surrounds q g' g'') : Surrounds q g g'' := by
  obtain ⟨hwoven, ids, hids, hnone⟩ := h
  obtain ⟨hwoven', ids', hids', hnone'⟩ := h'
  refine ⟨hwoven.trans hwoven', ids ++ ids', by rw [hids', hids, List.append_assoc], ?_⟩
  exact List.forall_mem_append.mpr ⟨hnone.keep hwoven'.moves.kept, hnone'⟩

/-- What a source has woven in: nothing, or a child of the pattern that the reference leads to. -/
structure Sourced (p : ComponentId) (ts : List Outline) (g g' : Graph)
    (reference : Option Reference) : Prop where
  woven : Woven (some p) g g'
  length_le : ts.length ≤ 1
  eq_nil : reference = none → ts = []
  adds : ∀ r, reference = some r → Adds p g g' r ∧ r.type.IsSource

/-- **A pattern is finished** with its variable, its source and its constraints. -/
theorem finished_of_parts {q : ComponentId} {k : Graph.Pattern} {g₁ g₂ g₃ g₄ g₅ : Graph}
    {ts : List Outline} (hempty : g₁.childIds (some q) = []) (hbound : Surrounds q g₁ g₂)
    (hsound : g₂.Sound) (hsourced : Sourced q ts g₂ g₃ k.source) (hdrawn : Grows q g₂ g₃ ts)
    (hfills : Fills q g₃ g₄) (hinside : Surrounds q g₄ g₅) : (Kind.pattern k).Finished g₅ q := by
  obtain ⟨before, hbefore, hnone⟩ := hbound.grown
  obtain ⟨after, hafter, hnone'⟩ := hinside.grown
  rw [hempty, List.nil_append] at hbefore
  have hchildren := childIds_of_adds hdrawn hsound hsourced.length_le hsourced.eq_nil
    fun r hr => (hsourced.adds r hr).1
  have hkept := hfills.moves.kept.trans hinside.woven.moves.kept
  have hnone₅ := hnone.keep (hsourced.woven.moves.kept.trans hkept)
  refine finished_pattern ?_ hnone₅ hnone' fun r hr => ?_
  · rw [hafter, hfills.childIds_eq, hchildren, hbefore]
  · obtain ⟨hadds, htype⟩ := hsourced.adds r hr
    exact ⟨hkept.typeOf? hadds.leads, htype⟩

end Analysis

end RuleBase

import RuleBase.Proofs.Graph.Log
import RuleBase.Proofs.Graph.Outline

/-!
# References between components

Components refer to one another by numbers. Where such a reference should lead follows from where
the component stands: its rule and its pattern are the nearest ones above it, and what else it knows
is what they tell. Some references are filled in once what they lead to has come about; the others
never change.

* `Kind.Fits`, **`Kind.Fits.keep`**: references that agree with what is above a component;
* `Kind.Finished`, `Kind.Finished.keep`: those that are filled in agree with what is below;
* **`Component.FitsIn.above`**: what stands below what.
-/

namespace RuleBase

namespace Graph

/-! ## Places -/

/-- The type of a component. -/
def typeOf? (g : Graph) (id : ComponentId) : Option ComponentType := (g.get? id).map (·.kind.type)

/-- The parent of a component, if it has one. -/
def parentOf? (g : Graph) (id : ComponentId) : Option ComponentId := (g.get? id).bind (·.parent)

/-- The nearest component of a type on the way from a component upwards. -/
inductive Nearest (g : Graph) (type : ComponentType) : ComponentId → ComponentId → Prop where
  | here {id : ComponentId} (h : g.typeOf? id = some type) : Nearest g type id id
  | above {id parent found : ComponentId} (h : g.typeOf? id ≠ some type)
      (hparent : g.parentOf? id = some parent) (hnext : Nearest g type parent found) :
      Nearest g type id found

/-- A component stands in a rule with the given name. -/
structure InRule (g : Graph) (id rule : ComponentId) (name : String) : Prop where
  nearest : g.Nearest .rule id rule
  name_eq : (g.ofKind? Kind.rule? rule).map (·.name) = some name

/-! ## What is above -/

/-- A pattern stands in its rule, and its class is the one that it names. -/
structure Pattern.Fits (p : Pattern) (g : Graph) (id : ComponentId) : Prop where
  inRule : g.InRule id p.rule p.ruleName
  className_eq : g.ofKind? Kind.className? p.factClass = some p.name

/-- A constraint stands in its rule and its pattern, and its field is one of the pattern's class. -/
structure Constraint.Fits (k : Constraint) (g : Graph) (id : ComponentId) : Prop where
  rule : g.Nearest .rule id k.rule
  pattern : g.Nearest .pattern id k.pattern
  agrees : ∃ p f, g.ofKind? Kind.pattern? k.pattern = some p ∧
    g.ofKind? Kind.field? k.field = some f ∧ k.patternIsNot = p.isNot ∧
      f.factClass = p.factClass ∧ f.name = k.fieldName

/-- The variable that an operand refers to, by its number and its name. -/
def Operand.var? : Operand → Option (ComponentId × String)
  | .literal .. => none
  | .var id name => some (id, name)
  | .returnValue .. => none
  | .qualified id name _ => some (id, name)

/-- A restriction stands in its constraint and agrees with it, and a variable that it refers to is
one of its rule. -/
structure Restriction.Fits (r : Restriction) (g : Graph) (id : ComponentId)
    (parent : Option ComponentId) : Prop where
  inRule : g.InRule id r.rule r.ruleName
  parent_eq : parent = some r.constraint
  agrees : ∃ k, g.ofKind? Kind.constraint? r.constraint = some k ∧ r.rule = k.rule ∧
    r.pattern = k.pattern ∧ r.field = k.field ∧ r.patternIsNot = k.patternIsNot
  variable_eq : ∀ other name, r.operand.var? = some (other, name) →
    ∃ v, g.ofKind? Kind.var? other = some v ∧ v.rule = r.rule ∧ v.name = name

/-- A variable stands in its rule. Its object is the class of the pattern that it is bound to, or a
field of the class of the pattern that it stands in, and it names it. -/
structure Variable.Fits (v : Variable) (g : Graph) (id : ComponentId)
    (parent : Option ComponentId) : Prop where
  inRule : g.InRule id v.rule v.ruleName
  object : ∃ pattern p, g.Nearest .pattern id pattern ∧
    g.ofKind? Kind.pattern? pattern = some p ∧
    ((parent = some pattern ∧ v.objectId = some p.factClass ∧ v.objectName = p.name) ∨
      ∃ field f, v.objectId = some field ∧ g.ofKind? Kind.field? field = some f ∧
        f.factClass = p.factClass ∧ f.name = v.objectName)

/-- A variable tells the type of its object, unless it counts as standing for the value of a
field. -/
def Variable.TellsTypeIn (v : Variable) (g : Graph) : Prop :=
  v.objectType = .field ∨ ∃ object, v.objectId = some object ∧ g.typeOf? object = some v.objectType

/-- What a component of some kind knows agrees with what is above it. -/
def Kind.Fits (g : Graph) (id : ComponentId) (parent : Option ComponentId) : Kind → Prop
  | .package _ => parent = none
  | .factClass _ => parent = none
  | .field f => parent = some f.factClass ∧
    g.ofKind? Kind.className? f.factClass = some f.className
  | .rule r => parent = some r.package ∧ g.typeOf? r.package = some .package
  | .consequence q => parent = some q.rule ∧ g.InRule id q.rule q.ruleName
  | .pattern p => p.Fits g id
  | .constraint k => k.Fits g id
  | .restriction r => r.Fits g id parent
  | .var v => v.Fits g id parent
  | .eval e => g.InRule id e.rule e.ruleName
  | .predicate e => g.InRule id e.rule e.ruleName ∧ ∃ pattern, g.Nearest .pattern id pattern
  | .accumulate .. | .collect .. | .supply _ =>
    ∃ pattern, parent = some pattern ∧ g.typeOf? pattern = some .pattern
  | .operator _ | .fieldAccess .. | .methodAccess .. | .functionCall .. | .accessor _ =>
    ∃ rule, g.Nearest .rule id rule

/-- A component agrees with what is above it. -/
def Component.FitsIn (g : Graph) (c : Component) : Prop := c.kind.Fits g c.id c.parent

/-! ## What is below -/

/-- A component is a source of facts. -/
def ComponentType.IsSource (type : ComponentType) : Prop :=
  type = .accumulate ∨ type = .collect ∨ type = .supply

/-- A reference leads to a component of its type. -/
def Reference.LeadsIn (r : Reference) (g : Graph) : Prop := g.typeOf? r.id = some r.type

/-- What a component of some kind knows of its children is filled in. -/
def Kind.Finished (g : Graph) (id : ComponentId) : Kind → Prop
  | .rule r => ∃ last q, r.consequence = some last ∧
    (g.childIds (some id)).getLast? = some last ∧
      g.ofKind? Kind.consequence? last = some q ∧ q.rule = id
  | .pattern p => ∀ source, p.source = some source ↔
    source.id ∈ g.childIds (some id) ∧ source.LeadsIn g ∧ source.type.IsSource
  | .accumulate input _ | .collect input _ => ∃ pattern, input = some pattern ∧
    g.childIds (some id) = [pattern] ∧ g.typeOf? pattern = some .pattern
  | .supply dataSource => (dataSource.map (·.id)).toList = g.childIds (some id) ∧
    ∀ invoker, dataSource = some invoker → invoker.LeadsIn g
  | _ => True

/-- Components of a type know nothing of their children. -/
def ComponentType.isPlain : ComponentType → Bool
  | .rule | .pattern | .accumulate | .collect | .supply => false
  | _ => true

/-- A component agrees with what is below it, if it is there. -/
def FinishedAt (g : Graph) (id : ComponentId) : Prop :=
  ∀ c, g.get? id = some c → c.kind.Finished g id

theorem Kind.finished_of_isPlain {k : Kind} (h : k.type.isPlain = true) (g : Graph)
    (id : ComponentId) : k.Finished g id := by
  cases k <;> trivial

/-! ## What stays -/

/-- What stays of a component of some kind: all but what is filled in or settled later. -/
def Kind.essence : Kind → Kind
  | .rule r => .rule { r with consequence := none }
  | .pattern p => .pattern { p with source := none }
  | .var v => .var { v with objectType := .field }
  | .field f => .field { f with line := 0, fieldType := .unknown }
  | .accumulate _ code => .accumulate none code
  | .collect _ method => .collect none method
  | .supply _ => .supply none
  | other => other

theorem Kind.type_essence (k : Kind) : k.essence.type = k.type := by cases k <;> rfl

theorem Kind.key?_essence (k : Kind) : k.essence.key? = k.key? := by cases k <;> rfl

theorem Kind.logged?_essence (k : Kind) : k.essence.logged? = k.logged? := by cases k <;> rfl

/-- A graph has gone on from another one: its components still have their parents, and are what they
were. -/
def Kept (g g' : Graph) : Prop :=
  ∀ id c, g.get? id = some c →
    ∃ c', g'.get? id = some c' ∧ c'.parent = c.parent ∧ c'.kind.essence = c.kind.essence

theorem kept_refl (g : Graph) : Kept g g := fun _ c hc => ⟨c, hc, rfl, rfl⟩

theorem Kept.trans {g g' g'' : Graph} (h : Kept g g') (h' : Kept g' g'') : Kept g g'' := by
  intro id c hc
  obtain ⟨c', hc', hparent, hessence⟩ := h id c hc
  obtain ⟨c'', hc'', hparent', hessence'⟩ := h' id c' hc'
  exact ⟨c'', hc'', hparent'.trans hparent, hessence'.trans hessence⟩

theorem kept_add (g : Graph) (parent : Option ComponentId) (kind : Kind) :
    Kept g (g.add parent kind) :=
  fun _ c hc => ⟨c, (get?_add_of_le g parent kind (le_size_of_get? hc)).trans hc, rfl, rfl⟩

theorem get?_add_eq_some {g : Graph} {parent : Option ComponentId} {kind : Kind} {id : ComponentId}
    {c : Component} (hc : (g.add parent kind).get? id = some c) :
    g.get? id = some c ∨ id = g.nextId ∧ c = g.newComponent parent kind := by
  obtain hlt | hle := Nat.lt_or_ge g.size id
  · have hid : id ≤ g.size + 1 := size_add g parent kind ▸ le_size_of_get? hc
    obtain rfl : id = g.nextId := Nat.le_antisymm hid hlt
    rw [get?_add_nextId] at hc
    exact .inr ⟨rfl, (Option.some.inj hc).symm⟩
  · rw [get?_add_of_le g parent kind hle] at hc
    exact .inl hc

theorem get?_add_of_ne {g : Graph} {parent : Option ComponentId} {kind : Kind} {id : ComponentId}
    (h : id ≠ g.nextId) : (g.add parent kind).get? id = g.get? id := by
  refine Option.ext fun c => ⟨fun hc => ?_, fun hc => ?_⟩
  · obtain hold | ⟨hnew, -⟩ := get?_add_eq_some hc
    · exact hold
    · exact absurd hnew h
  · exact (get?_add_of_le g parent kind (le_size_of_get? hc)).trans hc

theorem get?_modify_of_some {g : Graph} {other : ComponentId} {c : Component}
    (hc : g.get? other = some c) (id : ComponentId) (change : Kind → Kind) :
    (g.modify id change).get? other =
      some (if id = other then { c with kind := change c.kind } else c) := by
  rw [get?_modify, hc]
  rfl

theorem kept_modify (g : Graph) (id : ComponentId) {change : Kind → Kind}
    (h : ∀ k, (change k).essence = k.essence) : Kept g (g.modify id change) := by
  intro other c hc
  refine ⟨_, get?_modify_of_some hc id change, ?_⟩
  by_cases hid : id = other
  · rw [if_pos hid]
    exact ⟨rfl, h c.kind⟩
  · rw [if_neg hid]
    exact ⟨rfl, rfl⟩

section Keep

variable {g g' : Graph} {id other : ComponentId}

theorem Kept.typeOf? (h : Kept g g') {type : ComponentType} (htype : g.typeOf? id = some type) :
    g'.typeOf? id = some type := by
  obtain ⟨c, hc, rfl⟩ := Option.map_eq_some_iff.mp htype
  obtain ⟨c', hc', -, hessence⟩ := h id c hc
  have hsame : c'.kind.type = c.kind.type := by
    rw [← Kind.type_essence, hessence, Kind.type_essence]
  rw [Graph.typeOf?, hc', ← hsame]
  rfl

theorem Kept.parentOf? (h : Kept g g') {parent : ComponentId}
    (hparent : g.parentOf? id = some parent) : g'.parentOf? id = some parent := by
  obtain ⟨c, hc, hparent⟩ := Option.bind_eq_some_iff.mp hparent
  obtain ⟨c', hc', hsame, -⟩ := h id c hc
  rw [Graph.parentOf?, hc', ← hparent, ← hsame]
  rfl

theorem Nearest.keep (h : Kept g g') {type : ComponentType} (hnear : g.Nearest type id other) :
    g'.Nearest type id other := by
  induction hnear with
  | here htype => exact .here (h.typeOf? htype)
  | @above id parent found htype hparent _ ih =>
    refine .above (fun htype' => htype ?_) (h.parentOf? hparent) ih
    -- a component with a parent is there, so it has kept its type
    obtain ⟨c, hc, -⟩ := Option.bind_eq_some_iff.mp hparent
    have hold : g.typeOf? id = some c.kind.type := congrArg _ hc
    rw [hold, ← h.typeOf? hold, htype']

theorem typeOf?_of_className? {name : String}
    (h : g.ofKind? Kind.className? id = some name) : g.typeOf? id = some .factClass := by
  obtain ⟨⟨cid, parent, place, kind⟩, hc, hname⟩ := Option.bind_eq_some_iff.mp h
  cases kind <;> cases hname
  rw [Graph.typeOf?, hc]
  rfl

theorem typeOf?_of_field? {f : Field} (h : g.ofKind? Kind.field? id = some f) :
    g.typeOf? id = some .field := by
  obtain ⟨⟨cid, parent, place, kind⟩, hc, hf⟩ := Option.bind_eq_some_iff.mp h
  cases kind <;> cases hf
  rw [Graph.typeOf?, hc]
  rfl

theorem Kept.ofKind? (h : Kept g g') {α : Type} {project? : Kind → Option α}
    (hproject : ∀ k : Kind, project? k.essence = project? k) {a : α}
    (ha : g.ofKind? project? id = some a) : g'.ofKind? project? id = some a := by
  obtain ⟨c, hc, ha⟩ := Option.bind_eq_some_iff.mp ha
  obtain ⟨c', hc', -, hessence⟩ := h id c hc
  rw [Graph.ofKind?, hc', Option.bind_some, ← hproject, hessence, hproject, ha]

theorem ofKind?_map (g : Graph) {α β : Type} (project? : Kind → Option α) (f : α → β)
    (id : ComponentId) :
    g.ofKind? (fun k => (project? k).map f) id = (g.ofKind? project? id).map f := by
  rw [Graph.ofKind?, Graph.ofKind?, Option.map_bind]
  rfl

theorem Kept.ofKind?_map (h : Kept g g') {α β : Type} {project? : Kind → Option α} {f : α → β}
    (hproject : ∀ k : Kind, (project? k.essence).map f = (project? k).map f) {a : α}
    (ha : g.ofKind? project? id = some a) :
    ∃ a', g'.ofKind? project? id = some a' ∧ f a' = f a := by
  have hf : g'.ofKind? (fun k => (project? k).map f) id = some (f a) :=
    h.ofKind? hproject (by rw [Graph.ofKind?_map, ha]; rfl)
  rw [Graph.ofKind?_map] at hf
  exact Option.map_eq_some_iff.mp hf

theorem Kept.pattern? (h : Kept g g') {p : Pattern} (hp : g.ofKind? Kind.pattern? id = some p) :
    ∃ p', g'.ofKind? Kind.pattern? id = some p' ∧ p'.factClass = p.factClass ∧
      p'.name = p.name ∧ p'.isNot = p.isNot := by
  obtain ⟨p', hp', hsame⟩ := h.ofKind?_map (f := fun p => (p.factClass, p.name, p.isNot))
    (fun k => by cases k <;> rfl) hp
  simp only [Prod.mk.injEq] at hsame
  exact ⟨p', hp', hsame⟩

theorem Kept.field? (h : Kept g g') {f : Field} (hf : g.ofKind? Kind.field? id = some f) :
    ∃ f', g'.ofKind? Kind.field? id = some f' ∧ f'.factClass = f.factClass ∧ f'.name = f.name := by
  obtain ⟨f', hf', hsame⟩ := h.ofKind?_map (f := fun f => (f.factClass, f.name))
    (fun k => by cases k <;> rfl) hf
  simp only [Prod.mk.injEq] at hsame
  exact ⟨f', hf', hsame⟩

theorem Kept.var? (h : Kept g g') {v : Variable} (hv : g.ofKind? Kind.var? id = some v) :
    ∃ v', g'.ofKind? Kind.var? id = some v' ∧ v'.rule = v.rule ∧ v'.name = v.name := by
  obtain ⟨v', hv', hsame⟩ := h.ofKind?_map (f := fun v => (v.rule, v.name))
    (fun k => by cases k <;> rfl) hv
  simp only [Prod.mk.injEq] at hsame
  exact ⟨v', hv', hsame⟩

theorem Kept.className? (h : Kept g g') {name : String}
    (hname : g.ofKind? Kind.className? id = some name) :
    g'.ofKind? Kind.className? id = some name :=
  h.ofKind? (fun k => by cases k <;> rfl) hname

theorem InRule.keep (h : Kept g g') {rule : ComponentId} {name : String}
    (hrule : g.InRule id rule name) : g'.InRule id rule name where
  nearest := hrule.nearest.keep h
  name_eq := by
    rw [← Graph.ofKind?_map]
    refine h.ofKind? (fun k => by cases k <;> rfl) ?_
    rw [Graph.ofKind?_map, hrule.name_eq]

end Keep

/-! ## New components -/

/-- A component has come about, with a parent and a kind. -/
def Made (id : ComponentId) (parent : Option ComponentId) (kind : Kind) (g : Graph) : Prop :=
  ∃ c, g.get? id = some c ∧ c.parent = parent ∧ c.kind.essence = kind.essence

theorem made_add (g : Graph) (parent : Option ComponentId) (kind : Kind) :
    Made g.nextId parent kind (g.add parent kind) :=
  ⟨_, get?_add_nextId g parent kind, rfl, rfl⟩

section Made

variable {g g' : Graph} {id p found : ComponentId} {parent : Option ComponentId} {kind : Kind}

theorem Made.keep (hkept : Kept g g') (h : Made id parent kind g) : Made id parent kind g' := by
  obtain ⟨c, hc, hparent, hessence⟩ := h
  obtain ⟨c', hc', hparent', hessence'⟩ := hkept id c hc
  exact ⟨c', hc', hparent'.trans hparent, hessence'.trans hessence⟩

theorem Made.typeOf? (h : Made id parent kind g) : g.typeOf? id = some kind.type := by
  obtain ⟨c, hc, -, hessence⟩ := h
  rw [Graph.typeOf?, hc, Option.map_some, ← Kind.type_essence, hessence, Kind.type_essence]

theorem Made.parentOf? (h : Made id parent kind g) : g.parentOf? id = parent := by
  obtain ⟨c, hc, hparent, -⟩ := h
  rw [Graph.parentOf?, hc, Option.bind_some, hparent]

theorem Made.ofKind? (h : Made id parent kind g) {α : Type} {project? : Kind → Option α}
    (hproject : ∀ k : Kind, project? k.essence = project? k) :
    g.ofKind? project? id = project? kind := by
  obtain ⟨c, hc, -, hessence⟩ := h
  rw [Graph.ofKind?, hc, Option.bind_some, ← hproject, hessence, hproject]

/-- What is nearest to the parent is nearest to its children of another type. -/
theorem Made.nearest (h : Made id (some p) kind g) {type : ComponentType}
    (hnear : g.Nearest type p found) (hkind : kind.type ≠ type) : g.Nearest type id found := by
  refine .above ?_ h.parentOf? hnear
  rw [h.typeOf?]
  exact fun heq => hkind (Option.some.inj heq)

theorem Made.inRule (h : Made id (some p) kind g) {rule : ComponentId} {name : String}
    (hrule : g.InRule p rule name) (hkind : kind.type ≠ .rule) : g.InRule id rule name where
  nearest := h.nearest hrule.nearest hkind
  name_eq := hrule.name_eq

theorem Nearest.typeOf?_eq {type : ComponentType} (h : g.Nearest type p found) :
    g.typeOf? found = some type := by
  induction h with
  | here htype => exact htype
  | above _ _ _ ih => exact ih

theorem Nearest.le_size {type : ComponentType} (h : g.Nearest type p found) : p ≤ g.size := by
  cases h with
  | here htype =>
    obtain ⟨c, hc, -⟩ := Option.map_eq_some_iff.mp htype
    exact le_size_of_get? hc
  | above _ hparent _ =>
    obtain ⟨c, hc, -⟩ := Option.bind_eq_some_iff.mp hparent
    exact le_size_of_get? hc

/-- A key leads to a component with that key, and so to one of its kind. -/
theorem Sound.ofKind?_of_find? (h : g.Sound) {key : Key} (hfind : g.keyTable.find? key = some id)
    {α : Type} {project? : Kind → Option α} {P : α → Prop}
    (hkey : ∀ k : Kind, k.key? = some key → ∃ a, project? k = some a ∧ P a) :
    ∃ a, g.ofKind? project? id = some a ∧ P a := by
  obtain ⟨c, hc, hckey⟩ := h.key?_eq key id hfind
  rw [Graph.ofKind?, hc]
  exact hkey c.kind hckey

theorem Sound.var?_of_findVar? (h : g.Sound) {rule : ComponentId} {name : String}
    (hfind : g.findVar? rule name = some id) :
    ∃ v, g.ofKind? Kind.var? id = some v ∧ v.rule = rule ∧ v.name = name :=
  h.ofKind?_of_find? hfind fun k hk => by
    cases k <;> cases hk
    exact ⟨_, rfl, rfl, rfl⟩

theorem Sound.field?_of_findField? (h : g.Sound) {factClass : ComponentId} {name : String}
    (hfind : g.findField? factClass name = some id) :
    ∃ f, g.ofKind? Kind.field? id = some f ∧ f.factClass = factClass ∧ f.name = name :=
  h.ofKind?_of_find? hfind fun k hk => by
    cases k <;> cases hk
    exact ⟨_, rfl, rfl, rfl⟩

theorem Sound.ofKind?_eq_of_find? (h : g.Sound) {key : Key}
    (hfind : g.keyTable.find? key = some id) {α : Type} {project? : Kind → Option α} {a : α}
    (hkey : ∀ k : Kind, k.key? = some key → project? k = some a) :
    g.ofKind? project? id = some a := by
  obtain ⟨_, hid, rfl⟩ := h.ofKind?_of_find? hfind fun k hk => ⟨a, hkey k hk, rfl⟩
  exact hid

theorem Sound.className?_of_findClass? (h : g.Sound) {name : String}
    (hfind : g.findClass? name = some id) : g.ofKind? Kind.className? id = some name :=
  h.ofKind?_eq_of_find? hfind fun k hk => by
    cases k <;> cases hk
    rfl

theorem Sound.package?_of_findPackage? (h : g.Sound) {name : String}
    (hfind : g.findPackage? name = some id) : g.ofKind? Kind.package? id = some ⟨name⟩ :=
  h.ofKind?_eq_of_find? hfind fun k hk => by
    cases k <;> cases hk
    rfl

end Made

/-! ## Going on -/

section Fits

variable {g g' : Graph} {id : ComponentId} {parent : Option ComponentId}

theorem Pattern.Fits.keep (h : Kept g g') {p : Pattern} (hfits : p.Fits g id) : p.Fits g' id where
  inRule := hfits.inRule.keep h
  className_eq := h.className? hfits.className_eq

theorem Constraint.Fits.keep (h : Kept g g') {k : Constraint} (hfits : k.Fits g id) :
    k.Fits g' id where
  rule := hfits.rule.keep h
  pattern := hfits.pattern.keep h
  agrees := by
    obtain ⟨p, f, hp, hf, hnot, hclass, hname⟩ := hfits.agrees
    obtain ⟨p', hp', hclass', -, hnot'⟩ := h.pattern? hp
    obtain ⟨f', hf', hclass'', hname'⟩ := h.field? hf
    exact ⟨p', f', hp', hf', hnot.trans hnot'.symm, (hclass''.trans hclass).trans hclass'.symm,
      hname'.trans hname⟩

theorem Restriction.Fits.keep (h : Kept g g') {r : Restriction} (hfits : r.Fits g id parent) :
    r.Fits g' id parent where
  inRule := hfits.inRule.keep h
  parent_eq := hfits.parent_eq
  agrees := by
    obtain ⟨k, hk, hagrees⟩ := hfits.agrees
    exact ⟨k, h.ofKind? (fun k => by cases k <;> rfl) hk, hagrees⟩
  variable_eq other name hother := by
    obtain ⟨v, hv, hrule, hname⟩ := hfits.variable_eq other name hother
    obtain ⟨v', hv', hrule', hname'⟩ := h.var? hv
    exact ⟨v', hv', hrule'.trans hrule, hname'.trans hname⟩

theorem Variable.Fits.keep (h : Kept g g') {v : Variable} (hfits : v.Fits g id parent) :
    v.Fits g' id parent where
  inRule := hfits.inRule.keep h
  object := by
    obtain ⟨pattern, p, hnear, hp, hobject⟩ := hfits.object
    obtain ⟨p', hp', hclass, hname, -⟩ := h.pattern? hp
    refine ⟨pattern, p', hnear.keep h, hp', ?_⟩
    obtain ⟨hparent, hid, hshown⟩ | ⟨field, f, hid, hf, hclass', hshown⟩ := hobject
    · exact .inl ⟨hparent, by rw [hid, hclass], by rw [hshown, hname]⟩
    · obtain ⟨f', hf', hclass'', hname'⟩ := h.field? hf
      exact .inr ⟨field, f', hid, hf', by rw [hclass'', hclass', hclass], by rw [hname', hshown]⟩

theorem Variable.TellsTypeIn.keep (h : Kept g g') {v : Variable} (hv : v.TellsTypeIn g) :
    v.TellsTypeIn g' := by
  obtain hfield | ⟨object, hobject, htype⟩ := hv
  · exact .inl hfield
  · exact .inr ⟨object, hobject, h.typeOf? htype⟩

theorem Variable.TellsTypeIn.of_eq {v v' : Variable} (h : v.TellsTypeIn g)
    (hobject : v'.objectId = v.objectId)
    (htype : v'.objectType = .field ∨ v'.objectType = v.objectType) : v'.TellsTypeIn g := by
  obtain hfield | htype := htype
  · exact .inl hfield
  · rwa [Variable.TellsTypeIn, hobject, htype]

/-- **What fits still does when a graph goes on.** -/
theorem Kind.Fits.keep (h : Kept g g') {k : Kind} (hfits : k.Fits g id parent) :
    k.Fits g' id parent := by
  cases k with
  | package p => exact hfits
  | factClass name => exact hfits
  | field f => exact ⟨hfits.1, h.className? hfits.2⟩
  | rule r => exact ⟨hfits.1, h.typeOf? hfits.2⟩
  | consequence q => exact ⟨hfits.1, hfits.2.keep h⟩
  | pattern p => exact Pattern.Fits.keep h hfits
  | constraint k => exact Constraint.Fits.keep h hfits
  | restriction r => exact Restriction.Fits.keep h hfits
  | var v => exact Variable.Fits.keep h hfits
  | eval e => exact InRule.keep h hfits
  | predicate e =>
    obtain ⟨hrule, pattern, hpattern⟩ := hfits
    exact ⟨hrule.keep h, pattern, hpattern.keep h⟩
  | accumulate input code =>
    obtain ⟨pattern, hparent, hpattern⟩ := hfits
    exact ⟨pattern, hparent, h.typeOf? hpattern⟩
  | collect input method =>
    obtain ⟨pattern, hparent, hpattern⟩ := hfits
    exact ⟨pattern, hparent, h.typeOf? hpattern⟩
  | supply dataSource =>
    obtain ⟨pattern, hparent, hpattern⟩ := hfits
    exact ⟨pattern, hparent, h.typeOf? hpattern⟩
  | _ =>
    obtain ⟨rule, hrule⟩ := hfits
    exact ⟨rule, hrule.keep h⟩

/-- A component has children other than fields only if it is a package or a pattern, or stands in a
rule. -/
def Hosts (g : Graph) (p : ComponentId) : Prop :=
  g.typeOf? p = some .package ∨ g.typeOf? p = some .pattern ∨ ∃ rule, g.Nearest .rule p rule

theorem Hosts.isSome {p : ComponentId} (h : g.Hosts p) : (g.get? p).isSome := by
  have htype : ∀ type, g.typeOf? p = some type → (g.get? p).isSome := by
    intro type h
    obtain ⟨c, hc, -⟩ := Option.map_eq_some_iff.mp h
    exact Option.isSome_of_eq_some hc
  obtain h | h | ⟨rule, hnear⟩ := h
  · exact htype _ h
  · exact htype _ h
  · cases hnear with
    | here h => exact htype _ h
    | above _ hparent _ =>
      obtain ⟨c, hc, -⟩ := Option.bind_eq_some_iff.mp hparent
      exact Option.isSome_of_eq_some hc

/-- **Packages and classes have no parents, fields stand below classes**, and all others where such
components can stand. -/
theorem Component.FitsIn.above {c : Component} (hfits : c.FitsIn g) (hc : g.get? c.id = some c) :
    (c.kind.type = .package ∨ c.kind.type = .factClass) ∧ c.parent = none ∨
      c.kind.type = .field ∧ (∃ p, c.parent = some p ∧ g.typeOf? p = some .factClass) ∨
        ¬(c.kind.type = .package ∨ c.kind.type = .factClass) ∧ c.kind.type ≠ .field ∧
          ∃ p, c.parent = some p ∧ g.Hosts p := by
  -- what stands in a rule and is none has a parent there
  have hinner : ∀ rule, g.Nearest .rule c.id rule → c.kind.type ≠ .rule →
      ∃ p, c.parent = some p ∧ g.Hosts p := by
    intro rule hnear hne
    have htype : g.typeOf? c.id = some c.kind.type := by rw [Graph.typeOf?, hc]; rfl
    cases hnear with
    | here hrule => exact absurd (Option.some.inj (htype.symm.trans hrule)) hne
    | @above _ p _ _ hparent hnext =>
      rw [Graph.parentOf?, hc] at hparent
      exact ⟨p, hparent, .inr (.inr ⟨rule, hnext⟩)⟩
  obtain ⟨cid, parent, place, kind⟩ := c
  cases kind with
  | package q => exact .inl ⟨.inl rfl, hfits⟩
  | factClass name => exact .inl ⟨.inr rfl, hfits⟩
  | field f => exact .inr (.inl ⟨rfl, _, hfits.1, typeOf?_of_className? hfits.2⟩)
  | rule r => exact .inr (.inr ⟨nofun, nofun, _, hfits.1, .inl hfits.2⟩)
  | consequence q => exact .inr (.inr ⟨nofun, nofun, hinner _ hfits.2.nearest nofun⟩)
  | pattern k => exact .inr (.inr ⟨nofun, nofun, hinner _ hfits.inRule.nearest nofun⟩)
  | constraint k => exact .inr (.inr ⟨nofun, nofun, hinner _ hfits.rule nofun⟩)
  | restriction r => exact .inr (.inr ⟨nofun, nofun, hinner _ hfits.inRule.nearest nofun⟩)
  | var v => exact .inr (.inr ⟨nofun, nofun, hinner _ hfits.inRule.nearest nofun⟩)
  | eval e => exact .inr (.inr ⟨nofun, nofun, hinner _ hfits.nearest nofun⟩)
  | predicate e => exact .inr (.inr ⟨nofun, nofun, hinner _ hfits.1.nearest nofun⟩)
  | accumulate | collect | supply =>
    obtain ⟨pattern, hparent, hpattern⟩ := hfits
    exact .inr (.inr ⟨nofun, nofun, pattern, hparent, .inr (.inl hpattern)⟩)
  | _ =>
    obtain ⟨rule, hrule⟩ := hfits
    exact .inr (.inr ⟨nofun, nofun, hinner rule hrule nofun⟩)

/-- Packages and classes have no parents, and the parents of all others are there. -/
theorem Component.FitsIn.parent_cases {c : Component} (hfits : c.FitsIn g)
    (hc : g.get? c.id = some c) :
    (c.kind.type = .package ∨ c.kind.type = .factClass) ∧ c.parent = none ∨
      ¬(c.kind.type = .package ∨ c.kind.type = .factClass) ∧
        ∃ p, c.parent = some p ∧ (g.get? p).isSome := by
  obtain hroot | ⟨hfield, p, hp, hclass⟩ | ⟨htype, -, p, hp, hhosts⟩ := hfits.above hc
  · exact .inl hroot
  · obtain ⟨k, hk, -⟩ := Option.map_eq_some_iff.mp hclass
    exact .inr ⟨by rw [hfield]; nofun, p, hp, Option.isSome_of_eq_some hk⟩
  · exact .inr ⟨htype, p, hp, hhosts.isSome⟩

theorem Sound.mem_childIds_iff (h : g.Sound) :
    id ∈ g.childIds parent ↔ ∃ c, g.get? id = some c ∧ c.parent = parent := by
  rw [h.childIds_eq, idsUnder, List.mem_map]
  constructor
  · rintro ⟨c, hc, rfl⟩
    obtain ⟨hmem, hparent⟩ := List.mem_filter.mp hc
    obtain ⟨n, hn⟩ := List.mem_iff_getElem?.mp hmem
    rw [h.id_eq n c hn]
    exact ⟨c, hn, of_decide_eq_true hparent⟩
  · rintro ⟨c, hc, hparent⟩
    obtain ⟨n, rfl, hn⟩ := exists_of_get? hc
    exact ⟨c, List.mem_filter.mpr ⟨List.mem_of_getElem? hn, decide_eq_true hparent⟩,
      h.id_eq n c hn⟩

/-- What leads to a component that was there already has led to it all the time. -/
theorem Reference.LeadsIn.of_kept {r : Reference} (h : Kept g g') (hr : r.LeadsIn g')
    {c : Component} (hc : g.get? r.id = some c) : r.LeadsIn g := by
  have hold : g.typeOf? r.id = some c.kind.type := by rw [Graph.typeOf?, hc]; rfl
  rw [Reference.LeadsIn, hold, ← h.typeOf? hold]
  exact hr

/-- **What is filled in stays right** as long as there are no new children. -/
theorem Kind.Finished.keep (h : Kept g g') (hsound : g.Sound)
    (hchildren : g'.childIds (some id) = g.childIds (some id)) {k : Kind} (hk : k.Finished g id) :
    k.Finished g' id := by
  cases k with
  | rule r =>
    obtain ⟨last, q, hlast, hchild, hq, hrule⟩ := hk
    exact ⟨last, q, hlast, by rw [hchildren, hchild], h.ofKind? (fun k => by cases k <;> rfl) hq,
      hrule⟩
  | pattern p =>
    intro source
    rw [hk source, hchildren]
    refine and_congr_right fun hmem => and_congr_left fun _ => ⟨h.typeOf?, fun hleads => ?_⟩
    obtain ⟨c, hc, -⟩ := hsound.mem_childIds_iff.mp hmem
    exact hleads.of_kept h hc
  | accumulate input code =>
    obtain ⟨pattern, hinput, hchild, htype⟩ := hk
    exact ⟨pattern, hinput, by rw [hchildren, hchild], h.typeOf? htype⟩
  | collect input method =>
    obtain ⟨pattern, hinput, hchild, htype⟩ := hk
    exact ⟨pattern, hinput, by rw [hchildren, hchild], h.typeOf? htype⟩
  | supply dataSource =>
    obtain ⟨hchild, hleads⟩ := hk
    exact ⟨by rw [hchildren, hchild], fun invoker hinvoker => h.typeOf? (hleads invoker hinvoker)⟩
  | _ => trivial

/-- What is filled in or settled later does not count. -/
theorem Kind.fits_essence {k : Kind} : k.essence.Fits g id parent ↔ k.Fits g id parent := by
  cases k with
  | pattern p =>
    exact ⟨fun ⟨hrule, hclass⟩ => ⟨hrule, hclass⟩, fun ⟨hrule, hclass⟩ => ⟨hrule, hclass⟩⟩
  | var v =>
    exact ⟨fun ⟨hrule, hobject⟩ => ⟨hrule, hobject⟩, fun ⟨hrule, hobject⟩ => ⟨hrule, hobject⟩⟩
  | _ => exact Iff.rfl

end Fits

end Graph

end RuleBase

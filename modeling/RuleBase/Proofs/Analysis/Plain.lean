import RuleBase.Analysis.Package
import RuleBase.Proofs.Analysis.Run
import RuleBase.Proofs.Graph.Log
import RuleBase.Proofs.Graph.References

/-!
# The plain parts of a walk

Most of a walk adds components that do not count for what the condition admits: fields, variables,
constraints, the expressions of a source. Which variables it finds and which types it settles on is
left open here, so that one walk through these parts serves every relation between states.

* `Admits`: a relation that holds along plain additions and changes;
* `Keeping`: a change that leaves the essence of components alone, with their keys and entries;
* `plain_fieldFor`, `plain_lowerOperand`, `plain_lowerInvoker`, …: it holds along the plain parts of
  a walk.
-/

namespace RuleBase.Analysis

open RuleBase.Graph Condition

/-- A change that leaves the essence of components alone. -/
structure Keeping (change : Kind → Kind) : Prop where
  essence_eq : ∀ k, (change k).essence = k.essence

namespace Keeping

variable {change : Kind → Kind}

theorem key?_eq (h : Keeping change) (k : Kind) : (change k).key? = k.key? := by
  rw [← Kind.key?_essence, h.essence_eq, Kind.key?_essence]

theorem logged?_eq (h : Keeping change) (k : Kind) : (change k).logged? = k.logged? := by
  rw [← Kind.logged?_essence, h.essence_eq, Kind.logged?_essence]

end Keeping

/-- A relation that holds along plain additions, of variables inside one rule only, and along
changes. -/
structure Admits (rule : ComponentId) (R : State → State → Prop) : Prop where
  add : ∀ parent kind, kind.logged? = none →
    (∀ r name, kind.key? = some (.var r name) → r = rule) → Always R (add parent kind)
  modify : ∀ id change, Keeping change → Always R (modify id change)

/-! ## Changes -/

theorem keeping_mention (line : Nat) : Keeping (onField (Field.mention line)) :=
  ⟨fun k => by cases k <;> rfl⟩

theorem keeping_refine (t : FieldType) : Keeping (onField (Field.refine t)) :=
  ⟨fun k => by cases k <;> rfl⟩

theorem keeping_asField : Keeping (onVar asField) := ⟨fun k => by cases k <;> rfl⟩

theorem keeping_withSource (source : Option Reference) : Keeping (withSource source) :=
  ⟨fun k => by cases k <;> rfl⟩

theorem keeping_withInput (input : ComponentId) : Keeping (withInput input) :=
  ⟨fun k => by cases k <;> rfl⟩

theorem keeping_withDataSource (dataSource : Option Reference) :
    Keeping (withDataSource dataSource) := ⟨fun k => by cases k <;> rfl⟩

theorem keeping_withConsequence (id : ComponentId) : Keeping (withConsequence id) :=
  ⟨fun k => by cases k <;> rfl⟩

section Plain

variable {rule : ComponentId} {R : State → State → Prop}

theorem plain_add (h : Admits rule R) {parent : Option ComponentId} {kind : Kind}
    (hentry : kind.logged? = none) (hkey : kind.key? = none) : Always R (add parent kind) :=
  h.add parent kind hentry (by simp [hkey])

variable [Std.Refl R]

theorem plain_attach (h : Admits rule R) {id : ComponentId}
    {change : Option Reference → Kind → Kind} (reference : Option Reference)
    (hchange : ∀ reference, Keeping (change reference)) :
    Always R (attach id change reference) := by
  cases reference with
  | none => exact always_pure _
  | some reference => exact h.modify id _ (hchange _)

theorem plain_settleType (h : Admits rule R) (field : ComponentId) (type : Option FieldType) :
    Always R (settleType field type) := by
  cases type with
  | none => exact always_pure _
  | some t => exact h.modify field _ (keeping_refine t)

variable [IsTrans State R]

theorem plain_classFor (h : Admits rule R) (name : String) : Always R (classFor name) :=
  always_findOrAdd (h.add _ _ rfl (by rintro _ _ ⟨⟩))

theorem plain_fieldFor (h : Admits rule R) (pattern : PatternSite) (name : String) (line : Nat) :
    Always R (fieldFor pattern name line) := by
  refine always_bind (always_look _) fun found => ?_
  cases found with
  | none => exact h.add _ _ rfl (by rintro _ _ ⟨⟩)
  | some id =>
    change Always R (if line ≠ 0 then modify id (onField (Field.mention line)) >>= fun _ => pure id
      else pure id)
    split
    · exact always_bind (h.modify id _ (keeping_mention line)) fun _ => always_pure id
    · exact always_pure id

theorem plain_varFor (site : RuleSite) (name : String) : Always R (varFor site name) :=
  always_bind (always_look _) fun _ => always_orFail _ _ _

theorem plain_lowerOperand (h : Admits rule R) (site : RuleSite) (operand : Ast.Operand) :
    Always R (lowerOperand site operand) := by
  cases operand with
  | literal text => exact always_pure _
  | var identifier => exact always_bind (plain_varFor site identifier) fun _ => always_pure _
  | returnValue content declarations method => exact always_pure _
  | qualified text =>
    refine always_bind (always_orFail _ _ _) fun split => ?_
    exact always_bind (plain_varFor site split.1) fun id =>
      always_bind (h.modify id _ keeping_asField) fun _ => always_pure _

theorem plain_addTyped (h : Admits rule R) (parent : ComponentId) {kind : Kind}
    (hentry : kind.logged? = none) (hkey : kind.key? = none) : Always R (addTyped parent kind) :=
  always_bind (plain_add h hentry hkey) fun _ => always_pure _

mutual
theorem plain_lowerInvoker (h : Admits rule R) (limits : Limits) (site : Site)
    (parent : ComponentId) (i : Ast.Invoker) : Always R (lowerInvoker limits site parent i) := by
  cases i with
  | fieldAccess name argument =>
    rw [lowerInvoker]
    exact plain_addTyped h parent rfl rfl
  | methodAccess name arguments =>
    rw [lowerInvoker]
    exact plain_addTyped h parent rfl rfl
  | functionCall name arguments =>
    rw [lowerInvoker]
    exact plain_addTyped h parent rfl rfl
  | accessor name invokers =>
    rw [lowerInvoker]
    refine always_descend_bind fun depth => ?_
    refine always_bind (plain_add h rfl rfl) fun id => ?_
    exact always_bind (plain_lowerInvokers h limits _ id invokers) fun _ => always_pure _
  | unknown =>
    rw [lowerInvoker]
    exact always_pure _

theorem plain_lowerInvokers (h : Admits rule R) (limits : Limits) (site : Site)
    (parent : ComponentId) (is : List Ast.Invoker) :
    Always R (lowerInvokers limits site parent is) := by
  cases is with
  | nil =>
    rw [lowerInvokers]
    exact always_pure _
  | cons i rest =>
    rw [lowerInvokers]
    exact always_bind (plain_lowerInvoker h limits site parent i) fun _ =>
      plain_lowerInvokers h limits site parent rest
end

/-! Variables are added for the rule that the walk is in. -/

variable {site : RuleSite}

theorem plain_addVar (h : Admits site.id R) (parent : ComponentId) (name : String)
    (objectType : ComponentType) (object : ComponentId) (objectName : String) :
    Always R (addVar site parent name objectType object objectName) := by
  refine always_bind (h.add _ _ rfl fun r name' hkey => ?_) fun _ => always_pure _
  cases hkey
  rfl

theorem plain_bindPattern (h : Admits site.id R) (id factClass : ComponentId)
    (objectType : String) (identifier : Option String) :
    Always R (bindPattern site id factClass objectType identifier) := by
  cases identifier with
  | none => exact always_pure _
  | some name => exact plain_addVar h id name .factClass factClass objectType

end Plain

end RuleBase.Analysis

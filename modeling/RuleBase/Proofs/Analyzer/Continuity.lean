import RuleBase.Proofs.Analyzer.Atomic
import RuleBase.Proofs.Analyzer.References
import RuleBase.Proofs.Graph.Continued

/-!
# Calls that succeed

A call that succeeds only extends the graph. Most updates of the walk through a rule would reach old
components as well, were it not for the components it can come across: a path starts from a variable
of the rule, which is younger than the call, and what is filled in later belongs to components that
have come about in between. Fields are shared by all rules, so theirs are the only changes to be
seen.

* **`Inside.update`**: an update inside a younger rule leaves old components as they are;
* **`Analyzer.Reachable.call_continues`**: a call that succeeds only extends the graph.
-/

namespace RuleBase

open RuleBase.Graph Analysis

/-! ## Inside a rule -/

/-- What may become of a component as long as something is left to be filled in: only components
that know nothing of their children are certain. -/
def PlainlyBecomes (k k' : Kind) : Prop := k.type.isPlain = true → k.MayBecome k'

theorem Graph.Kind.MayBecome.type_eq {k k' : Kind} (h : k.MayBecome k') : k'.type = k.type := by
  rw [← Kind.type_essence, h.essence_eq, Kind.type_essence]

theorem Graph.Kind.MayBecome.onField {k k' : Kind} (h : k.MayBecome k') {change : Field → Field}
    (hchange : ∀ f f' : Field, f.MayBecome f' → f.MayBecome (change f')) :
    k.MayBecome (onField change k') := by
  cases h with
  | field h => exact .field (hchange _ _ h)
  | same =>
    cases k with
    | field f => exact .field (hchange f f ⟨rfl, rfl, rfl, .inl rfl, .inl rfl⟩)
    | _ => exact .same _

theorem Analysis.Fill.eq_self {change : Kind → Kind} (h : Fill change) {k : Kind}
    (hplain : k.type.isPlain = true) : change k = k := by
  cases h <;> cases k <;> first | rfl | cases hplain

/-- A graph during a call. -/
structure Growing (g₀ g : Graph) : Prop where
  pending : Pending g₀ g
  continues : Continues PlainlyBecomes g₀ g

/-- A graph during a call, inside a rule that the call adds. -/
structure Inside (g₀ : Graph) (rule : ComponentId) (g : Graph) : Prop extends Growing g₀ g where
  young : g₀.size < rule
  there : rule ≤ g.size

section Inside

variable {g₀ g g' : Graph} {rule : ComponentId}

theorem Inside.not_old (h : Inside g₀ rule g) (h₀ : g₀.Settled) {id : ComponentId} {name : String}
    (hfind : g.findVar? rule name = some id) {c : Component} {kind : Kind}
    (hold : g₀.get? id = some c) (hnow : g.get? id = some { c with kind }) :
    ¬ c.kind.MayBecome kind := by
  intro hbecomes
  obtain ⟨c', hc', hkey⟩ := h.pending.sound.key?_eq _ _ hfind
  obtain rfl := Option.some.inj (hnow.symm.trans hc')
  obtain ⟨n, rfl, hn⟩ := exists_of_get? hold
  rw [hbecomes.key?_eq] at hkey
  exact absurd (h₀.rooted c (List.mem_of_getElem? hn) rule name hkey) (Nat.not_le.mpr h.young)

/-- **An update inside a younger rule leaves old components as they are**, but for fields. -/
theorem Inside.update (h : Inside g₀ rule g) (h₀ : g₀.Settled) (hupdate : Update rule g g') :
    Inside g₀ rule g' := by
  obtain ⟨hpending, hsize⟩ := h.pending.step h₀ h.young h.there hupdate.step
  refine ⟨⟨hpending, ?_⟩, h.young, Nat.le_trans h.there hsize⟩
  cases hupdate with
  | add parent kind hkind =>
    refine h.continues.add parent fun key hkey hshadowing => ?_
    cases key with
    | var r name => exact h₀.find?_var (hkind r name hkey ▸ h.young) name
    | _ => cases hshadowing
  | fill id change hfill =>
    refine h.continues.modify id fun c kind _ _ hbecomes hplain => ?_
    have hkind := hbecomes hplain
    rw [hfill.eq_self (hkind.type_eq ▸ hplain)]
    exact hkind
  | mention field line hline =>
    exact h.continues.modify field fun _ _ _ _ hbecomes hplain =>
      (hbecomes hplain).onField fun _ _ hfield => hfield.mention hline
  | settle field type htype =>
    exact h.continues.modify field fun _ _ _ _ hbecomes hplain =>
      (hbecomes hplain).onField fun _ _ hfield => hfield.refine htype
  | startPath id name hfind =>
    exact h.continues.modify id fun _ _ hold hnow hbecomes hplain =>
      absurd (hbecomes hplain) (h.not_old h₀ hfind hold hnow)
  | patternPossibilities pattern possibilities =>
    exact h.continues.addPatternPossibilities rule pattern possibilities
  | rulePossibilities r possibilities => exact h.continues.addRulePossibilities r possibilities

end Inside

/-! ## Packages -/

/-- What holds of a graph still does. -/
def Maintains (P : Graph → Prop) (g g' : Graph) : Prop := P g → P g'

instance (P : Graph → Prop) : Std.Refl (Maintains P) := ⟨fun _ h => h⟩

instance (P : Graph → Prop) : IsTrans Graph (Maintains P) :=
  ⟨fun _ _ _ h h' hbefore => h' (h hbefore)⟩

section Packages

variable {g₀ g : Graph}

theorem Growing.add (h : Growing g₀ g) (h₀ : g₀.Settled) (parent : Option ComponentId) {kind : Kind}
    (hkind : ∀ r name, kind.key? ≠ some (.var r name)) : Growing g₀ (g.add parent kind) where
  pending := h.pending.add h₀ parent fun r name hkey => absurd hkey (hkind r name)
  continues := h.continues.add parent fun key hkey hshadowing => by
    cases key with
    | var r name => exact absurd hkey (hkind r name)
    | _ => cases hshadowing

theorem growing_lowerRule (h₀ : g₀.Settled) (limits : Limits) (package : ComponentId)
    (r : Ast.Rule) : Always (OnGraph (Maintains (Growing g₀))) (lowerRule limits package r) := by
  intro s h
  have hadd : Growing g₀ (s.graph.add (some package) (.rule
      { name := r.name, salience := r.salience, line := r.line, package, consequence := none })) :=
    h.add h₀ _ (by rintro _ _ ⟨⟩)
  have hinside : Inside g₀ s.graph.nextId _ :=
    ⟨hadd, Nat.lt_succ_of_le h.pending.size_le, Nat.le_of_eq (size_add s.graph _ _).symm⟩
  have hinner : Compositional ⟨s.graph.nextId, r.name, r.line⟩
      (Always (OnGraph (Maintains (Inside g₀ s.graph.nextId)))) :=
    compositional_onGraph fun _ _ hupdate h => h.update h₀ hupdate
  exact (hinner.modular.lowerBody limits r { s with graph := _ } hinside).toGrowing

/-- **A graph that is extended by packages keeps what it has had.** -/
theorem growing_loadAll (h₀ : g₀.Settled) (limits : Limits) (ps : List Ast.Package) :
    Always (Maintains (Growing g₀)) (loadAll limits ps) :=
  always_loadAll (fun _ _ h => h.add h₀ none (by rintro _ _ ⟨⟩)) (growing_lowerRule h₀ limits) ps

end Packages

namespace Analyzer

variable {a : Analyzer} {c : Call} {ids : List ComponentId}

theorem growing_call (h : a.graph.Settled) (hok : (a.call c).1 = .ok ids) :
    Continues PlainlyBecomes a.graph (a.call c).2.graph := by
  obtain ⟨ps, g, -, hrun, hgraph⟩ := call_eq_ok hok
  have hstart : Continues PlainlyBecomes a.graph a.graph.checkpoint :=
    (continues_refl (fun k _ => .same k) a.graph).of_eq _
  have hend := (growing_loadAll h a.limits ps).of_ok hrun ⟨.checkpoint h, hstart⟩
  rw [hgraph]
  exact hend.continues.of_eq none

/-- Whatever is called, only fields change that know nothing of their children. -/
theorem Reachable.becomes_session {limits : Limits} (h : Reachable limits a) {id : ComponentId}
    {old : Component} (hold : a.graph.get? id = some old) (hplain : old.kind.type.isPlain = true)
    (cs : List Call) :
    ∃ kind, (a.session cs).2.graph.get? id = some { old with kind } ∧
      old.kind.MayBecome kind := by
  induction cs generalizing a old with
  | nil => exact ⟨old.kind, hold, .same old.kind⟩
  | cons c rest ih =>
    obtain ⟨kind, hkind, hbecomes⟩ : ∃ kind, (a.call c).2.graph.get? id = some { old with kind } ∧
        old.kind.MayBecome kind := by
      cases hresult : (a.call c).1 with
      | error e =>
        rw [(settled_call h.settled c).2 e hresult]
        exact ⟨old.kind, hold, .same old.kind⟩
      | ok ids =>
        obtain ⟨kind, hkind, hbecomes⟩ := (growing_call h.settled hresult).get? id old hold
        exact ⟨kind, hkind, hbecomes hplain⟩
    obtain ⟨kind', hkind', hlater⟩ := ih (h.call c) hkind (hbecomes.type_eq ▸ hplain)
    exact ⟨kind', hkind', hbecomes.trans hlater⟩

/-- **A call that succeeds only extends the graph**: all components stay where they are, only fields
may change, new children and possibilities come behind the old ones, and what has been found by its
name still is. -/
theorem Reachable.call_continues {limits : Limits} (h : Reachable limits a)
    (hok : (a.call c).1 = .ok ids) :
    Continues Kind.MayBecome a.graph (a.call c).2.graph ∧
      (∀ name id, a.graph.findPackage? name = some id →
        (a.call c).2.graph.findPackage? name = some id) ∧
      (∀ name id, a.graph.findClass? name = some id →
        (a.call c).2.graph.findClass? name = some id) ∧
      (∀ factClass name id, a.graph.findField? factClass name = some id →
        (a.call c).2.graph.findField? factClass name = some id) ∧
      (∀ className name id, a.graph.findFieldByNames? className name = some id →
        (a.call c).2.graph.findFieldByNames? className name = some id) ∧
      ∀ rule name id, a.graph.findVar? rule name = some id →
        (a.call c).2.graph.findVar? rule name = some id := by
  have hplainly := growing_call h.settled hok
  have hwoven := woven_call h.outlined.toArranged hok
  have hcontinues : Continues Kind.MayBecome a.graph (a.call c).2.graph := by
    refine { hplainly with get? := fun id old hold => ?_ }
    cases hplain : old.kind.type.isPlain with
    | false => exact ⟨old.kind, hwoven.same id old hold hplain, .same old.kind⟩
    | true =>
      obtain ⟨kind, hkind, hbecomes⟩ := hplainly.get? id old hold
      exact ⟨kind, hkind, hbecomes hplain⟩
  have hfind := hcontinues.find?
  refine ⟨hcontinues, fun name => hfind _, fun name => hfind _, fun factClass name => hfind _,
    fun className name id hid => ?_, fun rule name => hfind _⟩
  obtain ⟨factClass, hclass, hfield⟩ := Option.bind_eq_some_iff.mp hid
  exact Option.bind_eq_some_iff.mpr ⟨factClass, hfind _ _ hclass, hfind _ _ hfield⟩

/-- A package that mentions the age of a person on a line, in another comparison. -/
def elders : Ast.Package :=
  ⟨"elders", [{ name := "elder", lhs := [.pattern (.mk "Person" (some "$p") none
    [.constraint "age" [.comparison ">" false (.literal (some "65"))] 3] 2)] }]⟩

/-- The field that both packages share is still found, and its line is known now. -/
theorem call_continues_elders :
    (ofAdults.call (.package elders)).1 = .ok [9] ∧
      Continues Kind.MayBecome ofAdults.graph (ofAdults.call (.package elders)).2.graph ∧
      ofAdults.graph.findFieldByNames? "Person" "age" = some 5 ∧
      (ofAdults.call (.package elders)).2.graph.findFieldByNames? "Person" "age" = some 5 ∧
      (ofAdults.graph.ofKind? Kind.field? 5).map (·.line) = some 0 ∧
      ((ofAdults.call (.package elders)).2.graph.ofKind? Kind.field? 5).map (·.line) = some 3 := by
  have hreach : Reachable {} ofAdults := Reachable.new.call (.package adults)
  have hok : (ofAdults.call (.package elders)).1 = .ok [9] := by decide +kernel
  have hfield : ofAdults.graph.findFieldByNames? "Person" "age" = some 5 := by decide +kernel
  obtain ⟨hcontinues, -, -, -, hfind, -⟩ := Reachable.call_continues hreach hok
  exact ⟨hok, hcontinues, hfield, hfind _ _ _ hfield, by decide +kernel, by decide +kernel⟩

end Analyzer

end RuleBase

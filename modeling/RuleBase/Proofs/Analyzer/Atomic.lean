import RuleBase.Proofs.Analysis.Steps
import RuleBase.Proofs.Analyzer.Session
import RuleBase.Proofs.Graph.Numbered
import RuleBase.Proofs.Graph.Rollback

/-!
# Calls that fail

A call that fails leaves no trace, wherever in the walk through a rule it fails. All along the walk
the graph can be rolled back to the checkpoint: new variables belong to a rule that is younger than
the checkpoint, so none of them takes the place of an older one.

* **`Analyzer.Reachable.call_failed`**: failed calls are as if they had never been made.
-/

namespace RuleBase

open RuleBase.Graph Analysis

namespace Graph

/-- Variables belong to rules that are there. -/
def Rooted (g : Graph) : Prop :=
  ∀ c ∈ g.components, ∀ rule name, c.kind.key? = some (.var rule name) → rule ≤ g.size

/-- What holds of a graph between calls. -/
structure Settled (g : Graph) : Prop where
  sound : g.Sound
  rooted : g.Rooted
  numbered : g.Numbered
  journal?_eq : g.journal? = none

theorem settled_empty : Settled {} := ⟨sound_empty, by rintro _ ⟨⟩, numbered_empty, rfl⟩

variable {g : Graph}

theorem Rooted.add (h : g.Rooted) (parent : Option ComponentId) {kind : Kind}
    (hkind : ∀ rule name, kind.key? = some (.var rule name) → rule ≤ g.size) :
    (g.add parent kind).Rooted := by
  intro c hc rule name hkey
  rw [size_add]
  rcases List.mem_append.mp hc with hold | hnew
  · exact Nat.le_succ_of_le (h c hold rule name hkey)
  · obtain rfl := List.mem_singleton.mp hnew
    exact Nat.le_succ_of_le (hkind rule name hkey)

theorem Rooted.modify (h : g.Rooted) (id : ComponentId) {change : Kind → Kind}
    (hchange : ∀ k, (change k).key? = k.key?) : (g.modify id change).Rooted := by
  intro c hc rule name hkey
  rw [size_modify]
  obtain ⟨n, hn⟩ := List.mem_iff_getElem?.mp hc
  rw [components_modify, getElem?_changeKind] at hn
  obtain ⟨c', hc', rfl⟩ := Option.map_eq_some_iff.mp hn
  refine h c' (List.mem_of_getElem? hc') rule name ?_
  split at hkey
  · rw [← hchange]
    exact hkey
  · exact hkey

/-- No variable of a rule is found before there is the rule. -/
theorem Rooted.find?_var (h : g.Rooted) (hsound : g.Sound) {rule : ComponentId}
    (hrule : g.size < rule) (name : String) : g.keyTable.find? (.var rule name) = none := by
  cases hfound : g.keyTable.find? (.var rule name) with
  | none => rfl
  | some id =>
    obtain ⟨c, hc, hkey⟩ := hsound.key?_eq _ _ hfound
    obtain ⟨n, rfl, hn⟩ := exists_of_get? hc
    exact absurd (h c (List.mem_of_getElem? hn) rule name hkey) (Nat.not_le.mpr hrule)

theorem Settled.find?_var (h : g.Settled) {rule : ComponentId} (hrule : g.size < rule)
    (name : String) : g.keyTable.find? (.var rule name) = none :=
  h.rooted.find?_var h.sound hrule name

end Graph

/-! ## While a call goes on -/

/-- What holds of a graph that is being extended after a checkpoint. -/
structure Pending (g₀ g : Graph) : Prop where
  sound : g.Sound
  rooted : g.Rooted
  numbered : g.Numbered
  since : ∃ overwritten, Since g₀ g overwritten

namespace Pending

variable {g₀ g g' : Graph} {rule : ComponentId}

theorem checkpoint (h : g₀.Settled) : Pending g₀ g₀.checkpoint where
  sound := h.sound.of_eq rfl rfl rfl
  rooted := h.rooted
  numbered := h.numbered
  since := ⟨_, h.sound.since_checkpoint⟩

theorem size_le (h : Pending g₀ g) : g₀.size ≤ g.size := by
  obtain ⟨overwritten, hsince⟩ := h.since
  exact hsince.size_le

theorem add (h : Pending g₀ g) (h₀ : g₀.Settled) (parent : Option ComponentId) {kind : Kind}
    (hkind : ∀ r name, kind.key? = some (.var r name) → g₀.size < r ∧ r ≤ g.size) :
    Pending g₀ (g.add parent kind) where
  sound := h.sound.add parent kind
  rooted := h.rooted.add parent fun r name hkey => (hkind r name hkey).2
  numbered := h.numbered
  since := by
    obtain ⟨overwritten, hsince⟩ := h.since
    refine ⟨overwritten, hsince.add parent fun key hkey hshadowing => ?_⟩
    cases key with
    | var r name => exact h₀.find?_var (hkind r name hkey).1 name
    | _ => cases hshadowing

/-- **A step inside a younger rule can be taken back.** -/
theorem step (h : Pending g₀ g) (h₀ : g₀.Settled) (hyoung : g₀.size < rule)
    (hthere : rule ≤ g.size) (hstep : Step rule g g') : Pending g₀ g' ∧ g.size ≤ g'.size := by
  obtain ⟨overwritten, hsince⟩ := h.since
  cases hstep with
  | add parent kind hkind =>
    refine ⟨h.add h₀ parent fun r name hkey => ?_, ?_⟩
    · rw [hkind r name hkey]
      exact ⟨hyoung, hthere⟩
    · rw [size_add]
      exact Nat.le_succ _
  | modify id change hchange =>
    exact ⟨⟨h.sound.modify id hchange, h.rooted.modify id hchange, h.numbered.modify id change,
      hsince.modify id change⟩, Nat.le_of_eq (size_modify g id change).symm⟩
  | patternPossibilities r pattern possibilities =>
    exact ⟨⟨h.sound.of_eq rfl rfl rfl, h.rooted,
      h.numbered.addPatternPossibilities r pattern possibilities, _,
      hsince.addPatternPossibilities r pattern possibilities⟩, Nat.le_refl _⟩
  | rulePossibilities r possibilities =>
    exact ⟨⟨h.sound.of_eq rfl rfl rfl, h.rooted, h.numbered.addRulePossibilities r possibilities, _,
      hsince.addRulePossibilities r possibilities⟩, Nat.le_refl _⟩

/-- **Any steps inside a younger rule can be taken back.** -/
theorem steps (h : Pending g₀ g) (h₀ : g₀.Settled) (hyoung : g₀.size < rule)
    (hthere : rule ≤ g.size) (hsteps : Steps rule g g') : Pending g₀ g' := by
  have hsize : Pending g₀ g' ∧ g.size ≤ g'.size := by
    induction hsteps with
    | refl => exact ⟨h, Nat.le_refl _⟩
    | tail _ hstep ih =>
      obtain ⟨hpending, hle⟩ := ih
      obtain ⟨hpending', hle'⟩ := hpending.step h₀ hyoung (Nat.le_trans hthere hle) hstep
      exact ⟨hpending', Nat.le_trans hle hle'⟩
  exact hsize.1

end Pending

/-- A graph that can be rolled back still can be. -/
def Keeps (g₀ g g' : Graph) : Prop := Pending g₀ g → Pending g₀ g'

instance (g₀ : Graph) : Std.Refl (Keeps g₀) := ⟨fun _ h => h⟩

instance (g₀ : Graph) : IsTrans Graph (Keeps g₀) := ⟨fun _ _ _ h h' hpending => h' (h hpending)⟩

section Keeps

variable {g₀ : Graph}

theorem keeps_lowerRule (h₀ : g₀.Settled) (limits : Limits) (package : ComponentId)
    (r : Ast.Rule) : Always (OnGraph (Keeps g₀)) (lowerRule limits package r) := by
  intro s h
  have hadd : Pending g₀ (s.graph.add (some package) (.rule
      { name := r.name, salience := r.salience, line := r.line, package, consequence := none })) :=
    h.add h₀ _ (by rintro _ _ ⟨⟩)
  have hbody := steps_lowerBody limits ⟨s.graph.nextId, r.name, r.line⟩ r
  refine hadd.steps h₀ (Nat.lt_succ_of_le h.size_le) ?_ (hbody { s with graph := _ })
  exact Nat.le_of_eq (size_add s.graph _ _).symm

theorem keeps_loadAll (h₀ : g₀.Settled) (limits : Limits) (ps : List Ast.Package) :
    Always (Keeps g₀) (loadAll limits ps) :=
  always_loadAll (fun _ _ h => h.add h₀ none (by rintro _ _ ⟨⟩)) (keeps_lowerRule h₀ limits) ps

end Keeps

namespace Analyzer

variable {α : Type} {a : Analyzer} {body : Loading α}

/-- Loading that can be taken back ends in a settled graph, the old one if it fails. -/
theorem settled_staged (h : a.graph.Settled) (hbody : Always (Keeps a.graph) body) :
    (a.staged body).2.graph.Settled ∧
      ∀ e, (a.staged body).1 = .error e → (a.staged body).2 = a := by
  have hpending := hbody a.graph.checkpoint (Pending.checkpoint h)
  cases hrun : body a.graph.checkpoint with
  | ok result g =>
    rw [hrun] at hpending
    simp only [staged, hrun]
    refine ⟨⟨hpending.sound.of_eq rfl rfl rfl, hpending.rooted, hpending.numbered, rfl⟩, ?_⟩
    rintro e ⟨⟩
  | error e g =>
    rw [hrun] at hpending
    obtain ⟨overwritten, hsince⟩ := hpending.since
    have hroll : g.rollback = a.graph := hsince.rollback_eq h.sound hpending.sound h.journal?_eq
    simp only [staged, hrun, hroll]
    exact ⟨h, fun _ _ => trivial⟩

theorem settled_call (h : a.graph.Settled) (c : Call) :
    (a.call c).2.graph.Settled ∧ ∀ e, (a.call c).1 = .error e → (a.call c).2 = a := by
  rw [call_eq]
  cases c.content with
  | error e => exact ⟨h, fun _ _ => rfl⟩
  | ok ps =>
    obtain ⟨hsettled, hfailed⟩ := settled_staged h (keeps_loadAll h a.limits ps)
    refine ⟨hsettled, fun e he => ?_⟩
    cases hresult : (a.addPackages ps).1 with
    | ok ids => simp [hresult, Except.mapError] at he
    | error e' => exact hfailed e' hresult

theorem Reachable.settled {limits : Limits} (h : Reachable limits a) : a.graph.Settled := by
  induction h with
  | new => exact settled_empty
  | call _ c ih => exact (settled_call ih c).1

/-- **A call that fails is as if it had never been made**: the graph with its tables is the one from
before, and so are all later answers. -/
theorem Reachable.call_failed {limits : Limits} (h : Reachable limits a) {c : Call} {e : LoadError}
    (hfail : (a.call c).1 = .error e) :
    (a.call c).2 = a ∧
      ∀ later, a.session (c :: later) = (.error e :: (a.session later).1, (a.session later).2) := by
  have hsame : (a.call c).2 = a := (settled_call h.settled c).2 e hfail
  refine ⟨hsame, fun later => ?_⟩
  simp only [session, hsame, hfail]

/-- A package with one rule about the age of a person. -/
def adults : Ast.Package :=
  ⟨"adults", [{ name := "adult", lhs := [.pattern (.mk "Person" none none
    [.constraint "age" [.comparison ">" false (.literal (some "18"))] 0] 0)] }]⟩

/-- A package that mentions the age of a person once more before it goes wrong. -/
def peers : Ast.Package :=
  ⟨"peers", [{ name := "peer", lhs := [.pattern (.mk "Person" (some "$p") none
    [.constraint "age" [.comparison "==" false (.literal (some "x")),
      .comparison "==" false (.var "$a")] 7] 0)] }]⟩

/-- An analyzer of adults. -/
def ofAdults : Analyzer := (call { limits := {} } (.package adults)).2

/-- A rule about a person of some age or name, who owns no houses, but a car, or a boat and a
berth. -/
def tenant : Ast.Rule :=
  { name := "tenant"
    lhs := [
      .pattern (.mk "Person" (some "$p") none [.group .or [
        .constraint "age" [.group .and [.comparison ">" false (.literal (some "18")),
          .comparison "<" false (.literal (some "65"))]] 0,
        .constraint "name" [.comparison " not  !=" false (.literal (some "Bob"))] 0]] 0),
      .quantified .negated [.pattern (.mk "List" none (some (.collect (.mk "House" none none
        [.constraint "owner" [.comparison "==" false (.var "$p")] 0] 0) none)) [] 0)],
      .group .or [
        .pattern (.mk "Car" none none [] 0),
        .group .and [.pattern (.mk "Boat" none none [] 0),
          .pattern (.mk "Berth" none none
            [.constraint "owner" [.comparison "==" false (.qualified "$p.name")] 0] 0)]]] }

/-- A package with this rule. -/
def tenants : Ast.Package := ⟨"tenants", [tenant]⟩

/-- An analyzer of adults and tenants. -/
def ofTenants : Analyzer := (ofAdults.call (.package tenants)).2

/-- A call fails after it has changed a field that an older rule uses. -/
theorem call_failed_peers :
    (ofAdults.call (.package peers)).1 =
        .error (.analysis ⟨"peer", 0, .unresolvedVariable "$a"⟩) ∧
      (ofAdults.call (.package peers)).2 = ofAdults ∧
      ∀ later, ofAdults.session (.package peers :: later) =
        (.error (.analysis ⟨"peer", 0, .unresolvedVariable "$a"⟩) :: (ofAdults.session later).1,
          (ofAdults.session later).2) := by
  have hreach : Reachable {} ofAdults := Reachable.new.call (.package adults)
  have hfail : (ofAdults.call (.package peers)).1 =
      .error (.analysis ⟨"peer", 0, .unresolvedVariable "$a"⟩) := by decide +kernel
  exact ⟨hfail, Reachable.call_failed hreach hfail⟩

end Analyzer

end RuleBase

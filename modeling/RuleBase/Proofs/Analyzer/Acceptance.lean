import RuleBase.Proofs.Analysis.Acceptance
import RuleBase.Proofs.Analysis.Outcome
import RuleBase.Proofs.Analyzer.Atomic

/-!
# Which packages are accepted

A call is judged rule by rule, each rule for itself: neither the rules around it nor the calls
before have a part in it. So a call fails with the error of its first bad rule, and its rules are
well-formed if it does not.

* **`Analyzer.addPackages_verdict`**: what a call does follows from the verdicts on its rules;
* `Analyzer.alone`, **`Analyzer.Reachable.addPackages_isolated`**: every rule is judged as if it
  were alone;
* **`Analyzer.addPackages_ok_iff`**: which packages are accepted;
* **`Analyzer.Reachable.addPackages_wellFormed`**: what is accepted is well-formed, and what is
  well-formed fails for a limit only.
-/

namespace RuleBase

open RuleBase.Graph Analysis

namespace Analysis

variable {limits : Limits} {g₀ : Graph}

/-- The first verdict against one of some rules. -/
def firstError? (limits : Limits) (rs : List Ast.Rule) : Option Error :=
  rs.findSome? (verdict? limits)

theorem firstError?_cons (r : Ast.Rule) (rest : List Ast.Rule) :
    firstError? limits (r :: rest) = (verdict? limits r).or (firstError? limits rest) := by
  rw [firstError?, List.findSome?_cons]
  cases verdict? limits r <;> rfl

theorem firstError?_append (rs rs' : List Ast.Rule) :
    firstError? limits (rs ++ rs') = (firstError? limits rs).or (firstError? limits rs') :=
  List.findSome?_append

/-- A state between rules of a call. -/
structure Between (g₀ : Graph) (s : State) : Prop where
  scopes_eq : s.scopes = []
  pending : Pending g₀ s.graph

theorem endsWith_lowerRules (limits : Limits) (h₀ : g₀.Settled) (package : ComponentId)
    (rs : List Ast.Rule) {s : State} (h : Between g₀ s) :
    EndsWith (Between g₀) (lowerRules limits package rs) s (firstError? limits rs) := by
  induction rs generalizing s with
  | nil => exact ⟨(), s, rfl, h⟩
  | cons r rest ih =>
    have hvars : ∀ name, s.graph.findVar? s.graph.nextId name = none :=
      h.pending.rooted.find?_var h.pending.sound (Nat.lt_succ_self _)
    have hrule := (endsWith_lowerRule limits h.scopes_eq hvars package r).and_always
      (keeps_lowerRule h₀ limits package r)
    rw [lowerRules, firstError?_cons]
    exact endsWith_bind hrule fun _ s' hs' => ih ⟨hs'.1, hs'.2 h.pending⟩

theorem endsWith_packageFor (h₀ : g₀.Settled) (name : String) {s : State} (h : Between g₀ s) :
    EndsWith (Between g₀) (packageFor name) s none := by
  cases hfound : s.graph.findPackage? name with
  | some id => exact ⟨id, s, findOrAdd_of_some hfound, h⟩
  | none =>
    exact ⟨_, _, findOrAdd_of_none hfound, h.scopes_eq, h.pending.add h₀ none (by rintro _ _ ⟨⟩)⟩

theorem endsWith_load (limits : Limits) (h₀ : g₀.Settled) (p : Ast.Package) {g : Graph}
    (h : Pending g₀ g) :
    EndsWith (Pending g₀) (load limits p) g (firstError? limits p.rules) := by
  have hrun : EndsWith (Between g₀) (lowerPackage limits p) ⟨g, []⟩
      (firstError? limits p.rules) := by
    exact endsWith_bind (endsWith_packageFor h₀ p.name ⟨rfl, h⟩) fun id s' hs' =>
      (endsWith_lowerRules limits h₀ id p.rules hs').of_value fun _ => id
  cases hverdict : firstError? limits p.rules with
  | some e =>
    rw [hverdict] at hrun
    obtain ⟨s', hrun⟩ := hrun
    exact ⟨s'.graph, by rw [load, hrun]⟩
  | none =>
    rw [hverdict] at hrun
    obtain ⟨id, s', hrun, hs'⟩ := hrun
    exact ⟨id, s'.graph, by rw [load, hrun], hs'.pending⟩

theorem endsWith_loadAll (limits : Limits) (h₀ : g₀.Settled) (ps : List Ast.Package) {g : Graph}
    (h : Pending g₀ g) :
    EndsWith (Pending g₀) (loadAll limits ps) g (firstError? limits (ps.flatMap (·.rules))) := by
  induction ps generalizing g with
  | nil => exact ⟨[], g, rfl, h⟩
  | cons p rest ih =>
    rw [List.flatMap_cons, firstError?_append, loadAll]
    exact endsWith_bind (endsWith_load limits h₀ p h) fun id g' hg' => (ih hg').of_value (id :: ·)

end Analysis

namespace Analyzer

variable {limits : Limits} {a : Analyzer}

section Answers

variable {α : Type} {e? : Option Error} {answer : Except Error α}

/-- An answer is a given error, or if there is none, a success. -/
def Answers (answer : Except Error α) : Option Error → Prop
  | none => ∃ x, answer = .ok x
  | some e => answer = .error e

theorem Answers.ok_iff (h : Answers answer e?) : (∃ x, answer = .ok x) ↔ e? = none := by
  cases e? with
  | none => exact iff_of_true h rfl
  | some e =>
    obtain rfl : answer = .error e := h
    simp

theorem Answers.error_iff (h : Answers answer e?) {e : Error} :
    answer = .error e ↔ e? = some e := by
  cases e? with
  | none =>
    obtain ⟨x, rfl⟩ := h
    simp
  | some e' =>
    obtain rfl : answer = .error e' := h
    simp

end Answers

theorem Reachable.limits_eq (h : Reachable limits a) : a.limits = limits := by
  induction h with
  | new => rfl
  | @call a _ c ih =>
    have hstaged : ∀ {α : Type} (body : Loading α), (a.staged body).2.limits = a.limits := by
      intro α body
      rw [staged]
      cases body a.graph.checkpoint <;> rfl
    rw [call_eq]
    cases c.content with
    | ok ps => exact (hstaged _).trans ih
    | error e => exact ih

theorem answers_staged {α : Type} {P : Graph → Prop} {body : Loading α} {e? : Option Error}
    (h : EndsWith P body a.graph.checkpoint e?) : Answers (a.staged body).1 e? := by
  rw [staged]
  cases e? with
  | some e =>
    obtain ⟨g, hrun⟩ := h
    simp only [hrun, Answers]
  | none =>
    obtain ⟨x, g, hrun, -⟩ := h
    simp only [hrun]
    exact ⟨x, rfl⟩

/-- **The answer to a call follows from the verdicts on its rules.** -/
theorem addPackages_verdict (h : a.graph.Settled) (ps : List Ast.Package) :
    Answers (a.addPackages ps).1 (firstError? a.limits (ps.flatMap (·.rules))) :=
  answers_staged (endsWith_loadAll a.limits h ps (.checkpoint h))

/-- What one analyzer accepts, any other one with the same limits accepts. -/
theorem Reachable.accepts (h : Reachable limits a) {b : Analyzer} (h' : Reachable limits b)
    {c : Call} {ids : List ComponentId} (hok : (a.call c).1 = .ok ids) :
    ∃ ids', (b.call c).1 = .ok ids' := by
  rw [call_eq] at hok ⊢
  cases hcontent : c.content with
  | error e => simp [hcontent] at hok
  | ok ps =>
    have hverdict := addPackages_verdict h.settled ps
    have hverdict' := addPackages_verdict h'.settled ps
    rw [h.limits_eq] at hverdict
    rw [h'.limits_eq] at hverdict'
    simp only [hcontent] at hok ⊢
    cases hresult : (a.addPackages ps).1 with
    | error e => simp [hresult, Except.mapError] at hok
    | ok new =>
      obtain ⟨new', hresult'⟩ := hverdict'.ok_iff.mpr (hverdict.ok_iff.mp ⟨new, hresult⟩)
      exact ⟨new', by rw [hresult']; rfl⟩

/-! ## Rules one by one -/

/-- What a new analyzer answers to a rule that is alone in a package. -/
def alone (limits : Limits) (name : String) (r : Ast.Rule) : Except Error ComponentId :=
  (addPackage { limits } ⟨name, [r]⟩).1

theorem alone_verdict (limits : Limits) (name : String) (r : Ast.Rule) :
    Answers (alone limits name r) (verdict? limits r) := by
  have hend := endsWith_load limits settled_empty ⟨name, [r]⟩ (.checkpoint settled_empty)
  have hverdict : firstError? limits [r] = verdict? limits r := by
    rw [firstError?_cons, firstError?, List.findSome?_nil, Option.or_none]
  rw [← hverdict]
  exact answers_staged (a := { limits }) hend

/-- **Rules are judged one by one.** A call succeeds exactly if a new analyzer accepts each of its
rules alone, and otherwise it fails with the error of the first rule that is not accepted. -/
theorem Reachable.addPackages_isolated (h : Reachable limits a) (ps : List Ast.Package)
    (name : String) :
    ((∃ ids, (a.addPackages ps).1 = .ok ids) ↔
      ∀ r ∈ ps.flatMap (·.rules), ∃ id, alone limits name r = .ok id) ∧
    ∀ e, (a.addPackages ps).1 = .error e ↔
      ∃ before r after, ps.flatMap (·.rules) = before ++ r :: after ∧
        (∀ r' ∈ before, ∃ id, alone limits name r' = .ok id) ∧ alone limits name r = .error e := by
  have hcall := addPackages_verdict h.settled ps
  rw [h.limits_eq] at hcall
  simp only [hcall.ok_iff, hcall.error_iff, (alone_verdict limits name _).ok_iff,
    (alone_verdict limits name _).error_iff, firstError?]
  refine ⟨List.findSome?_eq_none_iff, fun e => ?_⟩
  rw [List.findSome?_eq_some_iff]
  constructor
  · rintro ⟨before, r, after, hrules, hr, hbefore⟩
    exact ⟨before, r, after, hrules, hbefore, hr⟩
  · rintro ⟨before, r, after, hrules, hbefore, hr⟩
    exact ⟨before, r, after, hrules, hr, hbefore⟩

/-- After a failed call, a bad rule is found behind a good one, as it is when it is alone. -/
theorem addPackages_isolated_peers :
    ((ofAdults.call (.package peers)).2.addPackages [adults, peers]).1 =
        .error ⟨"peer", 0, .unresolvedVariable "$a"⟩ ∧
      ∃ before r after, [adults, peers].flatMap (·.rules) = before ++ r :: after ∧
        (∀ r' ∈ before, ∃ id, alone {} "alone" r' = .ok id) ∧
        alone {} "alone" r = .error ⟨"peer", 0, .unresolvedVariable "$a"⟩ := by
  have hreach : Reachable {} (ofAdults.call (.package peers)).2 :=
    (Reachable.new.call (.package adults)).call (.package peers)
  have hfail : ((ofAdults.call (.package peers)).2.addPackages [adults, peers]).1 =
      .error ⟨"peer", 0, .unresolvedVariable "$a"⟩ := by decide +kernel
  exact ⟨hfail, ((hreach.addPackages_isolated [adults, peers] "alone").2 _).mp hfail⟩

/-! ## Well-formed rules -/

/-- **A call is accepted exactly if its rules are well-formed and go beyond no limit.** -/
theorem addPackages_ok_iff (h : a.graph.Settled) (ps : List Ast.Package) :
    (∃ ids, (a.addPackages ps).1 = .ok ids) ↔
      ∀ r ∈ ps.flatMap (·.rules), r.WellFormed ∧ r.Fits a.limits := by
  rw [(addPackages_verdict h ps).ok_iff, firstError?, List.findSome?_eq_none_iff]
  exact forall₂_congr fun r _ => verdict?_eq_none_iff

/-- **Only well-formed rules are accepted, and well-formed rules fail for a limit only.** -/
theorem Reachable.addPackages_wellFormed (h : Reachable limits a) (ps : List Ast.Package) :
    (∀ ids, (a.addPackages ps).1 = .ok ids → ∀ r ∈ ps.flatMap (·.rules), r.WellFormed) ∧
      ∀ e, (a.addPackages ps).1 = .error e → ∃ r ∈ ps.flatMap (·.rules),
        e.rule = r.name ∧ e.line = r.line ∧
          (r.WellFormed → ∃ limit cap actual, e.fault = .limitExceeded limit cap actual) := by
  constructor
  · intro ids hok r hr
    exact ((addPackages_ok_iff h.settled ps).mp ⟨ids, hok⟩ r hr).1
  · intro e hfail
    rw [(addPackages_verdict h.settled ps).error_iff] at hfail
    obtain ⟨r, hr, hverdict⟩ := List.exists_of_findSome?_eq_some hfail
    exact ⟨r, hr, exceeds_of_verdict? hverdict⟩

/-- The rule about tenants is accepted and so well-formed, although a limit may keep it out; a rule
that fails for something else is not. -/
theorem addPackages_wellFormed_tenants :
    (ofAdults.addPackages [tenants]).1 = .ok [9] ∧ tenant.WellFormed ∧
      ((call { limits := { maxNestingDepth := 3 } } (.package adults)).2.addPackages [tenants]).1 =
        .error ⟨"tenant", 0, .limitExceeded .nestingDepth 3 4⟩ ∧
      (ofAdults.addPackages [tenants, peers]).1 =
        .error ⟨"peer", 0, .unresolvedVariable "$a"⟩ ∧
      ∃ r ∈ tenants.rules ++ peers.rules, r.name = "peer" ∧ ¬r.WellFormed := by
  have hreach : Reachable {} ofAdults := Reachable.new.call _
  have hok : (ofAdults.addPackages [tenants]).1 = .ok [9] := by decide +kernel
  have hwell := (Reachable.addPackages_wellFormed hreach [tenants]).1 _ hok
  have hfail : (ofAdults.addPackages [tenants, peers]).1 =
      .error ⟨"peer", 0, .unresolvedVariable "$a"⟩ := by decide +kernel
  obtain ⟨r, hr, hname, -, hlimit⟩ :=
    (Reachable.addPackages_wellFormed hreach [tenants, peers]).2 _ hfail
  refine ⟨hok, hwell tenant (List.mem_singleton_self _), by decide +kernel, hfail, r, hr,
    hname.symm, fun hr => ?_⟩
  obtain ⟨limit, cap, actual, hfault⟩ := hlimit hr
  cases hfault

end Analyzer

end RuleBase

import RuleBase.Proofs.Ast.Spelling
import RuleBase.Proofs.Graph.Table
import RuleBase.Proofs.Json.Roundtrip

/-!
# Reading spellings

A document is read by looking its members up, so neither their order nor those that nobody asks for
make a difference, and a member that is not found stands for its default. Values become less deep
from node to node, hence the bound on the nesting of nodes is never met where the bound on the depth
of the text was not.

* `Answers`, `Given.answers`, **`Written.ofJson?`**: what looking up a member finds;
* `IsObject.ofJson?`, **`IsNode.ofNode?`**, `IsUnknown.ofNode?`: objects and nodes;
* **`readDocument_of_spelling`**: documents.
-/

namespace RuleBase.Ast

/-! ## Members -/

/-- What can be looked up for a slot: a value that tells its content, nested at most so deep, or
nothing if the slot holds its default. -/
def Answers (d : Nat) (fs : Fields) (slot : Slot) : Prop :=
  (∃ j, fs.lookup slot.name = some j ∧ slot.Tells j ∧ j.depth ≤ d) ∨
    (fs.lookup slot.name = none ∧ slot.Omissible)

theorem Answers.congr {d : Nat} {fs fs' : Fields} {slot : Slot} (h : Answers d fs slot)
    (heq : fs'.lookup slot.name = fs.lookup slot.name) : Answers d fs' slot := by
  rwa [Answers, heq]

theorem Answers.mono {d d' : Nat} {fs : Fields} {slot : Slot} (h : Answers d fs slot)
    (hle : d ≤ d') : Answers d' fs slot :=
  h.imp_left fun ⟨j, hj, htells, hdepth⟩ => ⟨j, hj, htells, Nat.le_trans hdepth hle⟩

theorem lookup_eq_of_perm {l l' : Fields} (hnodup : (l.map Prod.fst).Nodup) (h : l.Perm l')
    (name : String) : l.lookup name = l'.lookup name := by
  have hnodup' : (l'.map Prod.fst).Nodup := (h.map Prod.fst).nodup_iff.mp hnodup
  refine Option.ext fun j => ⟨fun hj => ?_, fun hj => ?_⟩
  · exact Table.lookup_of_mem hnodup' (h.mem_iff.mp (Table.mem_of_lookup hj))
  · exact Table.lookup_of_mem hnodup (h.mem_iff.mpr (Table.mem_of_lookup hj))

theorem lookup_filter {names : List String} {name : String} (h : name ∈ names) (l : Fields) :
    (l.filter fun m => names.contains m.1).lookup name = l.lookup name := by
  induction l with
  | nil => rfl
  | cons m l ih =>
    rw [Table.lookup_cons_eq]
    by_cases hm : name = m.1
    · subst hm
      rw [if_pos rfl, List.filter_cons_of_pos (by simpa using h), Table.lookup_cons_eq, if_pos rfl]
    · rw [if_neg hm, ← ih, List.filter_cons]
      split
      · rw [Table.lookup_cons_eq, if_neg hm]
      · rfl

theorem Given.sublist_names {slots : List Slot} {members : List (String × Json)}
    (h : Given slots members) : (members.map Prod.fst).Sublist (slots.map Slot.name) := by
  induction h with
  | nil => exact .slnil
  | tell _ _ ih => exact ih.cons_cons _
  | skip _ _ ih => exact ih.cons _

theorem Given.answers {slots : List Slot} {members : List (String × Json)} {d : Nat}
    (h : Given slots members) (hnodup : (slots.map Slot.name).Nodup)
    (hdepth : ∀ m ∈ members, m.2.depth ≤ d) : ∀ slot ∈ slots, Answers d members slot := by
  induction h with
  | nil => simp
  | @tell slot slots j members htells hrest ih =>
    obtain ⟨hnot, hnodup⟩ := List.nodup_cons.mp hnodup
    obtain ⟨hj, hdepth⟩ := List.forall_mem_cons.mp hdepth
    refine List.forall_mem_cons.mpr ⟨.inl ⟨j, ?_, htells, hj⟩, fun other hother => ?_⟩
    · rw [Table.lookup_cons_eq, if_pos rfl]
    · have hne : other.name ≠ slot.name := fun heq =>
        hnot (heq ▸ List.mem_map_of_mem hother)
      exact (ih hnodup hdepth other hother).congr (by rw [Table.lookup_cons_eq, if_neg hne])
  | @skip slot slots members homissible hrest ih =>
    obtain ⟨hnot, hnodup⟩ := List.nodup_cons.mp hnodup
    refine List.forall_mem_cons.mpr ⟨.inr ⟨?_, homissible⟩, ih hnodup hdepth⟩
    exact Table.lookup_eq_none_of_notMem fun hmem => hnot (hrest.sublist_names.subset hmem)

/-- **Whatever the order of the members, and whatever other members there are**, the known ones are
found. -/
theorem Written.ofJson? {slots : List Slot} {members : List (String × Json)} {names : List String}
    {d : Nat} (h : Written slots members) (hnodup : (slots.map Slot.name).Nodup)
    (hnames : names ⊆ slots.map Slot.name) (hdepth : ∀ m ∈ members, m.2.depth ≤ d) :
    ∃ fs, Fields.ofJson? names (.object members) = some fs ∧
      ∀ slot ∈ slots, slot.name ∈ names → Answers d fs slot := by
  obtain ⟨given, extra, hperm, hgiven, hextra⟩ := h
  have hperm' : (members.filter fun m => names.contains m.1).Perm
      (given.filter fun m => names.contains m.1) := by
    have hnone : (extra.filter fun m => names.contains m.1) = [] :=
      List.filter_eq_nil_iff.mpr fun m hm => by
        simpa using fun hname => hextra m hm (hnames hname)
    have hfilter := hperm.filter fun m => names.contains m.1
    rwa [List.filter_append, hnone, List.append_nil] at hfilter
  have hknown : ((members.filter fun m => names.contains m.1).map Prod.fst).Nodup := by
    have hgiven' : (given.map Prod.fst).Nodup := hnodup.sublist hgiven.sublist_names
    exact (hperm'.map Prod.fst).nodup_iff.mpr (hgiven'.sublist (List.filter_sublist.map Prod.fst))
  refine ⟨_, if_pos hknown, fun slot hslot hname => ?_⟩
  have hgivenDepth : ∀ m ∈ given, m.2.depth ≤ d := fun m hm =>
    hdepth m (hperm.mem_iff.mpr (List.mem_append_left _ hm))
  refine (hgiven.answers hnodup hgivenDepth slot hslot).congr ?_
  rw [lookup_eq_of_perm hknown hperm', lookup_filter hname]

/-! ## Objects and nodes -/

theorem depth_members {members : List (String × Json)} {bound : Nat}
    (h : (Json.object members).depth ≤ bound) :
    ∃ d, bound = d + 1 ∧ ∀ m ∈ members, m.2.depth ≤ d := by
  cases bound with
  | zero => cases h
  | succ d => exact ⟨d, rfl, Json.depth_object_le.mp h⟩

theorem IsObject.ofJson? {slots : List Slot} {j : Json} {bound : Nat} {names : List String}
    (h : IsObject slots j) (hdepth : j.depth ≤ bound) (hnodup : names.Nodup)
    (hnames : slots.map Slot.name = names) :
    ∃ d fs, bound = d + 1 ∧ Fields.ofJson? names j = some fs ∧
      ∀ slot ∈ slots, Answers d fs slot := by
  subst hnames
  obtain ⟨members, rfl, hwritten⟩ := h
  obtain ⟨d, hd, hmembers⟩ := depth_members hdepth
  obtain ⟨fs, hfs, hanswers⟩ := hwritten.ofJson? hnodup (List.Subset.refl _) hmembers
  exact ⟨d, fs, hd, hfs, fun slot hslot => hanswers slot hslot (List.mem_map_of_mem hslot)⟩

theorem IsNode.filter_kind {kind : String} {slots : List Slot} {members : List (String × Json)}
    (h : Written (.required "kind" (.string kind) :: slots) members)
    (hkind : "kind" ∉ slots.map Slot.name) :
    members.filter (·.1 == "kind") = [("kind", .string kind)] := by
  obtain ⟨given, extra, hperm, hgiven, hextra⟩ := h
  have hextra' : extra.filter (·.1 == "kind") = [] :=
    List.filter_eq_nil_iff.mpr fun m hm => by
      have hother : m.1 ≠ "kind" := (List.ne_and_not_mem_of_not_mem_cons (hextra m hm)).1
      simpa using hother
  -- the tag has no default, and no slot behind it has its name
  have hgiven' : given.filter (·.1 == "kind") = [("kind", .string kind)] := by
    cases hgiven with
    | skip homissible _ => exact absurd homissible id
    | @tell _ _ j members htells hrest =>
      obtain rfl : j = .string kind := htells
      have hothers : members.filter (·.1 == "kind") = [] :=
        List.filter_eq_nil_iff.mpr fun m hm => by
          have hname : m.1 ≠ "kind" := fun heq =>
            hkind (heq ▸ hrest.sublist_names.subset (List.mem_map_of_mem hm))
          simpa using hname
      rw [List.filter_cons_of_pos (by rfl), hothers]
      rfl
  have hfilter := hperm.filter (·.1 == "kind")
  rw [List.filter_append, hgiven', hextra', List.append_nil] at hfilter
  exact List.perm_singleton.mp hfilter

/-- The known members of a node are its tag and others, each of another name. -/
def Shapes.Distinct (shapes : Shapes) : Prop := ∀ shape ∈ shapes, ("kind" :: shape.2).Nodup

instance (shapes : Shapes) : Decidable shapes.Distinct :=
  inferInstanceAs (Decidable (∀ shape ∈ shapes, ("kind" :: shape.2).Nodup))

/-- **A node is read by its kind**, wherever that stands. -/
theorem IsNode.ofNode? {shapes : Shapes} {kind : String} {slots : List Slot} {j : Json}
    {bound : Nat} (hshapes : shapes.Distinct) (h : IsNode kind slots j) (hdepth : j.depth ≤ bound)
    (hshape : shapes.find? (·.1 == kind) = some (kind, slots.map Slot.name)) :
    ∃ d fs, bound = d + 1 ∧ Fields.ofNode? shapes j = some (kind, fs) ∧
      ∀ slot ∈ slots, Answers d fs slot := by
  obtain ⟨members, rfl, hwritten⟩ := h
  obtain ⟨d, hd, hmembers⟩ := depth_members hdepth
  have hnodup := hshapes _ (List.mem_of_find?_eq_some hshape)
  obtain ⟨fs, hfs, hanswers⟩ := hwritten.ofJson? hnodup (List.subset_cons_self _ _) hmembers
  refine ⟨d, fs, hd, ?_, fun slot hslot =>
    hanswers slot (List.mem_cons_of_mem _ hslot) (List.mem_map_of_mem hslot)⟩
  rw [Fields.ofNode?, IsNode.filter_kind hwritten (List.nodup_cons.mp hnodup).1]
  simp [kindOf?, hshape, hfs]

/-- **A node of an unknown kind is read as unknown**, whatever its members are. -/
theorem IsUnknown.ofNode? {shapes : Shapes} {j : Json} {bound : Nat} (h : IsUnknown shapes j)
    (hdepth : j.depth ≤ bound) :
    ∃ d, bound = d + 1 ∧ Fields.ofNode? shapes j = some ("", []) := by
  obtain ⟨kind, hkind, members, rfl, hwritten⟩ := h
  obtain ⟨d, hd, -⟩ := depth_members hdepth
  have hshape : shapes.find? (·.1 == kind) = none := by
    refine List.find?_eq_none.mpr fun shape hshape heq => hkind ?_
    exact eq_of_beq heq ▸ List.mem_map_of_mem hshape
  refine ⟨d, hd, ?_⟩
  rw [Fields.ofNode?, IsNode.filter_kind hwritten List.not_mem_nil]
  simp [kindOf?, hshape]

/-! ## Lists -/

theorem mapM_eq_some_of_forall₂ {α : Type} {Tells : α → Json → Prop} {read : Json → Option α}
    {as : List α} {items : List Json} (h : List.Forall₂ Tells as items)
    (hread : ∀ a ∈ as, ∀ j ∈ items, Tells a j → read j = some a) : items.mapM read = some as := by
  induction h with
  | nil => rfl
  | @cons a j as items htells _ ih =>
    have hfirst := hread a List.mem_cons_self j List.mem_cons_self htells
    have hothers := ih fun a ha j hj =>
      hread a (List.mem_cons_of_mem _ ha) j (List.mem_cons_of_mem _ hj)
    simp [hfirst, hothers]

section Listed

variable {α : Type} {Spelled : α → Json → Prop} {Listed : List α → List Json → Prop}

/-- What a recursion on the list says of its items holds of them one by one. -/
theorem forall₂_of_listed (hnil : ∀ {items}, Listed [] items → items = [])
    (hcons : ∀ {a rest items}, Listed (a :: rest) items →
      ∃ j others, items = j :: others ∧ Spelled a j ∧ Listed rest others)
    {as : List α} {items : List Json} (h : Listed as items) : List.Forall₂ Spelled as items := by
  induction as generalizing items with
  | nil =>
    obtain rfl := hnil h
    exact .nil
  | cons a rest ih =>
    obtain ⟨j, others, rfl, ha, hrest⟩ := hcons h
    exact .cons ha (ih hrest)

end Listed

theorem forall₂_of_restrictionsSpelled {rs : List Restriction} {items : List Json}
    (h : restrictionsSpelled rs items) : List.Forall₂ Restriction.Spelled rs items :=
  forall₂_of_listed id id h

theorem forall₂_of_invokersSpelled {is : List Invoker} {items : List Json}
    (h : invokersSpelled is items) : List.Forall₂ Invoker.Spelled is items :=
  forall₂_of_listed id id h

theorem forall₂_of_elementsSpelled {es : List Element} {items : List Json}
    (h : elementsSpelled es items) : List.Forall₂ Element.Spelled es items :=
  forall₂_of_listed id id h

section Values

variable {α : Type} {d : Nat} {fs : Fields} {name : String} {read : Json → Option α}

theorem Answers.lookup {Tells : Json → Prop} {Omissible : Prop}
    (h : Answers d fs ⟨name, Tells, Omissible⟩) :
    (∃ j, fs.lookup name = some j ∧ Tells j ∧ j.depth ≤ d) ∨
      (fs.lookup name = none ∧ Omissible) := h

theorem Answers.required {Tells : Json → Prop} {a : α} (h : Answers d fs ⟨name, Tells, False⟩)
    (hread : ∀ j, Tells j → j.depth ≤ d → read j = some a) : fs.required name read = some a := by
  obtain ⟨j, hj, htells, hdepth⟩ | ⟨-, homissible⟩ := h.lookup
  · rw [Fields.required, hj, Option.bind_some, hread j htells hdepth]
  · exact absurd homissible id

theorem Answers.text {s : String} (h : Answers d fs (.required name (.string s))) :
    fs.required name string? = some s :=
  Answers.required h fun j hj _ => by rw [hj, string?]

theorem Answers.withDefault {j dflt : Json} {a default : α}
    (h : Answers d fs (.withDefault name dflt j)) (hread : read j = some a)
    (hdefault : read dflt = some default) : fs.withDefault name default read = some a := by
  obtain ⟨j', hj, rfl, -⟩ | ⟨hj, rfl⟩ := Answers.lookup h
  · rw [Fields.withDefault, hj]
    exact hread
  · rw [Fields.withDefault, hj]
    exact hdefault.symm.trans hread

theorem Answers.optional {text : Option String} (h : Answers d fs (.optional name text)) :
    fs.nullable name string? = some text := by
  obtain ⟨j, hj, rfl, -⟩ | ⟨hj, homissible⟩ := Answers.lookup h
  · rw [Fields.nullable, hj]
    cases text <;> rfl
  · rw [Fields.nullable, hj]
    cases text with
    | none => rfl
    | some s => cases homissible

theorem Answers.absent {Omissible : Prop} (h : Answers d fs ⟨name, (· = .null), Omissible⟩) :
    fs.nullable name read = some none := by
  obtain ⟨j, hj, rfl, -⟩ | ⟨hj, -⟩ := h.lookup <;> rw [Fields.nullable, hj]

theorem Answers.present {Tells : Json → Prop} {Omissible : Prop} {a : α}
    (h : Answers d fs ⟨name, Tells, Omissible⟩) (hpresent : ¬Omissible) (hnull : ¬Tells .null)
    (hread : ∀ j, Tells j → j.depth ≤ d → read j = some a) :
    fs.nullable name read = some (some a) := by
  obtain ⟨j, hj, htells, hdepth⟩ | ⟨-, homissible⟩ := h.lookup
  · have hne : j ≠ .null := by
      rintro rfl
      exact hnull htells
    have hmap : (read j).map some = some (some a) := by rw [hread j htells hdepth, Option.map_some]
    rw [Fields.nullable, hj]
    cases j with
    | null => exact absurd rfl hne
    | _ => exact hmap
  · exact absurd homissible hpresent

theorem Answers.textByDefault {s : String}
    (h : Answers d fs (.withDefault name (.string "") (.string s))) :
    fs.withDefault name "" string? = some s :=
  Answers.withDefault h rfl rfl

theorem Answers.flag {b : Bool} (h : Answers d fs (.withDefault name (.bool false) (.bool b))) :
    fs.withDefault name false bool? = some b :=
  Answers.withDefault h rfl rfl

theorem Answers.line {n : Nat} (h : Answers d fs (.line n)) (hn : n < lineBound) :
    fs.withDefault "line" 0 line? = some n := by
  refine Answers.withDefault h ?_ rfl
  have hrange : 0 ≤ (n : Int) ∧ (n : Int) < 18446744073709551616 := by
    rw [lineBound] at hn
    omega
  rw [Json.nat, line?, if_pos hrange, Int.toNat_natCast]

theorem Answers.nodes {as : List α} {Tells : List Json → Prop} {Spelled : α → Json → Prop}
    (h : Answers d fs (.nodes name as Tells))
    (hspelled : ∀ items, Tells items → List.Forall₂ Spelled as items)
    (hread : ∀ a ∈ as, ∀ j, Spelled a j → j.depth ≤ d → read j = some a) :
    fs.withDefault name [] (list? read) = some as := by
  obtain ⟨_, hj, ⟨items, rfl, htells⟩, hdepth⟩ | ⟨hj, rfl⟩ := Answers.lookup h
  · have hitems : ∀ item ∈ items, item.depth ≤ d := by
      refine Json.depthOfItems_le_iff.mp ?_
      rw [Json.depth] at hdepth
      omega
    rw [Fields.withDefault, hj]
    exact mapM_eq_some_of_forall₂ (hspelled items htells) fun a ha j hj hspelled =>
      hread a ha j hspelled (hitems j hj)
  · rw [Fields.withDefault, hj]

end Values

/-! ## Restrictions and invokers -/

theorem Restriction.distinct_shapes : Restriction.shapes.Distinct := by decide

theorem ofJson?_comparison {evaluator : String} {negated : Bool} {operand : Operand} {bound : Nat}
    {j : Json} (h : (Restriction.comparison evaluator negated operand).Spelled j)
    (hdepth : j.depth ≤ bound) :
    Restriction.ofJson? bound j = some (.comparison evaluator negated operand) := by
  have hshape : Restriction.shapes.find? (·.1 == operand.kind) =
      some (operand.kind, "evaluator" :: "negated" :: operand.slots.map Slot.name) := by
    cases operand <;> rfl
  obtain ⟨d, fs, rfl, hfs, hanswers⟩ := IsNode.ofNode? Restriction.distinct_shapes h hdepth hshape
  obtain ⟨hevaluator, hanswers⟩ := List.forall_mem_cons.mp hanswers
  obtain ⟨hnegated, hoperand⟩ := List.forall_mem_cons.mp hanswers
  have hcomparison : comparison? fs operand = some (.comparison evaluator negated operand) := by
    simp [comparison?, hevaluator.text, hnegated.flag]
  cases operand with
  | literal text =>
    simp only [Operand.slots, List.forall_mem_cons] at hoperand
    simp [Restriction.ofJson?, hfs, Operand.kind, hoperand.1.optional, hcomparison]
  | var identifier =>
    simp only [Operand.slots, List.forall_mem_cons] at hoperand
    simp [Restriction.ofJson?, hfs, Operand.kind, hoperand.1.text, hcomparison]
  | returnValue content declarations method =>
    simp only [Operand.slots, List.forall_mem_cons] at hoperand
    obtain ⟨hcontent, hdeclarations, hmethod, -⟩ := hoperand
    have hlist : fs.withDefault "declarations" [] (list? string?) = some declarations := by
      refine hdeclarations.withDefault ?_ rfl
      have hstrings := @forall₂_map String (fun s j => j = .string s) .string (fun _ => rfl)
        declarations
      exact mapM_eq_some_of_forall₂ hstrings fun s _ j _ hj => by rw [hj, string?]
    simp [Restriction.ofJson?, hfs, Operand.kind, hcontent.text, hlist, hmethod.optional,
      hcomparison]
  | qualified text =>
    simp only [Operand.slots, List.forall_mem_cons] at hoperand
    simp [Restriction.ofJson?, hfs, Operand.kind, hoperand.1.text, hcomparison]

theorem Restriction.ofJson?_of_spelled {r : Restriction} {bound : Nat} {j : Json}
    (h : r.Spelled j) (hdepth : j.depth ≤ bound) : Restriction.ofJson? bound j = some r := by
  cases r with
  | comparison evaluator negated operand => exact ofJson?_comparison h hdepth
  | group connective restrictions =>
    obtain ⟨d, fs, rfl, hfs, hanswers⟩ := IsNode.ofNode? Restriction.distinct_shapes h hdepth rfl
    simp only [List.forall_mem_cons] at hanswers
    obtain ⟨hconnective, hrestrictions, -⟩ := hanswers
    have hword : fs.required "connective" connective? = some connective :=
      Answers.required hconnective fun j hj _ => by
        rw [hj]
        cases connective <;> rfl
    have hnodes : fs.withDefault "restrictions" [] (list? (Restriction.ofJson? d)) =
        some restrictions :=
      hrestrictions.nodes (fun _ => forall₂_of_restrictionsSpelled) fun r hr j hj hdepth =>
        ofJson?_of_spelled hj hdepth
    simp [Restriction.ofJson?, hfs, hword, hnodes]
  | unknown =>
    obtain ⟨d, rfl, hfs⟩ := IsUnknown.ofNode? h hdepth
    simp [Restriction.ofJson?, hfs]

theorem Invoker.distinct_shapes : Invoker.shapes.Distinct := by decide

theorem Invoker.ofJson?_of_spelled {i : Invoker} {bound : Nat} {j : Json} (h : i.Spelled j)
    (hdepth : j.depth ≤ bound) : Invoker.ofJson? bound j = some i := by
  cases i with
  | fieldAccess name argument =>
    obtain ⟨d, fs, rfl, hfs, hanswers⟩ := IsNode.ofNode? Invoker.distinct_shapes h hdepth rfl
    simp only [List.forall_mem_cons] at hanswers
    obtain ⟨hname, hargument, -⟩ := hanswers
    simp [Invoker.ofJson?, hfs, hname.text, hargument.optional]
  | methodAccess name arguments =>
    obtain ⟨d, fs, rfl, hfs, hanswers⟩ := IsNode.ofNode? Invoker.distinct_shapes h hdepth rfl
    simp only [List.forall_mem_cons] at hanswers
    obtain ⟨hname, harguments, -⟩ := hanswers
    simp [Invoker.ofJson?, hfs, hname.text, harguments.textByDefault]
  | functionCall name arguments =>
    obtain ⟨d, fs, rfl, hfs, hanswers⟩ := IsNode.ofNode? Invoker.distinct_shapes h hdepth rfl
    simp only [List.forall_mem_cons] at hanswers
    obtain ⟨hname, harguments, -⟩ := hanswers
    simp [Invoker.ofJson?, hfs, hname.text, harguments.textByDefault]
  | accessor name invokers =>
    obtain ⟨d, fs, rfl, hfs, hanswers⟩ := IsNode.ofNode? Invoker.distinct_shapes h hdepth rfl
    simp only [List.forall_mem_cons] at hanswers
    obtain ⟨hname, hinvokers, -⟩ := hanswers
    have hnodes : fs.withDefault "invokers" [] (list? (Invoker.ofJson? d)) = some invokers :=
      hinvokers.nodes (fun _ => forall₂_of_invokersSpelled) fun i hi j hj hdepth =>
        ofJson?_of_spelled hj hdepth
    simp [Invoker.ofJson?, hfs, hname.text, hnodes]
  | unknown =>
    obtain ⟨d, rfl, hfs⟩ := IsUnknown.ofNode? h hdepth
    simp [Invoker.ofJson?, hfs]

/-! ## Elements -/

theorem Element.distinct_shapes : Element.shapes.Distinct := by decide

theorem Source.distinct_shapes : Source.shapes.Distinct := by decide

theorem Accumulation.ofFields?_eq {a : Accumulation} {d : Nat} {fs : Fields}
    (h : ∀ slot ∈ a.slots, Answers d fs slot) : Accumulation.ofFields? fs = some a := by
  simp only [Accumulation.slots, List.forall_mem_cons] at h
  obtain ⟨hinit, haction, hreverse, hresult, hclass, hexternal, hfunction, hexpression, -⟩ := h
  simp [Accumulation.ofFields?, hinit.optional, haction.optional, hreverse.optional,
    hresult.optional, hclass.optional, hexternal.flag, hfunction.optional, hexpression.optional]

theorem names_slots (p : Pattern) : p.slots.map Slot.name = Pattern.names := by
  cases p
  rfl

theorem Source.not_spelled_null (s : Source) : ¬s.Spelled .null := by
  cases s <;> simp [Source.Spelled, IsUnknown, IsNode, IsObject]

mutual
theorem Element.ofJson?_of_spelled {e : Element} {bound : Nat} {j : Json} (h : e.Spelled j)
    (hrange : e.InRange) (hdepth : j.depth ≤ bound) : Element.ofJson? bound j = some e := by
  match e with
  | .pattern p =>
    rw [Element.InRange] at hrange
    obtain ⟨d, fs, rfl, hfs, hanswers⟩ := IsNode.ofNode? Element.distinct_shapes h hdepth
      (by rw [names_slots]; rfl)
    simp [Element.ofJson?, hfs, Pattern.ofFields?_eq hanswers hrange]
  | .group connective elements =>
    rw [Element.InRange] at hrange
    obtain ⟨d, fs, rfl, hfs, hanswers⟩ := IsNode.ofNode? Element.distinct_shapes h hdepth
      (by cases connective <;> rfl)
    have hnodes : fs.withDefault "descrs" [] (list? (Element.ofJson? d)) = some elements :=
      (hanswers _ List.mem_cons_self).nodes (fun _ => forall₂_of_elementsSpelled)
        fun e he j hj hdepth => Element.ofJson?_of_spelled hj (hrange e he) hdepth
    cases connective <;> simp [Element.ofJson?, hfs, Connective.keyword, hnodes]
  | .quantified quantifier elements =>
    rw [Element.InRange] at hrange
    obtain ⟨d, fs, rfl, hfs, hanswers⟩ := IsNode.ofNode? Element.distinct_shapes h hdepth
      (by cases quantifier <;> rfl)
    have hnodes : fs.withDefault "descrs" [] (list? (Element.ofJson? d)) = some elements :=
      (hanswers _ List.mem_cons_self).nodes (fun _ => forall₂_of_elementsSpelled)
        fun e he j hj hdepth => Element.ofJson?_of_spelled hj (hrange e he) hdepth
    cases quantifier <;> simp [Element.ofJson?, hfs, quantifierKind, hnodes]
  | .eval content method =>
    obtain ⟨d, fs, rfl, hfs, hanswers⟩ := IsNode.ofNode? Element.distinct_shapes h hdepth rfl
    simp only [List.forall_mem_cons] at hanswers
    obtain ⟨hcontent, hmethod, -⟩ := hanswers
    simp [Element.ofJson?, hfs, hcontent.text, hmethod.optional]
  | .constraint fieldName restrictions line =>
    rw [Element.InRange] at hrange
    obtain ⟨d, fs, rfl, hfs, hanswers⟩ := IsNode.ofNode? Element.distinct_shapes h hdepth rfl
    simp only [List.forall_mem_cons] at hanswers
    obtain ⟨hname, hrestrictions, hline, -⟩ := hanswers
    have hnodes : fs.withDefault "restrictions" [] (list? (Restriction.ofJson? d)) =
        some restrictions :=
      hrestrictions.nodes (fun _ => forall₂_of_restrictionsSpelled) fun r _ j hj hdepth =>
        Restriction.ofJson?_of_spelled hj hdepth
    simp [Element.ofJson?, hfs, hname.text, hnodes, hline.line hrange]
  | .binding identifier fieldName line =>
    rw [Element.InRange] at hrange
    obtain ⟨d, fs, rfl, hfs, hanswers⟩ := IsNode.ofNode? Element.distinct_shapes h hdepth rfl
    simp only [List.forall_mem_cons] at hanswers
    obtain ⟨hidentifier, hname, hline, -⟩ := hanswers
    simp [Element.ofJson?, hfs, hidentifier.text, hname.text, hline.line hrange]
  | .predicate content method =>
    obtain ⟨d, fs, rfl, hfs, hanswers⟩ := IsNode.ofNode? Element.distinct_shapes h hdepth rfl
    simp only [List.forall_mem_cons] at hanswers
    obtain ⟨hcontent, hmethod, -⟩ := hanswers
    simp [Element.ofJson?, hfs, hcontent.text, hmethod.optional]
  | .unknown =>
    obtain ⟨d, rfl, hfs⟩ := IsUnknown.ofNode? h hdepth
    simp [Element.ofJson?, hfs]

theorem Pattern.ofFields?_eq {p : Pattern} {d : Nat} {fs : Fields}
    (h : ∀ slot ∈ p.slots, Answers d fs slot) (hrange : p.InRange) :
    Pattern.ofFields? (Element.ofJson? d) (Source.ofJson? d) fs = some p := by
  match p with
  | .mk objectType identifier none constraints line =>
    simp only [Pattern.slots, List.forall_mem_cons] at h
    obtain ⟨htype, hidentifier, hsource, hconstraints, hline, -⟩ := h
    rw [Pattern.InRange] at hrange
    obtain ⟨-, hrange, hlt⟩ := hrange
    have hnull : fs.nullable "source" (Source.ofJson? d) = some none := hsource.absent
    have hnodes : fs.withDefault "constraints" [] (list? (Element.ofJson? d)) = some constraints :=
      hconstraints.nodes (fun _ => forall₂_of_elementsSpelled) fun e he j hj hdepth =>
        Element.ofJson?_of_spelled hj (hrange e he) hdepth
    simp [Pattern.ofFields?, htype.text, hidentifier.optional, hnull, hnodes, hline.line hlt]
  | .mk objectType identifier (some source) constraints line =>
    simp only [Pattern.slots, List.forall_mem_cons] at h
    obtain ⟨htype, hidentifier, hsource, hconstraints, hline, -⟩ := h
    rw [Pattern.InRange] at hrange
    obtain ⟨hsourceRange, hrange, hlt⟩ := hrange
    have hread : fs.nullable "source" (Source.ofJson? d) = some (some source) :=
      hsource.present (Option.some_ne_none source) source.not_spelled_null fun j hj hdepth =>
        Source.ofJson?_of_spelled hj hsourceRange hdepth
    have hnodes : fs.withDefault "constraints" [] (list? (Element.ofJson? d)) = some constraints :=
      hconstraints.nodes (fun _ => forall₂_of_elementsSpelled) fun e he j hj hdepth =>
        Element.ofJson?_of_spelled hj (hrange e he) hdepth
    simp [Pattern.ofFields?, htype.text, hidentifier.optional, hread, hnodes, hline.line hlt]

theorem Source.ofJson?_of_spelled {s : Source} {bound : Nat} {j : Json} (h : s.Spelled j)
    (hrange : s.InRange) (hdepth : j.depth ≤ bound) : Source.ofJson? bound j = some s := by
  match s with
  | .accumulate input code =>
    rw [Source.InRange] at hrange
    obtain ⟨d, fs, rfl, hfs, hanswers⟩ := IsNode.ofNode? Source.distinct_shapes h hdepth rfl
    obtain ⟨hinput, hcode⟩ := List.forall_mem_cons.mp hanswers
    have hpattern := hinput.required fun j hj hdepth => pattern?_eq hj hrange hdepth
    simp [Source.ofJson?, hfs, hpattern, Accumulation.ofFields?_eq hcode]
  | .collect input method =>
    rw [Source.InRange] at hrange
    obtain ⟨d, fs, rfl, hfs, hanswers⟩ := IsNode.ofNode? Source.distinct_shapes h hdepth rfl
    simp only [List.forall_mem_cons] at hanswers
    obtain ⟨hinput, hmethod, -⟩ := hanswers
    have hpattern := hinput.required fun j hj hdepth => pattern?_eq hj hrange hdepth
    simp [Source.ofJson?, hfs, hpattern, hmethod.optional]
  | .supplied dataSource =>
    obtain ⟨d, fs, rfl, hfs, hanswers⟩ := IsNode.ofNode? Source.distinct_shapes h hdepth rfl
    have hsource : fs.required "data_source" (Invoker.ofJson? d) = some dataSource :=
      (hanswers _ List.mem_cons_self).required fun j hj hdepth =>
        Invoker.ofJson?_of_spelled hj hdepth
    simp [Source.ofJson?, hfs, hsource]
  | .unknown =>
    obtain ⟨d, rfl, hfs⟩ := IsUnknown.ofNode? h hdepth
    simp [Source.ofJson?, hfs]

theorem pattern?_eq {p : Pattern} {d : Nat} {j : Json} (h : IsObject p.slots j)
    (hrange : p.InRange) (hdepth : j.depth ≤ d) :
    ((Fields.ofJson? Pattern.names j).bind fun fs =>
      Pattern.ofFields? (Element.ofJson? d) (Source.ofJson? d) fs) = some p := by
  have hnodup : Pattern.names.Nodup := by decide
  obtain ⟨d', fs, rfl, hfs, hanswers⟩ := IsObject.ofJson? h hdepth hnodup (names_slots p)
  rw [hfs, Option.bind_some]
  exact Pattern.ofFields?_eq (fun slot hslot => (hanswers slot hslot).mono (Nat.le_succ _)) hrange
end

/-! ## Packages -/

theorem Rule.ofJson?_of_spelled {r : Rule} {bound : Nat} {j : Json} (h : r.Spelled j)
    (hrange : r.InRange) (hdepth : j.depth ≤ bound) : Rule.ofJson? bound j = some r := by
  have hnodup : ["name", "salience", "line", "lhs", "consequence"].Nodup := by decide
  obtain ⟨d, fs, rfl, hfs, hanswers⟩ := IsObject.ofJson? h hdepth hnodup rfl
  simp only [List.forall_mem_cons] at hanswers
  obtain ⟨hname, hsalience, hline, hlhs, hconsequence, -⟩ := hanswers
  have hnumber : fs.withDefault "salience" 0 salience? = some r.salience :=
    hsalience.withDefault (if_pos hrange.salience) rfl
  have hnodes : fs.withDefault "lhs" [] (list? (Element.ofJson? (d + 1))) = some r.lhs :=
    (hlhs.mono (Nat.le_succ d)).nodes (fun _ => forall₂_of_elementsSpelled) fun e he j hj hdepth =>
      Element.ofJson?_of_spelled hj (hrange.lhs e he) hdepth
  simp [Rule.ofJson?, hfs, hname.text, hnumber, hline.line hrange.line, hnodes,
    hconsequence.textByDefault]

theorem Package.ofJson?_of_spelled {p : Package} {bound : Nat} {j : Json} (h : p.Spelled j)
    (hrange : p.InRange) (hdepth : j.depth ≤ bound) : Package.ofJson? bound j = some p := by
  have hnodup : ["name", "rules"].Nodup := by decide
  obtain ⟨d, fs, rfl, hfs, hanswers⟩ := IsObject.ofJson? h hdepth hnodup rfl
  simp only [List.forall_mem_cons] at hanswers
  obtain ⟨hname, hrules, -⟩ := hanswers
  have hnodes : fs.withDefault "rules" [] (list? (Rule.ofJson? (d + 1))) = some p.rules :=
    (hrules.mono (Nat.le_succ d)).nodes (fun _ => id) fun r hr j hj hdepth =>
      Rule.ofJson?_of_spelled hj (hrange r hr) hdepth
  simp [Package.ofJson?, hfs, hname.text, hnodes]

/-! ## Documents -/

theorem packagesOfJson?_of_spelling {packages : List Package} {j : Json} (h : Spelling packages j)
    (hrange : ∀ p ∈ packages, p.InRange) (hdepth : j.depth ≤ maxDocumentDepth) :
    packagesOfJson? j = some packages := by
  obtain ⟨items, rfl, hitems⟩ | ⟨p, rfl, hp⟩ := h
  · have hbelow : ∀ item ∈ items, item.depth ≤ maxDocumentDepth := by
      refine Json.depthOfItems_le_iff.mp ?_
      rw [Json.depth] at hdepth
      omega
    have hread : list? (Package.ofJson? maxDocumentDepth) (.array items) = some packages :=
      mapM_eq_some_of_forall₂ hitems fun p hp j hj hspelled =>
        Package.ofJson?_of_spelled hspelled (hrange p hp) (hbelow j hj)
    rw [packagesOfJson?, hread, Option.some_or]
  · have hread := Package.ofJson?_of_spelled hp (hrange p List.mem_cons_self) hdepth
    obtain ⟨members, rfl, -⟩ := hp
    rw [packagesOfJson?, hread]
    rfl

theorem readDocument_of_read {text : String} {j : Json} {packages : List Package}
    (hread : Json.read maxDocumentDepth text = .ok j) (h : packagesOfJson? j = some packages) :
    readDocument text = .ok packages := by
  obtain ⟨rest, hvalue, hrest⟩ := Json.value_of_read hread
  simp [readDocument, hvalue, h, hrest]

/-- **What a document is read as depends on its content only.** The full rendering of some packages
is a spelling of them, and every text of a spelling is read as these packages: a text that holds the
spelling in whatever way, or the one that is written for it, if the spelling does not nest deeper
than texts may. -/
theorem readDocument_of_spelling {packages : List Package} (hrange : ∀ p ∈ packages, p.InRange) :
    Spelling packages (Json.list Package.toJson packages) ∧
      ∀ j, Spelling packages j →
        (∀ text, Json.read maxDocumentDepth text = .ok j → readDocument text = .ok packages) ∧
        (j.Writable → j.depth ≤ maxDocumentDepth → readDocument j.compress = .ok packages) := by
  refine ⟨spelling_list packages, fun j hj => ?_⟩
  have htext : ∀ text, Json.read maxDocumentDepth text = .ok j →
      readDocument text = .ok packages := fun text hread =>
    readDocument_of_read hread (packagesOfJson?_of_spelling hj hrange (Json.depth_of_read hread))
  exact ⟨htext, fun hwritable hdepth => htext _ (Json.read_compress hwritable hdepth)⟩

/-- A package of one rule, whose pattern has an unknown constraint. -/
def harbour : Package :=
  { name := "harbour"
    rules := [{ name := "arrival", lhs := [.pattern (.mk "Ship" none none [.unknown] 3)] }] }

/-- An object with some members and others that are unknown, the last ones first. -/
def reversed (given extra : List (String × Json)) : Json := .object (given ++ extra).reverse

/-- The package without a list, with members in reverse, left out and added. -/
def harbourSpelled : Json :=
  reversed [("name", .string "harbour"), ("rules", .array [
    reversed [("name", .string "arrival"), ("lhs", .array [
      reversed [("kind", .string "pattern"), ("object_type", .string "Ship"),
        ("constraints", .array [reversed [("kind", .string "window")] [("size", .int 10)]]),
        ("line", .int 3)] [("flag", .bool true)]])] [("version", .int 2)]])] [("author", .null)]

theorem Given.reversed {slots : List Slot} {given extra : List (String × Json)}
    (h : Given slots given) (hextra : ∀ m ∈ extra, m.1 ∉ slots.map Slot.name) :
    IsObject slots (reversed given extra) :=
  ⟨_, rfl, given, extra, List.reverse_perm _, h, hextra⟩

theorem readDocument_harbour : (∀ p ∈ [harbour], p.InRange) ∧ Spelling [harbour] harbourSpelled ∧
    readDocument harbourSpelled.compress = .ok [harbour] := by
  have hrange : ∀ p ∈ [harbour], p.InRange := by
    refine List.forall_mem_singleton.mpr fun r hr => ?_
    obtain rfl := List.mem_singleton.mp hr
    exact ⟨by decide, by decide, by simp [Element.InRange, Pattern.InRange, lineBound]⟩
  have hspelling : Spelling [harbour] harbourSpelled := by
    refine .inr ⟨harbour, rfl, Given.reversed (.tell rfl (.nodes (.cons ?_ .nil) .nil)) (by decide)⟩
    refine Given.reversed (.tell rfl (.skip rfl (.skip rfl (.nodes ⟨_, _, rfl, ?_, rfl⟩
      (.skip rfl .nil))))) (by decide)
    refine Given.reversed (.tell rfl (.tell rfl (.skip rfl (.skip rfl (.nodes ⟨_, _, rfl, ?_, rfl⟩
      (.tell rfl .nil)))))) (by decide)
    exact ⟨"window", by decide, Given.reversed (.tell rfl .nil) (by decide)⟩
  have hwritable : harbourSpelled.Writable := by
    simp [harbourSpelled, reversed, Json.significandBound]
  exact ⟨hrange, hspelling,
    ((readDocument_of_spelling hrange).2 harbourSpelled hspelling).2 hwritable (by decide)⟩

end RuleBase.Ast

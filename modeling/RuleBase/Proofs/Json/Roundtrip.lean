import RuleBase.Proofs.Json.Token

/-!
# Reading values back

A value that is written is read back as long as it does not nest deeper than the reader allows, and
a value that does is malformed, as is every text that starts with it. The one thing that cannot be
promised is what an arbitrary numeral is read as, so the values in question hold integers only.

* `joined`, `readsBack_sequence`, **`readsBack_bracketed`**: items between brackets;
* `readsBack_scalar`, `readsBack_member`, **`readsBack_value`**: values;
* `Reads`, **`depth_of_value`**: what is read fits the bound on its depth.
-/

namespace RuleBase.Json

variable {α : Type}

/-! ## Items between brackets -/

/-- In front of what may stand behind an item, the text of the item is read back if the item fits,
and is malformed if it does not. -/
structure ReadsBack (item : Reader α) (text : List Char) (a : α) (fits : Prop) : Prop where
  ok : fits → ∀ rest, Delimited rest → item (text ++ rest) = .ok (a, rest)
  malformed : ¬fits → ∀ rest, Delimited rest → item (text ++ rest) = .error .malformed

/-- Texts joined by commas. -/
def joined : List (List Char) → List Char
  | [] => []
  | [text] => text
  | text :: rest => text ++ ',' :: joined rest

theorem joined_cons_cons (text next : List Char) (rest : List (List Char)) :
    joined (text :: next :: rest) = text ++ ',' :: joined (next :: rest) := rfl

theorem skipSpace_cons {c : Char} (h : isSpace c = false) (rest : List Char) :
    skipSpace (c :: rest) = c :: rest := by
  simp [skipSpace, h]

/-- A character that closes brackets. -/
def IsClosing (c : Char) : Prop := c = ']' ∨ c = '}'

instance (c : Char) : Decidable (IsClosing c) :=
  inferInstanceAs (Decidable (c = ']' ∨ c = '}'))

theorem IsClosing.ne_comma {c : Char} (h : IsClosing c) : ',' ≠ c := by
  obtain rfl | rfl := h <;> decide

theorem IsClosing.isSpace_eq {c : Char} (h : IsClosing c) : isSpace c = false := by
  obtain rfl | rfl := h <;> decide

theorem IsClosing.delimited {c : Char} (h : IsClosing c) (rest : List Char) :
    Delimited (c :: rest) :=
  delimited_cons (.inr h) rest

section Bracketed

variable {item : Reader α} {text : α → List Char} {fits : α → Prop} {close : Char}

theorem sequence_of_error {s : List Char} {e : Fault} (h : item s = .error e) (bound : Nat) :
    sequence item close (bound + 1) s = .error e := by
  rw [sequence, h]
  rfl

theorem sequence_of_close (hclose : IsClosing close) {s rest : List Char} {a : α}
    (h : item s = .ok (a, close :: rest)) (bound : Nat) :
    sequence item close (bound + 1) s = .ok ([a], rest) := by
  rw [sequence, h]
  simp only [bind, Except.bind, skipSpace_cons hclose.isSpace_eq, if_pos]
  rfl

theorem sequence_of_comma (hclose : IsClosing close) {s rest : List Char} {a : α}
    (h : item s = .ok (a, ',' :: rest)) (bound : Nat) :
    sequence item close (bound + 1) s =
      (sequence item close bound rest).map (Prod.map (a :: ·) id) := by
  have hspace : isSpace ',' = false := by decide
  rw [sequence, h]
  simp only [bind, Except.bind, skipSpace_cons hspace, if_neg hclose.ne_comma, if_pos]
  cases sequence item close bound rest <;> rfl

/-- Items that are joined by commas are read back one after another, up to the first that does not
fit. -/
theorem readsBack_sequence (hclose : IsClosing close) (a : α) (as : List α)
    (h : ∀ b ∈ a :: as, ReadsBack item (text b) b (fits b)) {bound : Nat}
    (hbound : as.length < bound) :
    ReadsBack (sequence item close bound) (joined ((a :: as).map text) ++ [close]) (a :: as)
      (∀ b ∈ a :: as, fits b) := by
  induction as generalizing a bound with
  | nil =>
    obtain ⟨bound, rfl⟩ : ∃ n, bound = n + 1 := Nat.exists_eq_succ_of_ne_zero (by omega)
    have hitem := h a List.mem_cons_self
    refine ⟨fun hfits rest _ => ?_, fun hfits rest _ => ?_⟩
    · have hread := hitem.ok (hfits a List.mem_cons_self) _ (hclose.delimited rest)
      rw [List.append_assoc]
      exact sequence_of_close hclose hread bound
    · have hread := hitem.malformed (by simpa using hfits) _ (hclose.delimited rest)
      rw [List.append_assoc]
      exact sequence_of_error hread bound
  | cons next as ih =>
    obtain ⟨bound, rfl⟩ : ∃ n, bound = n + 1 := Nat.exists_eq_succ_of_ne_zero (by omega)
    have hitem := h a List.mem_cons_self
    have hothers := ih next (fun b hb => h b (List.mem_cons_of_mem a hb))
      (by rw [List.length_cons] at hbound; omega : as.length < bound)
    have htext : ∀ rest, joined ((a :: next :: as).map text) ++ [close] ++ rest =
        text a ++ ',' :: (joined ((next :: as).map text) ++ [close] ++ rest) := by
      intro rest
      rw [List.map_cons, List.map_cons, joined_cons_cons, ← List.map_cons]
      simp only [List.append_assoc, List.cons_append]
    have hcomma : ∀ rest, Delimited (',' :: rest) := delimited_cons (.inl rfl)
    refine ⟨fun hfits rest hrest => ?_, fun hfits rest hrest => ?_⟩
    · obtain ⟨hfirst, hlater⟩ := List.forall_mem_cons.mp hfits
      rw [htext, sequence_of_comma hclose (hitem.ok hfirst _ (hcomma _)),
        hothers.ok hlater rest hrest]
      rfl
    · rw [htext]
      by_cases hfirst : fits a
      · have hlater : ¬∀ b ∈ next :: as, fits b := fun hlater =>
          hfits (List.forall_mem_cons.mpr ⟨hfirst, hlater⟩)
        rw [sequence_of_comma hclose (hitem.ok hfirst _ (hcomma _)),
          hothers.malformed hlater rest hrest]
        rfl
      · exact sequence_of_error (hitem.malformed hfirst _ (hcomma _)) bound

theorem length_le_length_joined (as : List α) (h : ∀ a ∈ as, text a ≠ []) :
    as.length ≤ (joined (as.map text)).length := by
  induction as with
  | nil => exact Nat.le_refl 0
  | cons a as ih =>
    have hfirst : 0 < (text a).length := List.length_pos_iff.mpr (h a List.mem_cons_self)
    have hothers := ih fun b hb => h b (List.mem_cons_of_mem a hb)
    cases as with
    | nil => exact hfirst
    | cons next as =>
      rw [List.map_cons] at hothers
      rw [List.map_cons, List.map_cons, joined_cons_cons]
      simp only [List.length_append, List.length_cons] at hothers ⊢
      omega

/-- An item starts with a character that is neither space nor closes brackets. -/
def Starts (text : List Char) : Prop :=
  ∃ c rest, text = c :: rest ∧ isSpace c = false ∧ ¬IsClosing c

theorem Starts.append {s : List Char} (h : Starts s) (rest : List Char) : Starts (s ++ rest) := by
  obtain ⟨c, s, rfl, hspace, hclosing⟩ := h
  exact ⟨c, s ++ rest, rfl, hspace, hclosing⟩

theorem starts_joined (a : α) (as : List α) (h : Starts (text a)) :
    Starts (joined ((a :: as).map text)) := by
  cases as with
  | nil => exact h
  | cons next as => exact h.append _

theorem bracketed_of_starts (hclose : IsClosing close) {s : List Char} (h : Starts s) :
    bracketed item close s = sequence item close s.length s := by
  obtain ⟨c, rest, rfl, hspace, hclosing⟩ := h
  have hne : c ≠ close := fun heq => hclosing (heq ▸ hclose)
  rw [bracketed, skipSpace_cons hspace]
  exact if_neg hne

/-- **Items in brackets are read back** if all of them fit. -/
theorem readsBack_bracketed (hclose : IsClosing close) (as : List α)
    (h : ∀ a ∈ as, ReadsBack item (text a) a (fits a)) (hstarts : ∀ a ∈ as, Starts (text a)) :
    ReadsBack (bracketed item close) (joined (as.map text) ++ [close]) as (∀ a ∈ as, fits a) := by
  cases as with
  | nil =>
    refine ⟨fun _ rest _ => ?_, fun hfits => absurd (List.forall_mem_nil fits) hfits⟩
    change bracketed item close (close :: rest) = _
    rw [bracketed, skipSpace_cons hclose.isSpace_eq]
    exact if_pos rfl
  | cons a as =>
    have hfirst : Starts (joined ((a :: as).map text)) :=
      starts_joined a as (hstarts a List.mem_cons_self)
    have hlong : as.length < (joined ((a :: as).map text)).length := by
      refine length_le_length_joined (a :: as) fun b hb => ?_
      obtain ⟨c, rest, htext, -⟩ := hstarts b hb
      simp [htext]
    have hsequence : ∀ rest, ReadsBack
        (sequence item close (joined ((a :: as).map text) ++ [close] ++ rest).length)
        (joined ((a :: as).map text) ++ [close]) (a :: as) (∀ b ∈ a :: as, fits b) := by
      intro rest
      refine readsBack_sequence hclose a as h ?_
      simp only [List.length_append]
      omega
    refine ⟨fun hfits rest hrest => ?_, fun hfits rest hrest => ?_⟩
    · rw [bracketed_of_starts hclose ((hfirst.append _).append _)]
      exact (hsequence rest).ok hfits rest hrest
    · rw [bracketed_of_starts hclose ((hfirst.append _).append _)]
      exact (hsequence rest).malformed hfits rest hrest

end Bracketed

/-! ## Values -/

/-- A value that can be read back: its numerals are integers of 64 bits. -/
inductive Writable : Json → Prop
  | null : Writable .null
  | bool (b : Bool) : Writable (.bool b)
  | int {n : Int} (h : n.natAbs < significandBound) : Writable (.int n)
  | string (s : String) : Writable (.string s)
  | array {items : List Json} (h : ∀ item ∈ items, Writable item) : Writable (.array items)
  | object {members : List (String × Json)} (h : ∀ m ∈ members, Writable m.2) :
      Writable (.object members)

@[simp]
theorem writable_null : Writable .null := .null

@[simp]
theorem writable_bool (b : Bool) : Writable (.bool b) := .bool b

@[simp]
theorem writable_string (s : String) : Writable (.string s) := .string s

@[simp]
theorem writable_int {n : Int} : Writable (.int n) ↔ n.natAbs < significandBound :=
  ⟨fun | .int h => h, .int⟩

@[simp]
theorem writable_array {items : List Json} :
    Writable (.array items) ↔ ∀ item ∈ items, Writable item :=
  ⟨fun | .array h => h, .array⟩

@[simp]
theorem writable_object {members : List (String × Json)} :
    Writable (.object members) ↔ ∀ m ∈ members, Writable m.2 :=
  ⟨fun | .object h => h, .object⟩

/-- The text of a member. -/
def renderMember (m : String × Json) : List Char := renderString m.1 ++ ':' :: m.2.render

theorem renderItems_eq (items : List Json) : renderItems items = joined (items.map render) := by
  induction items with
  | nil => rfl
  | cons item rest ih =>
    cases rest with
    | nil => rw [renderItems]; rfl
    | cons next rest =>
      rw [renderItems, ih]
      · rfl
      · simp

theorem renderMembers_eq (members : List (String × Json)) :
    renderMembers members = joined (members.map renderMember) := by
  induction members with
  | nil => rfl
  | cons m rest ih =>
    cases rest with
    | nil => rw [renderMembers]; rfl
    | cons next rest =>
      rw [renderMembers, ih]
      · simp [renderMember, joined]
      · simp

theorem depthOfItems_le_iff {items : List Json} {d : Nat} :
    depthOfItems items ≤ d ↔ ∀ item ∈ items, item.depth ≤ d := by
  induction items with
  | nil => simp [depthOfItems]
  | cons item rest ih => rw [depthOfItems, Nat.max_le, ih, List.forall_mem_cons]

theorem depthOfMembers_le_iff {members : List (String × Json)} {d : Nat} :
    depthOfMembers members ≤ d ↔ ∀ m ∈ members, m.2.depth ≤ d := by
  induction members with
  | nil => simp [depthOfMembers]
  | cons m rest ih => rw [depthOfMembers, Nat.max_le, ih, List.forall_mem_cons]

theorem depth_array_le {items : List Json} {d : Nat} :
    (array items).depth ≤ d + 1 ↔ ∀ item ∈ items, item.depth ≤ d := by
  rw [depth, Nat.add_le_add_iff_right, depthOfItems_le_iff]

theorem depth_object_le {members : List (String × Json)} {d : Nat} :
    (object members).depth ≤ d + 1 ↔ ∀ m ∈ members, m.2.depth ≤ d := by
  rw [depth, Nat.add_le_add_iff_right, depthOfMembers_le_iff]

/-! ### Scalars -/

/-- A scalar starts with a character that opens no brackets. -/
def StartsScalar (text : List Char) : Prop :=
  ∃ c rest, text = c :: rest ∧ isSpace c = false ∧ ¬IsClosing c ∧ c ≠ '[' ∧ c ≠ '\x7b'

theorem StartsScalar.starts {s : List Char} (h : StartsScalar s) : Starts s := by
  obtain ⟨c, rest, rfl, hspace, hclosing, -⟩ := h
  exact ⟨c, rest, rfl, hspace, hclosing⟩

theorem StartsScalar.append {s : List Char} (h : StartsScalar s) (rest : List Char) :
    StartsScalar (s ++ rest) := by
  obtain ⟨c, s, rfl, hc⟩ := h
  exact ⟨c, s ++ rest, rfl, hc⟩

theorem value_eq_scalar {s : List Char} (h : StartsScalar s) (d : Nat) : value d s = scalar s := by
  obtain ⟨c, rest, rfl, hspace, -, harray, hobject⟩ := h
  cases d with
  | zero => rw [value, skipSpace_cons hspace]
  | succ d =>
    rw [value, skipSpace_cons hspace]
    split
    · next heq => exact absurd (List.cons.inj heq).1 harray
    · next heq => exact absurd (List.cons.inj heq).1 hobject
    · rfl

theorem startsScalar_cons {c : Char} (rest : List Char)
    (h : isSpace c = false ∧ ¬IsClosing c ∧ c ≠ '[' ∧ c ≠ '\x7b') : StartsScalar (c :: rest) :=
  ⟨c, rest, rfl, h⟩

theorem startsScalar_int (n : Int) : StartsScalar (toString n).toList := by
  obtain ⟨c, rest, htext, hc⟩ := head_toString n
  have hne {e : Char} (hminus : e ≠ '-') (hdigit : e.isDigit = false) : c ≠ e := by
    rintro rfl
    obtain h | h := hc
    · exact hminus h
    · exact absurd (hdigit.symm.trans h) Bool.false_ne_true
  refine ⟨c, rest, htext, ?_, ?_, hne (by decide) (by decide), hne (by decide) (by decide)⟩
  · simp [isSpace, hne (e := ' ') (by decide) (by decide),
      hne (e := '\n') (by decide) (by decide), hne (e := '\r') (by decide) (by decide),
      hne (e := '\t') (by decide) (by decide)]
  · simp [IsClosing, hne (e := ']') (by decide) (by decide),
      hne (e := '\x7d') (by decide) (by decide)]

theorem scalar_int {n : Int} (hn : n.natAbs < significandBound) {rest : List Char}
    (h : Delimited rest) : scalar ((toString n).toList ++ rest) = .ok (.int n, rest) := by
  rw [← numeral_int hn h]
  obtain ⟨c, s, htext, hc⟩ := head_toString n
  have hquote : c ≠ '"' := by
    rintro rfl
    revert hc
    decide
  rw [htext, List.cons_append, scalar, if_neg hquote, if_pos hc]

theorem scalar_string (s : String) (rest : List Char) :
    scalar (renderString s ++ rest) = .ok (.string s, rest) := by
  rw [renderString, List.cons_append, scalar, if_pos rfl, List.append_assoc]
  exact congrArg (Except.map _) (quoted_renderString s rest)

theorem readsBack_scalar {text : List Char} {j : Json} (hstarts : StartsScalar text)
    (h : ∀ rest, Delimited rest → scalar (text ++ rest) = .ok (j, rest)) (d : Nat) :
    ReadsBack (value d) text j (0 ≤ d) := by
  refine ⟨fun _ rest hrest => ?_, fun hd => absurd (Nat.zero_le d) hd⟩
  rw [value_eq_scalar (hstarts.append rest) d, h rest hrest]

/-! ### Arrays and objects -/

theorem value_array (d : Nat) (s : List Char) :
    value (d + 1) ('[' :: s) =
      (bracketed (value d) ']' s).map (Prod.map array id) := by
  rw [value, skipSpace_cons (by decide)]
  simp only [bind, Except.bind]
  cases bracketed (value d) ']' s <;> rfl

theorem value_object (d : Nat) (s : List Char) :
    value (d + 1) ('\x7b' :: s) =
      (bracketed (member (value d)) '\x7d' s).map (Prod.map object id) := by
  rw [value, skipSpace_cons (by decide)]
  simp only [bind, Except.bind]
  cases bracketed (member (value d)) '\x7d' s <;> rfl

theorem ReadsBack.iff {α : Type} {item : Reader α} {text : List Char} {a : α} {fits fits' : Prop}
    (h : ReadsBack item text a fits) (hiff : fits ↔ fits') : ReadsBack item text a fits' :=
  ⟨fun hfits => h.ok (hiff.mpr hfits), fun hfits => h.malformed (mt hiff.mp hfits)⟩

theorem readsBack_member {item : Reader Json} {m : String × Json} {fits : Prop}
    (h : ReadsBack item m.2.render m.2 fits) :
    ReadsBack (member item) (renderMember m) m fits := by
  have hread (rest : List Char) : member item (renderMember m ++ rest) =
      (item (m.2.render ++ rest)).map (Prod.map (m.1, ·) id) := by
    have htext : renderMember m ++ rest =
        '"' :: (m.1.toList.flatMap renderChar ++ '"' :: (':' :: (m.2.render ++ rest))) := by
      simp [renderMember, renderString]
    rw [htext, member, skipSpace_cons (by decide)]
    simp only [bind, Except.bind, quoted_renderString, skipSpace_cons (c := ':') (by decide)]
    cases item (m.2.render ++ rest) <;> rfl
  refine ⟨fun hfits rest hrest => ?_, fun hfits rest hrest => ?_⟩
  · rw [hread, h.ok hfits rest hrest]
    rfl
  · rw [hread, h.malformed hfits rest hrest]
    rfl

theorem ReadsBack.behind {read : Reader Json} {item : Reader α} {make : α → Json} {c : Char}
    {body : List Char} {a : α} {fits : Prop} (h : ReadsBack item body a fits)
    (hread : ∀ s, read (c :: s) = (item s).map (Prod.map make id)) :
    ReadsBack read (c :: body) (make a) fits := by
  refine ⟨fun hfits rest hrest => ?_, fun hfits rest hrest => ?_⟩
  · rw [List.cons_append, hread, h.ok hfits rest hrest]
    rfl
  · rw [List.cons_append, hread, h.malformed hfits rest hrest]
    rfl

theorem readsBack_zero {c : Char} (hc : c = '[' ∨ c = '\x7b') (body : List Char) (j : Json)
    {fits : Prop} (h : ¬fits) : ReadsBack (value 0) (c :: body) j fits := by
  refine ⟨fun hfits => absurd hfits h, fun _ rest _ => ?_⟩
  rw [List.cons_append, value]
  obtain rfl | rfl := hc
  · rw [skipSpace_cons (by decide)]
    rfl
  · rw [skipSpace_cons (by decide)]
    rfl

theorem Writable.starts {j : Json} (hj : Writable j) : Starts j.render := by
  cases hj with
  | null => exact (startsScalar_cons _ (by decide)).starts
  | bool b => cases b <;> exact (startsScalar_cons _ (by decide)).starts
  | @int n hn => exact (startsScalar_int n).starts
  | string s => exact (startsScalar_cons _ (by decide)).starts
  | array h => exact ⟨'[', _, rfl, by decide, by decide⟩
  | object h => exact ⟨'\x7b', _, rfl, by decide, by decide⟩

theorem starts_renderMember (m : String × Json) : Starts (renderMember m) :=
  ⟨'"', _, rfl, by decide, by decide⟩

/-- **A value that is written is read back** if its depth is within the bound, and is malformed
otherwise. -/
theorem readsBack_value {j : Json} (hj : Writable j) (d : Nat) :
    ReadsBack (value d) j.render j (j.depth ≤ d) := by
  -- along the value; behind each bracket the bound is one less
  induction hj generalizing d with
  | null => exact readsBack_scalar (startsScalar_cons _ (by decide)) (fun _ _ => rfl) d
  | bool b =>
    cases b <;> exact readsBack_scalar (startsScalar_cons _ (by decide)) (fun _ _ => rfl) d
  | @int n hn =>
    exact readsBack_scalar (startsScalar_int n) (fun _ hrest => scalar_int hn hrest) d
  | string s =>
    exact readsBack_scalar (startsScalar_cons _ (by decide)) (fun rest _ => scalar_string s rest) d
  | @array items h ih =>
    rw [render, renderItems_eq]
    cases d with
    | zero => exact readsBack_zero (.inl rfl) _ _ (Nat.not_succ_le_zero _)
    | succ d =>
      have hitems := readsBack_bracketed (.inl rfl) items (fun item hitem => ih item hitem d)
        fun item hitem => (h item hitem).starts
      exact (hitems.behind (value_array d)).iff depth_array_le.symm
  | @object members h ih =>
    rw [render, renderMembers_eq]
    cases d with
    | zero => exact readsBack_zero (.inr rfl) _ _ (Nat.not_succ_le_zero _)
    | succ d =>
      have hmembers := readsBack_bracketed (.inr rfl) members
        (fun m hm => readsBack_member (ih m hm d)) fun m _ => starts_renderMember m
      exact (hmembers.behind (value_object d)).iff depth_object_le.symm

/-! ## Depth -/

/-- Whatever is read fits. -/
def Reads (item : Reader α) (fits : α → Prop) : Prop :=
  ∀ s a rest, item s = .ok (a, rest) → fits a

theorem Reads.map {β : Type} {item : Reader α} {fits : β → Prop} {make : α → β}
    (h : Reads item fun a => fits (make a)) :
    Reads (fun s => (item s).map (Prod.map make id)) fits := by
  intro s b rest hread
  cases hitem : item s with
  | error e =>
    simp only [hitem, Except.map] at hread
    cases hread
  | ok result =>
    obtain ⟨a, left⟩ := result
    simp only [hitem, Except.map, Prod.map_apply, id_eq] at hread
    cases hread
    exact h s a rest hitem

theorem reads_sequence {item : Reader α} {fits : α → Prop} (h : Reads item fits) (close : Char)
    (bound : Nat) : Reads (sequence item close bound) fun as => ∀ a ∈ as, fits a := by
  induction bound with
  | zero =>
    intro s as rest hread
    cases hread
  | succ bound ih =>
    intro s as rest hread
    rw [sequence] at hread
    simp only [bind, Except.bind] at hread
    split at hread
    · cases hread
    · next result hitem =>
      obtain ⟨first, left⟩ := result
      have hfirst : fits first := h s first left hitem
      simp only at hread
      split at hread
      · cases hread
      · split_ifs at hread
        · cases hread
          exact List.forall_mem_cons.mpr ⟨hfirst, List.forall_mem_nil fits⟩
        · split at hread
          · cases hread
          · next others hothers =>
            cases hread
            exact List.forall_mem_cons.mpr ⟨hfirst, ih _ _ _ hothers⟩

theorem reads_bracketed {item : Reader α} {fits : α → Prop} (h : Reads item fits) (close : Char) :
    Reads (bracketed item close) fun as => ∀ a ∈ as, fits a := by
  intro s as rest hread
  rw [bracketed] at hread
  split at hread
  · cases hread
  · split_ifs at hread
    · cases hread
      exact List.forall_mem_nil fits
    · exact reads_sequence h close _ _ _ _ hread

theorem reads_member {item : Reader Json} {fits : Json → Prop} (h : Reads item fits) :
    Reads (member item) fun m => fits m.2 := by
  intro s m rest hread
  rw [member] at hread
  split at hread
  · cases hread
  · simp only [bind, Except.bind] at hread
    split at hread
    · cases hread
    · split at hread
      · cases hread
      · split at hread
        · cases hread
        · next hitem =>
          cases hread
          exact h _ _ _ hitem
      · cases hread
  · cases hread

theorem reads_numeral : Reads numeral fun j => j.depth = 0 := by
  intro s j rest hread
  rw [numeral] at hread
  simp only [bind, Except.bind] at hread
  split at hread
  · cases hread
  · split at hread
    · cases hread
    · split at hread
      · cases hread
      · split at hread
        · cases hread
        · split at hread <;> (cases hread; rfl)

theorem reads_word (expected : List Char) {result : Json} (h : result.depth = 0) :
    Reads (word expected result) fun j => j.depth = 0 := by
  induction expected with
  | nil =>
    intro s j rest hread
    cases hread
    exact h
  | cons e more ih =>
    intro s j rest hread
    cases s with
    | nil => cases hread
    | cons c s =>
      rw [word] at hread
      split_ifs at hread
      · exact ih _ _ _ hread

theorem reads_scalar : Reads scalar fun j => j.depth = 0 := by
  have hstring : Reads (fun s => (quoted s).map (Prod.map string id)) fun j => j.depth = 0 :=
    Reads.map fun _ _ _ _ => rfl
  intro s j rest hread
  cases s with
  | nil => cases hread
  | cons c s =>
    rw [scalar] at hread
    split_ifs at hread
    · exact hstring _ _ _ hread
    · exact reads_numeral _ _ _ hread
    · exact reads_word _ rfl _ _ _ hread
    · exact reads_word _ rfl _ _ _ hread
    · exact reads_word _ rfl _ _ _ hread

/-- **What is read is within the bound on its depth.** -/
theorem depth_of_value (d : Nat) : Reads (value d) fun j => j.depth ≤ d := by
  induction d with
  | zero =>
    intro s j rest hread
    exact Nat.le_of_eq (reads_scalar _ _ _ hread)
  | succ d ih =>
    intro s j rest hread
    have hitems : Reads (fun s => (bracketed (value d) ']' s).map (Prod.map array id))
        fun j => j.depth ≤ d + 1 := Reads.map fun s items rest hread =>
      depth_array_le.mpr (reads_bracketed ih ']' s items rest hread)
    have hmembers : Reads (fun s => (bracketed (member (value d)) '\x7d' s).map
        (Prod.map object id)) fun j => j.depth ≤ d + 1 := Reads.map fun s members rest hread =>
      depth_object_le.mpr (reads_bracketed (reads_member ih) '\x7d' s members rest hread)
    rw [value] at hread
    split at hread
    · next text _ =>
      refine hitems text j rest ((value_array d text).symm.trans ?_)
      rw [value, skipSpace_cons (by decide)]
      exact hread
    · next text _ =>
      refine hmembers text j rest ((value_object d text).symm.trans ?_)
      rw [value, skipSpace_cons (by decide)]
      exact hread
    · exact Nat.le_trans (Nat.le_of_eq (reads_scalar _ _ _ hread)) (Nat.zero_le _)

/-! ## Texts -/

theorem value_compress {j : Json} (hj : Writable j) {d : Nat} (h : j.depth ≤ d) :
    value d j.compress.toList = .ok (j, []) := by
  have hread := (readsBack_value hj d).ok h [] delimited_nil
  rwa [List.append_nil, ← String.toList_ofList (l := j.render)] at hread

theorem value_compress_of_lt {j : Json} (hj : Writable j) {d : Nat} (h : d < j.depth) :
    value d j.compress.toList = .error .malformed := by
  have hread := (readsBack_value hj d).malformed (Nat.not_le.mpr h) [] delimited_nil
  rwa [List.append_nil, ← String.toList_ofList (l := j.render)] at hread

theorem read_compress {j : Json} (hj : Writable j) {d : Nat} (h : j.depth ≤ d) :
    read d j.compress = .ok j := by
  rw [read, value_compress hj h]
  rfl

theorem value_of_read {d : Nat} {text : String} {j : Json} (h : read d text = .ok j) :
    ∃ rest, value d text.toList = .ok (j, rest) ∧ skipSpace rest = [] := by
  rw [read] at h
  simp only [bind, Except.bind] at h
  split at h
  · cases h
  · next result hvalue =>
    obtain ⟨j', rest⟩ := result
    by_cases hrest : skipSpace rest = []
    · rw [if_pos hrest] at h
      cases h
      exact ⟨rest, hvalue, hrest⟩
    · rw [if_neg hrest] at h
      cases h

theorem depth_of_read {d : Nat} {text : String} {j : Json} (h : read d text = .ok j) :
    j.depth ≤ d := by
  obtain ⟨rest, hvalue, -⟩ := value_of_read h
  exact depth_of_value d _ _ _ hvalue

end RuleBase.Json

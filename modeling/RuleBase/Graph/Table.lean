/-!
# Tables

A table has values under keys, each key at most once. One operation changes what is under a key,
be it by adding, replacing or dropping a value; a key that is new goes behind the others.

* `Table`, `Table.empty`, `Table.find?`, `Table.alter`;
* `Table.find?_alter`: a change reaches one key only.
-/

namespace RuleBase

variable {κ α : Type}

/-- Values under keys. -/
structure Table (κ α : Type) where
  entries : List (κ × α)
  nodup : (entries.map Prod.fst).Nodup
  deriving DecidableEq

namespace Table

/-- The table without values. -/
def empty : Table κ α := ⟨[], List.nodup_nil⟩

theorem ext {s t : Table κ α} (h : s.entries = t.entries) : s = t := by
  cases s; cases t; cases h; rfl

variable [DecidableEq κ]

/-- The value under a key. -/
def find? (t : Table κ α) (k : κ) : Option α := t.entries.lookup k

/-- What a list of entries becomes when the value under a key is changed. -/
def alterEntries (k : κ) (f : Option α → Option α) : List (κ × α) → List (κ × α)
  | [] => (f none).toList.map (k, ·)
  | e :: rest =>
    if e.1 = k then (f (some e.2)).toList.map (k, ·) ++ rest else e :: alterEntries k f rest

theorem mem_keys_alterEntries {k x : κ} {f : Option α → Option α} {l : List (κ × α)}
    (h : x ∈ (alterEntries k f l).map Prod.fst) : x = k ∨ x ∈ l.map Prod.fst := by
  induction l with
  | nil =>
    cases hf : f none <;> simp [alterEntries, hf] at h
    exact Or.inl h
  | cons e rest ih =>
    by_cases he : e.1 = k
    · cases hf : f (some e.2) <;> simp [alterEntries, he, hf] at h ⊢
      · exact Or.inr h
      · exact h
    · simp only [alterEntries, he, if_false, List.map_cons, List.mem_cons] at h ⊢
      rcases h with h | h
      · exact Or.inr (Or.inl h)
      · rcases ih h with h | h
        · exact Or.inl h
        · exact Or.inr (Or.inr h)

theorem nodup_alterEntries (k : κ) (f : Option α → Option α) {l : List (κ × α)}
    (h : (l.map Prod.fst).Nodup) : ((alterEntries k f l).map Prod.fst).Nodup := by
  induction l with
  | nil => cases hf : f none <;> simp [alterEntries, hf]
  | cons e rest ih =>
    obtain ⟨hnot, hrest⟩ := List.nodup_cons.mp h
    by_cases he : e.1 = k
    · cases hf : f (some e.2)
      · simpa [alterEntries, he, hf] using hrest
      · simp only [alterEntries, he, hf, if_true]
        exact List.nodup_cons.mpr ⟨he ▸ hnot, hrest⟩
    · simp only [alterEntries, he, if_false]
      refine List.nodup_cons.mpr ⟨fun hmem => ?_, ih hrest⟩
      rcases mem_keys_alterEntries hmem with h | h
      · exact he h
      · exact hnot h

/-- The table with the value under a key changed; no value stands for a key that is not there. -/
def alter (t : Table κ α) (k : κ) (f : Option α → Option α) : Table κ α :=
  ⟨alterEntries k f t.entries, nodup_alterEntries k f t.nodup⟩

theorem lookup_eq_none_of_notMem {k : κ} {l : List (κ × α)} (h : k ∉ l.map Prod.fst) :
    l.lookup k = none := by
  rw [List.lookup_eq_none_iff]
  intro e he
  rw [bne_iff_ne]
  rintro rfl
  exact h (List.mem_map_of_mem he)

theorem lookup_cons_eq (k x : κ) (v : α) (l : List (κ × α)) :
    ((k, v) :: l).lookup x = if x = k then some v else l.lookup x := by
  by_cases hx : x = k
  · simp [hx]
  · have hx' : (x == k) = false := beq_false_of_ne hx
    simp [List.lookup_cons, hx, hx']

theorem lookup_alterEntries (k x : κ) (f : Option α → Option α) {l : List (κ × α)}
    (h : (l.map Prod.fst).Nodup) :
    (alterEntries k f l).lookup x = if x = k then f (l.lookup k) else l.lookup x := by
  induction l with
  | nil => cases hf : f none <;> simp [alterEntries, hf, lookup_cons_eq]
  | cons e rest ih =>
    obtain ⟨k', v⟩ := e
    obtain ⟨hnot, hrest⟩ := List.nodup_cons.mp h
    by_cases he : k' = k
    · subst he
      by_cases hx : x = k'
      · subst hx
        cases hf : f (some v) <;> simp [alterEntries, hf, lookup_eq_none_of_notMem hnot]
      · cases hf : f (some v) <;> simp [alterEntries, hf, lookup_cons_eq, hx]
    · simp only [alterEntries, he, if_false, lookup_cons_eq, ih hrest]
      by_cases hx : x = k
      · simp [hx, Ne.symm he]
      · simp [hx]

/-- A change reaches one key only. -/
theorem find?_alter (t : Table κ α) (k x : κ) (f : Option α → Option α) :
    (t.alter k f).find? x = if x = k then f (t.find? k) else t.find? x :=
  lookup_alterEntries k x f t.nodup

end Table

end RuleBase

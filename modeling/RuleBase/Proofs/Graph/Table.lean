import Mathlib.Data.List.Basic
import RuleBase.Graph.Table

/-!
# Restrictions of tables

A restriction passes the values of a table through a partial function and drops the entries for
which there is no result. It tells what stays of a table when changes of it are taken back.

* **`Table.restrict_alter`**: changes that a restriction does not see;
* **`Table.alter_eq_restrict`**: changes of one key that are restrictions.
-/

namespace RuleBase

namespace Table

variable {κ α : Type} {f : α → Option α} {c : Option α → Option α}

/-- Entries with their values passed through a partial function. -/
def restrictEntries (f : α → Option α) (l : List (κ × α)) : List (κ × α) :=
  l.filterMap fun e => (f e.2).map (e.1, ·)

theorem sublist_keys_restrictEntries (f : α → Option α) (l : List (κ × α)) :
    ((restrictEntries f l).map Prod.fst).Sublist (l.map Prod.fst) := by
  induction l with
  | nil => exact List.Sublist.slnil
  | cons e rest ih =>
    cases hf : f e.2 with
    | none => simpa [restrictEntries, hf] using ih.cons e.1
    | some v => simpa [restrictEntries, hf] using ih.cons_cons e.1

/-- A table with its values passed through a partial function. -/
def restrict (f : α → Option α) (t : Table κ α) : Table κ α :=
  ⟨restrictEntries f t.entries, t.nodup.sublist (sublist_keys_restrictEntries f t.entries)⟩

theorem restrict_restrict (f g : α → Option α) (t : Table κ α) :
    (t.restrict f).restrict g = t.restrict fun v => (f v).bind g := by
  apply Table.ext
  simp only [restrict, restrictEntries, List.filterMap_filterMap]
  refine List.filterMap_congr fun e _ => ?_
  cases f e.2 <;> rfl

variable [DecidableEq κ] {t : Table κ α} {k : κ}

/-! ## Looking up -/

theorem mem_of_lookup {l : List (κ × α)} {v : α} (h : l.lookup k = some v) : (k, v) ∈ l := by
  obtain ⟨before, after, rfl, -⟩ := List.lookup_eq_some_iff.mp h
  exact List.mem_append_right _ List.mem_cons_self

theorem lookup_of_mem {l : List (κ × α)} (hnodup : (l.map Prod.fst).Nodup) {v : α}
    (h : (k, v) ∈ l) : l.lookup k = some v := by
  induction l with
  | nil => cases h
  | cons e rest ih =>
    obtain ⟨hnot, hrest⟩ := List.nodup_cons.mp hnodup
    rw [lookup_cons_eq]
    rcases List.mem_cons.mp h with rfl | h
    · exact if_pos rfl
    · rw [if_neg fun hk => hnot (List.mem_map.mpr ⟨(k, v), h, hk⟩)]
      exact ih hrest h

theorem mem_entries_iff {v : α} : (k, v) ∈ t.entries ↔ t.find? k = some v :=
  ⟨lookup_of_mem t.nodup, mem_of_lookup⟩

theorem find?_restrict (f : α → Option α) (t : Table κ α) (k : κ) :
    (t.restrict f).find? k = (t.find? k).bind f := by
  obtain ⟨l, hl⟩ := t
  simp only [find?, restrict]
  induction l with
  | nil => rfl
  | cons e rest ih =>
    obtain ⟨k', v⟩ := e
    obtain ⟨hnot, hrest⟩ := List.nodup_cons.mp hl
    have ih := ih hrest
    rw [lookup_cons_eq]
    by_cases hk : k = k'
    · subst hk
      have hnone := lookup_eq_none_of_notMem hnot
      cases hf : f v with
      | none => rw [hnone] at ih; simpa [restrictEntries, hf] using ih
      | some w => simp [restrictEntries, hf]
    · rw [if_neg hk, ← ih]
      cases hf : f v with
      | none => simp [restrictEntries, hf]
      | some w => simp [restrictEntries, hf, lookup_cons_eq, hk]

theorem restrict_eq_self (h : ∀ k v, t.find? k = some v → f v = some v) : t.restrict f = t := by
  apply Table.ext
  refine Eq.trans (List.filterMap_congr fun e he => ?_) List.filterMap_some
  rw [h e.1 e.2 (mem_entries_iff.mp he)]
  rfl

/-! ## Restrictions and changes -/

theorem restrictEntries_alterEntries {l : List (κ × α)}
    (h : (c (l.lookup k)).bind f = (l.lookup k).bind f) :
    restrictEntries f (alterEntries k c l) = restrictEntries f l := by
  induction l with
  | nil =>
    have h : (c none).bind f = none := h
    cases hc : c none with
    | none => simp [alterEntries, hc]
    | some v =>
      rw [hc, Option.bind_some] at h
      simp [alterEntries, restrictEntries, hc, h]
  | cons e rest ih =>
    obtain ⟨k', v⟩ := e
    by_cases he : k' = k
    · subst he
      rw [lookup_cons_eq, if_pos rfl, Option.bind_some] at h
      cases hc : c (some v) with
      | none =>
        rw [hc, Option.bind_none] at h
        simp [alterEntries, restrictEntries, hc, ← h]
      | some w =>
        rw [hc, Option.bind_some] at h
        simp [alterEntries, restrictEntries, hc, h, List.filterMap_cons]
    · rw [lookup_cons_eq, if_neg (Ne.symm he)] at h
      have ih := ih h
      simp only [restrictEntries] at ih
      simp only [alterEntries, he, if_false, restrictEntries, List.filterMap_cons, ih]

/-- **A change that a restriction does not see** is one of a value to another one with the same
result. -/
theorem restrict_alter (h : (c (t.find? k)).bind f = (t.find? k).bind f) :
    (t.alter k c).restrict f = t.restrict f :=
  Table.ext (restrictEntries_alterEntries h)

/-- **A change of one key that is a restriction** takes the value there to its result, and the
other values are results of their own. -/
theorem alter_eq_restrict (h : c (t.find? k) = (t.find? k).bind f)
    (hother : ∀ k' v, k' ≠ k → t.find? k' = some v → f v = some v) :
    t.alter k c = t.restrict f := by
  apply Table.ext
  obtain ⟨l, hl⟩ := t
  simp only [find?] at h hother
  simp only [alter, restrict]
  induction l with
  | nil => simpa [alterEntries, restrictEntries] using h
  | cons e rest ih =>
    obtain ⟨k', v⟩ := e
    obtain ⟨hnot, hrest⟩ := List.nodup_cons.mp hl
    by_cases he : k' = k
    · subst he
      have hkeep : restrictEntries f rest = rest := by
        refine congrArg entries (restrict_eq_self (t := ⟨rest, hrest⟩) fun x w hx => ?_)
        have hxk : x ≠ k' := fun hxk =>
          hnot (hxk ▸ List.mem_map.mpr ⟨(x, w), mem_of_lookup hx, rfl⟩)
        exact hother x w hxk (by rw [lookup_cons_eq, if_neg hxk]; exact hx)
      rw [lookup_cons_eq, if_pos rfl, Option.bind_some] at h
      simp only [restrictEntries] at hkeep
      cases hf : f v <;> simp [alterEntries, restrictEntries, h, hf, hkeep]
    · have hv : f v = some v := hother k' v he (by rw [lookup_cons_eq, if_pos rfl])
      rw [lookup_cons_eq, if_neg (Ne.symm he)] at h
      have ih := ih hrest h fun x w hx hw => by
        refine hother x w hx ?_
        have hxk : x ≠ k' := fun hxk =>
          hnot (hxk ▸ List.mem_map.mpr ⟨(x, w), mem_of_lookup hw, rfl⟩)
        rw [lookup_cons_eq, if_neg hxk]
        exact hw
      simp only [restrictEntries] at ih
      simp [alterEntries, restrictEntries, he, hv, ih]

end Table

end RuleBase

import Mathlib.Data.List.Forall2
import RuleBase.Report.Table

/-!
# What tables show

A table shows all that is in its cells: a line that is not wider than a column may get stands
somewhere in the text, as it is. The widths of the columns are those that the cells need, so
such a line is never cut.

* **`Table.infix_render`**: the text of a table shows the lines of its cells.
-/

namespace RuleBase

namespace Text

theorem infix_intercalate {α : Type} {text : List α} {texts : List (List α)} (separator : List α)
    (h : text ∈ texts) : text <:+: separator.intercalate texts := by
  refine List.infix_of_mem_flatten ?_
  induction texts with
  | nil => cases h
  | cons first rest ih =>
    cases rest with
    | nil => exact h
    | cons second others =>
      obtain rfl | hrest := List.mem_cons.mp h
      · exact List.mem_cons_self
      · exact List.mem_cons_of_mem _ (List.mem_cons_of_mem _ (ih hrest))

theorem infix_unlines {line : List Char} {ls : List (List Char)} (h : line ∈ ls) :
    line <:+: unlines ls := by
  induction ls with
  | nil => cases h
  | cons first rest ih =>
    cases rest with
    | nil =>
      obtain rfl := List.mem_singleton.mp h
      exact List.infix_rfl
    | cons second others =>
      rw [unlines]
      · obtain rfl | hrest := List.mem_cons.mp h
        · exact (List.prefix_append _ _).isInfix
        · exact ((ih hrest).trans (List.suffix_cons _ _).isInfix).trans
            (List.suffix_append _ _).isInfix
      · simp

end Text

namespace Report

theorem le_foldl_max {n : Nat} {l : List Nat} (h : n ∈ l) (init : Nat) : n ≤ l.foldl max init := by
  induction l generalizing init with
  | nil => cases h
  | cons m rest ih =>
    obtain rfl | hrest := List.mem_cons.mp h
    · rw [List.foldl_cons, List.foldl_max]
      omega
    · exact ih hrest _

/-! ## Columns -/

/-- Columns are wide enough for the cells of a row. -/
def Holds : List Nat → List Cell → Prop :=
  List.Forall₂ fun w c => min maxColumnWidth c.width ≤ w

/-- Columns that are made wide enough for one more row. -/
def widened (widths : List Nat) (row : List Cell) : List Nat :=
  (widths.zip row).map fun (w, c) => max w (min maxColumnWidth c.width)

theorem columnWidths_eq (rows : List (List Cell)) : columnWidths rows =
    rows.foldl widened (List.replicate ((rows.head?.map List.length).getD 0) 1) := rfl

theorem length_widened {widths : List Nat} {row : List Cell} (h : row.length = widths.length) :
    (widened widths row).length = widths.length := by
  simp [widened, h]

theorem holds_widened {widths : List Nat} {row : List Cell} (h : row.length = widths.length) :
    Holds (widened widths row) row := by
  induction widths generalizing row with
  | nil =>
    obtain rfl := List.length_eq_zero_iff.mp h
    exact .nil
  | cons w widths ih =>
    cases row with
    | nil => cases h
    | cons c row => exact .cons (Nat.le_max_right _ _) (ih (Nat.succ.inj h))

theorem Holds.widened {widths : List Nat} {row row' : List Cell} (h : Holds widths row)
    (hrow : row'.length = widths.length) : Holds (widened widths row') row := by
  induction h generalizing row' with
  | nil => exact .nil
  | cons hw _ ih =>
    cases row' with
    | nil => cases hrow
    | cons c row' => exact .cons (Nat.le_trans hw (Nat.le_max_left _ _)) (ih (Nat.succ.inj hrow))

theorem Holds.exists_mem_zip {widths : List Nat} {row : List Cell} (h : Holds widths row) {c : Cell}
    (hc : c ∈ row) : ∃ w, (w, c) ∈ widths.zip row ∧ min maxColumnWidth c.width ≤ w := by
  induction h with
  | nil => cases hc
  | @cons w first _ _ hw _ ih =>
    obtain rfl | hrest := List.mem_cons.mp hc
    · exact ⟨w, List.mem_cons_self, hw⟩
    · obtain ⟨w', hmem, hw'⟩ := ih hrest
      exact ⟨w', List.mem_cons_of_mem _ hmem, hw'⟩

theorem holds_foldl_widened {rows : List (List Cell)} {widths : List Nat}
    (h : ∀ row ∈ rows, row.length = widths.length) :
    (∀ row, Holds widths row → Holds (rows.foldl Report.widened widths) row) ∧
      ∀ row ∈ rows, Holds (rows.foldl Report.widened widths) row := by
  induction rows generalizing widths with
  | nil => exact ⟨fun _ hrow => hrow, by simp⟩
  | cons first rest ih =>
    rw [List.forall_mem_cons] at h
    have hrest : ∀ row ∈ rest, row.length = (Report.widened widths first).length := fun row hrow =>
      (h.2 row hrow).trans (length_widened h.1).symm
    obtain ⟨hkeep, hall⟩ := ih hrest
    refine ⟨fun row hrow => hkeep row (hrow.widened h.1), ?_⟩
    rw [List.forall_mem_cons]
    exact ⟨hkeep first (holds_widened h.1), hall⟩

/-- **Columns are wide enough for all rows**, if these have a cell for each column. -/
theorem holds_columnWidths {header : List Cell} {rows : List (List Cell)}
    (h : ∀ row ∈ rows, row.length = header.length) :
    ∀ row ∈ header :: rows, Holds (columnWidths (header :: rows)) row := by
  rw [columnWidths_eq]
  refine (holds_foldl_widened ?_).2
  simpa using h

/-! ## Rows -/

/-- A line that fits into its column is not cut. -/
theorem exists_mem_linesIn {c : Cell} {w : Nat} {line : List Char} (hline : line ∈ c.lines)
    (hwidth : Text.width line ≤ w) : ∃ shown ∈ c.linesIn w, line <:+: shown := by
  refine ⟨fill c.alignment (w - Text.width line) line, ?_, ?_⟩
  · exact List.mem_flatMap.mpr ⟨line, hline, by simp [hwidth]⟩
  · cases c.alignment with
    | left => exact ⟨[' '], _, rfl⟩
    | right => exact ⟨' ' :: List.replicate (w - Text.width line) ' ', [' '], by simp [fill]⟩

theorem width_le_of_mem {c : Cell} {line : List Char} (h : line ∈ c.lines) :
    Text.width line ≤ c.width :=
  le_foldl_max (List.mem_map_of_mem h) 0

theorem infix_enclose (first between last : Char) {text : List Char} {texts : List (List Char)}
    (h : text ∈ texts) : text <:+: enclose first between last texts := by
  have hinner : [between].intercalate texts <:+: enclose first between last texts :=
    ⟨[first], [last], by simp [enclose]⟩
  exact (Text.infix_intercalate [between] h).trans hinner

theorem exists_mem_rowLines {widths : List Nat} {row : List Cell} {w : Nat} {c : Cell}
    {shown : List Char} (hcell : (w, c) ∈ widths.zip row) (hshown : shown ∈ c.linesIn w) :
    ∃ line ∈ rowLines widths row, shown <:+: line := by
  obtain ⟨i, hi, hget⟩ := List.getElem_of_mem hshown
  let cells := (widths.zip row).map fun entry => (entry.1, entry.2.linesIn entry.1)
  have hmem : (w, c.linesIn w) ∈ cells := List.mem_map.mpr ⟨(w, c), hcell, rfl⟩
  have hlength : (c.linesIn w).length ∈ cells.map (·.2.length) := List.mem_map.mpr ⟨_, hmem, rfl⟩
  have hlast : i < (cells.map (·.2.length)).foldl max 0 :=
    Nat.lt_of_lt_of_le hi (le_foldl_max hlength 0)
  refine ⟨rowLine cells i, List.mem_map_of_mem (List.mem_range.mpr hlast), ?_⟩
  have htext : shown ∈ cells.map fun entry =>
      entry.2.getD i (List.replicate (frameWidth entry.1) ' ') :=
    List.mem_map.mpr ⟨_, hmem, by simp [hi, hget]⟩
  exact infix_enclose '│' '┆' '│' htext

theorem mem_lines_of_mem_rowLines {t : Table} {row : List Cell} {line : List Char}
    (hrow : row ∈ t.header :: t.rows)
    (hline : line ∈ rowLines (columnWidths (t.header :: t.rows)) row) : line ∈ t.lines := by
  simp only [Table.lines, List.mem_append]
  obtain rfl | hrow := List.mem_cons.mp hrow
  · simp [hline]
  · have hrows := Text.infix_intercalate
      [border '├' '╌' '┼' '┤' (columnWidths (t.header :: t.rows))]
      (List.mem_map_of_mem (f := rowLines (columnWidths (t.header :: t.rows))) hrow)
    simp [hrows.subset hline]

/-! ## Tables -/

/-- Every row of a table has a cell for each column. -/
def Table.IsEven (t : Table) : Prop := ∀ row ∈ t.rows, row.length = t.header.length

/-- **A table shows the lines of its cells**, unless they are wider than any column. -/
theorem Table.infix_render {t : Table} (h : t.IsEven) {row : List Cell}
    (hrow : row ∈ t.header :: t.rows) {c : Cell} (hc : c ∈ row) {line : List Char}
    (hline : line ∈ c.lines) (hwidth : Text.width line ≤ maxColumnWidth) :
    line <:+: t.render.toList := by
  obtain ⟨w, hcell, hw⟩ := (holds_columnWidths h row hrow).exists_mem_zip hc
  have hfits : Text.width line ≤ w :=
    Nat.le_trans (Nat.le_min.mpr ⟨hwidth, width_le_of_mem hline⟩) hw
  obtain ⟨shown, hshown, hin⟩ := exists_mem_linesIn hline hfits
  obtain ⟨shownLine, hrowLine, hin'⟩ := exists_mem_rowLines hcell hshown
  rw [Table.render, String.toList_ofList]
  exact (hin.trans hin').trans (Text.infix_unlines (mem_lines_of_mem_rowLines hrow hrowLine))

end Report

end RuleBase

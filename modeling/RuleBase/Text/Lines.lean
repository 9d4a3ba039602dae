/-!
# Lines

A text is the list of its lines, which line feeds separate; the empty text is one empty line.

* `pieces`: the parts of a text between separators;
* `lines`, `unlines`; **`unlines_lines`**: joining the lines gives the text;
* `lines_cons`, `lines_append`: the lines of longer texts; `prefix_line_iff`: what they start with.
-/

namespace RuleBase.Text

/-- The parts of a text before, between and after the separators in it. -/
def pieces (separator : Char) : List Char → List (List Char)
  | [] => [[]]
  | c :: rest =>
    if c = separator then [] :: pieces separator rest
    else
      match pieces separator rest with
      | [] => [[c]]
      | piece :: others => (c :: piece) :: others

/-- The lines of a text. -/
def lines (text : List Char) : List (List Char) := pieces '\n' text

/-- The text with the given lines. -/
def unlines : List (List Char) → List Char
  | [] => []
  | [line] => line
  | line :: others => line ++ '\n' :: unlines others

theorem pieces_ne_nil (separator : Char) (text : List Char) : pieces separator text ≠ [] := by
  cases text with
  | nil => simp [pieces]
  | cons c rest =>
    simp only [pieces]
    split
    · simp
    · split <;> simp

theorem lines_ne_nil (text : List Char) : lines text ≠ [] := pieces_ne_nil '\n' text

theorem unlines_cons_cons (c : Char) (line : List Char) (others : List (List Char)) :
    unlines ((c :: line) :: others) = c :: unlines (line :: others) := by
  cases others <;> rfl

/-- Joining the lines of a text gives the text. -/
theorem unlines_lines (text : List Char) : unlines (lines text) = text := by
  unfold lines
  induction text with
  | nil => rfl
  | cons c rest ih =>
    simp only [pieces]
    split
    next h =>
      subst h
      cases hr : pieces '\n' rest with
      | nil => exact absurd hr (pieces_ne_nil '\n' rest)
      | cons line others => rw [hr] at ih; simp [unlines, ih]
    next h =>
      cases hr : pieces '\n' rest with
      | nil => exact absurd hr (pieces_ne_nil '\n' rest)
      | cons line others => rw [hr] at ih; simp only [unlines_cons_cons, ih]

theorem lines_newline (text : List Char) : lines ('\n' :: text) = [] :: lines text := rfl

theorem lines_cons {c : Char} (hc : c ≠ '\n') {text line : List Char} {others : List (List Char)}
    (h : lines text = line :: others) : lines (c :: text) = (c :: line) :: others := by
  rw [lines] at h
  simp only [lines, pieces, if_neg hc, h]

theorem exists_lines_eq (text : List Char) : ∃ line others, lines text = line :: others :=
  List.exists_cons_of_ne_nil (lines_ne_nil text)

theorem lines_append (a b : List Char) : lines (a ++ '\n' :: b) = lines a ++ lines b := by
  induction a with
  | nil => rfl
  | cons c rest ih =>
    by_cases hc : c = '\n'
    · rw [hc, List.cons_append, lines_newline, lines_newline, ih, List.cons_append]
    · obtain ⟨line, others, hlines⟩ := exists_lines_eq rest
      rw [hlines, List.cons_append] at ih
      rw [List.cons_append, lines_cons hc ih, lines_cons hc hlines, List.cons_append]

/-- No line has a line feed in it. -/
theorem newline_notMem {text line : List Char} (h : line ∈ lines text) : '\n' ∉ line := by
  induction text generalizing line with
  | nil =>
    rw [List.mem_singleton.mp h]
    exact List.not_mem_nil
  | cons c rest ih =>
    by_cases hc : c = '\n'
    · rw [hc, lines_newline, List.mem_cons] at h
      obtain rfl | h := h
      · exact List.not_mem_nil
      · exact ih h
    · obtain ⟨first, others, hlines⟩ := exists_lines_eq rest
      rw [hlines] at ih
      rw [lines_cons hc hlines, List.mem_cons] at h
      obtain rfl | h := h
      · exact List.not_mem_cons_of_ne_of_not_mem (Ne.symm hc) (ih List.mem_cons_self)
      · exact ih (List.mem_cons_of_mem first h)

/-- The first line starts with whatever the text starts with, up to its line feed. -/
theorem prefix_line_iff {p text line : List Char} {others : List (List Char)} (hp : '\n' ∉ p)
    (h : lines text = line :: others) : p <+: line ↔ p <+: text := by
  cases others with
  | nil =>
    have htext : line = text := by
      rw [← unlines_lines text, h]
      rfl
    rw [htext]
  | cons next others =>
    have htext : line ++ '\n' :: unlines (next :: others) = text := by
      rw [← unlines_lines text, h]
      rfl
    rw [← htext]
    refine ⟨fun hline => hline.trans (List.prefix_append _ _), fun hwhole => ?_⟩
    obtain hline | ⟨tail, rfl⟩ := List.prefix_or_prefix_of_prefix hwhole (List.prefix_append line _)
    · exact hline
    · rw [List.prefix_append_right_inj] at hwhole
      cases tail with
      | nil => simp
      | cons c tail =>
        -- it goes on behind the first line, so it has the line feed
        rw [List.cons_prefix_cons] at hwhole
        exact absurd (by simp [hwhole.1]) hp

/-- A text without line feeds is one line. -/
theorem lines_of_notMem {text : List Char} (h : '\n' ∉ text) : lines text = [text] := by
  induction text with
  | nil => rfl
  | cons c rest ih =>
    rw [List.mem_cons, not_or] at h
    exact lines_cons (Ne.symm h.1) (ih h.2)

/-- What is dropped with the line feeds is dropped line by line. -/
theorem filter_unlines {p : Char → Bool} (hp : p '\n' = false) (ls : List (List Char)) :
    (unlines ls).filter p = ls.flatMap (List.filter p) := by
  induction ls with
  | nil => rfl
  | cons line others ih =>
    cases others with
    | nil => simp [unlines]
    | cons next others =>
      change (line ++ '\n' :: unlines (next :: others)).filter p = _
      rw [List.filter_append, List.filter_cons_of_neg (by simp [hp]), ih]
      rfl

end RuleBase.Text

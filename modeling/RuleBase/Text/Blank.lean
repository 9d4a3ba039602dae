/-!
# Blank characters

White space as text fields understand it, and the trimming of texts.

* `isBlank`: the characters with the property `White_Space`;
* `trimStart`, `trim`: a text without its leading blanks, and without those on either side;
* **`trim_append`**, `exists_eq_append_trim`: a text is what is trimmed away and what is left.
-/

namespace RuleBase.Text

/-- The characters with the property `White_Space`. -/
def isBlank (c : Char) : Bool :=
  let n := c.toNat
  (0x9 ≤ n && n ≤ 0xD) || n == 0x20 || n == 0x85 || n == 0xA0 || n == 0x1680 ||
    (0x2000 ≤ n && n ≤ 0x200A) || n == 0x2028 || n == 0x2029 || n == 0x202F || n == 0x205F ||
    n == 0x3000

/-- A text without its leading blanks. -/
def trimStart (text : List Char) : List Char := text.dropWhile isBlank

/-- A text without the blanks on either side. -/
def trim (text : List Char) : List Char :=
  (trimStart (trimStart text).reverse).reverse

theorem exists_eq_append_trimStart (text : List Char) :
    ∃ blanks : List Char, (∀ c ∈ blanks, isBlank c) ∧ text = blanks ++ trimStart text :=
  ⟨text.takeWhile isBlank, List.all_eq_true.mp List.all_takeWhile,
    List.takeWhile_append_dropWhile.symm⟩

theorem trimStart_append {blanks text : List Char} (hblanks : ∀ c ∈ blanks, isBlank c)
    (htext : ∀ c ∈ text.head?, isBlank c = false) : trimStart (blanks ++ text) = text := by
  rw [trimStart, List.dropWhile_append_of_pos hblanks]
  cases text with
  | nil => rfl
  | cons c rest => simp [htext c rfl]

theorem exists_eq_append_trim (text : List Char) :
    ∃ before after : List Char, (∀ c ∈ before, isBlank c) ∧ (∀ c ∈ after, isBlank c) ∧
      text = before ++ trim text ++ after := by
  obtain ⟨before, hbefore, htext⟩ := exists_eq_append_trimStart text
  obtain ⟨after, hafter, hrest⟩ := exists_eq_append_trimStart (trimStart text).reverse
  refine ⟨before, after.reverse, hbefore, by simpa using hafter, ?_⟩
  rw [List.append_assoc, trim, ← List.reverse_append, ← hrest, List.reverse_reverse]
  exact htext

/-- A text with no blanks on either side is what is left of it between blanks. -/
theorem trim_append {before text after : List Char} (hbefore : ∀ c ∈ before, isBlank c)
    (hafter : ∀ c ∈ after, isBlank c) (hhead : ∀ c ∈ text.head?, isBlank c = false)
    (hlast : ∀ c ∈ text.getLast?, isBlank c = false) (hne : text ≠ []) :
    trim (before ++ text ++ after) = text := by
  have hstart : trimStart (before ++ text ++ after) = text ++ after := by
    rw [List.append_assoc]
    obtain ⟨d, rest, rfl⟩ := List.exists_cons_of_ne_nil hne
    exact trimStart_append hbefore hhead
  rw [trim, hstart, List.reverse_append,
    trimStart_append (by simpa using hafter) (by simpa [List.head?_reverse] using hlast),
    List.reverse_reverse]

end RuleBase.Text

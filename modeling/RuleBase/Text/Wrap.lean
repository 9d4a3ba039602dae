import RuleBase.Text.Lines
import RuleBase.Text.Width

/-!
# Wrapping

A line that is wider than its place is cut into several. Cuts are made at blanks, which are dropped
there; only a word that is wider than a whole line is cut inside. A line that has less than a
letter and a blank to spare counts as full.

* `fitting`: how much of a word fits into a number of columns;
* `wrapWords`: the lines that words fill;
* `wrap`: the lines of a text.
-/

namespace RuleBase.Text

/-- How many characters at the start of a word fit into a number of columns. -/
def fitting (columns : Nat) : List Char → Nat
  | [] => 0
  | c :: rest => if columns < charWidth c then 0 else fitting (columns - charWidth c) rest + 1

/-- A line with less room than this takes no more words, and a word is not cut to fill this or
less. -/
def minSpare : Nat := 2

/-- What stands between a line and the next word in it. -/
def gapAfter (line : List Char) : List Char := if line = [] then [] else [' ']

/-- How many characters of a word that is wider than a line are put behind what the line holds; an
empty line takes one at least. -/
def share (line : List Char) (columns : Nat) (word : List Char) : Nat :=
  max (fitting columns word) (if line = [] then 1 else 0)

theorem share_nil_pos (columns : Nat) (word : List Char) : 0 < share [] columns word := by
  simp only [share, if_true]; omega

/-- The lines that words fill. The line that is being filled is held in reverse, with the columns
that it takes. -/
def wrapWords (limit : Nat) (line : List Char) (used : Nat) (words : List (List Char)) :
    List (List Char) :=
  match words with
  | [] => if line = [] then [] else [line.reverse]
  | word :: rest =>
    let gap := gapAfter line
    let start := used + gap.length
    if start + width word ≤ limit then
      let longer := word.reverse ++ (gap ++ line)
      if limit < start + width word + minSpare then longer.reverse :: wrapWords limit [] 0 rest
      else wrapWords limit longer (start + width word) rest
    else if line ≠ [] ∧ limit ≤ start + minSpare then
      line.reverse :: wrapWords limit [] 0 (word :: rest)
    else if limit < width word then
      let taken := share line (limit - start) word
      ((word.take taken).reverse ++ (gap ++ line)).reverse ::
        wrapWords limit [] 0 (word.drop taken :: rest)
    else if limit < width word + minSpare then
      line.reverse :: word :: wrapWords limit [] 0 rest
    else line.reverse :: wrapWords limit word.reverse (width word) rest
termination_by (words.flatten.length + words.length, line.length)
decreasing_by
  · simp only [Prod.lex_def, List.flatten_cons, List.length_append, List.length_cons]; omega
  · simp only [Prod.lex_def, List.flatten_cons, List.length_append, List.length_cons]; omega
  · exact Prod.Lex.right _ (List.length_pos_iff.mpr (‹line ≠ [] ∧ _›).1)
  · have hword : 0 < word.length := by
      refine List.length_pos_iff.mpr ?_
      rintro rfl
      exact absurd ‹limit < width []› (by simp)
    simp only [Prod.lex_def, List.flatten_cons, List.length_append, List.length_cons,
      List.length_drop, List.length_nil]
    cases line with
    | nil => have := share_nil_pos (limit - (used + (gapAfter []).length)) word; omega
    | cons c line => simp only [List.length_cons]; omega
  · simp only [Prod.lex_def, List.flatten_cons, List.length_append, List.length_cons]; omega
  · simp only [Prod.lex_def, List.flatten_cons, List.length_append, List.length_cons]; omega

/-- The lines of at most a number of columns that a text is cut into. -/
def wrap (limit : Nat) (text : List Char) : List (List Char) :=
  wrapWords limit [] 0 (pieces ' ' text)

end RuleBase.Text

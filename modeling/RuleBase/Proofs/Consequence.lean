import Mathlib.Data.List.Infix
import RuleBase.Consequence
import RuleBase.Text.Lines

/-!
# Reduced consequences

Comments end with their lines, so a consequence is reduced line by line: of each line, what stands
before its first comment is kept, without its blanks. Reducing once more need not leave it as it is:
two slashes that were apart may have come together, and then they start a comment. After that,
nothing is left to be reduced.

* **`normalize_eq`**: the reduced form, line by line;
* **`normalize_normalize`**: what is reduced once more; `normalize_slashes`: it need not stay.
-/

namespace RuleBase.Consequence

open Text

/-! ## Lines without comments -/

/-- What starts a comment. -/
def marker : List Char := ['/', '/']

/-- The part of a line before its first comment; all of the line if there is none. -/
def beforeComment (line : List Char) : List Char :=
  line.take (line.tails.findIdx marker.isPrefixOf)

theorem beforeComment_of_marker {line : List Char} (h : marker <+: line) :
    beforeComment line = [] := by
  cases line with
  | nil => rfl
  | cons c rest =>
    have hfirst : marker.isPrefixOf (c :: rest) = true := List.isPrefixOf_iff_prefix.mpr h
    rw [beforeComment, List.tails_cons, List.findIdx_cons, hfirst]
    rfl

theorem beforeComment_cons {c : Char} {rest : List Char} (h : ¬ marker <+: c :: rest) :
    beforeComment (c :: rest) = c :: beforeComment rest := by
  have hfirst : marker.isPrefixOf (c :: rest) = false := by
    rwa [Bool.eq_false_iff, ne_eq, List.isPrefixOf_iff_prefix]
  rw [beforeComment, List.tails_cons, List.findIdx_cons, hfirst]
  rfl

theorem beforeComment_prefix_self (line : List Char) : beforeComment line <+: line :=
  List.take_prefix _ line

theorem not_marker_infix_beforeComment (line : List Char) : ¬ marker <:+: beforeComment line := by
  induction line with
  | nil => decide
  | cons c rest ih =>
    by_cases h : marker <+: c :: rest
    · rw [beforeComment_of_marker h]
      decide
    · rw [beforeComment_cons h, List.infix_cons_iff, not_or]
      refine ⟨fun hstart => h (hstart.trans ?_), ih⟩
      exact List.cons_prefix_cons.mpr ⟨rfl, beforeComment_prefix_self rest⟩

theorem beforeComment_eq_self_iff {line : List Char} :
    beforeComment line = line ↔ ¬ marker <:+: line := by
  refine ⟨fun h => h ▸ not_marker_infix_beforeComment line, fun h => ?_⟩
  induction line with
  | nil => rfl
  | cons c rest ih =>
    rw [List.infix_cons_iff, not_or] at h
    rw [beforeComment_cons h.1, ih h.2]

/-! ## Texts without comments -/

theorem withoutComments_cons {c : Char} {rest : List Char} (h : ¬ marker <+: c :: rest) :
    withoutComments false (c :: rest) = c :: withoutComments false rest := by
  rw [withoutComments]
  rintro tail rfl rfl
  exact h (List.prefix_append marker tail)

/-- **A text without its comments is that of its lines**; from inside a comment on, the first line
is gone. -/
theorem withoutComments_eq (text : List Char) :
    withoutComments false text = unlines ((lines text).map beforeComment) ∧
      withoutComments true text = unlines ([] :: (lines text).tail.map beforeComment) := by
  induction text with
  | nil => exact ⟨rfl, rfl⟩
  | cons c rest ih =>
    obtain ⟨houtside, hinside⟩ := ih
    obtain ⟨line, others, hlines⟩ := exists_lines_eq rest
    by_cases hc : c = '\n'
    · have hrest : '\n' :: unlines ((lines rest).map beforeComment) =
          unlines ([] :: (lines rest).map beforeComment) := by
        rw [hlines]
        rfl
      rw [hc, lines_newline, withoutComments_cons (by simp [marker]), withoutComments, if_pos rfl,
        houtside, hrest]
      exact ⟨rfl, rfl⟩
    · have hcons := lines_cons hc hlines
      have hskip : withoutComments true (c :: rest) = withoutComments true rest := by
        rw [withoutComments, if_neg hc]
      have htail : (lines (c :: rest)).tail = (lines rest).tail := by rw [hcons, hlines]; rfl
      refine ⟨?_, by rw [hskip, hinside, htail]⟩
      have hfirst := prefix_line_iff (p := marker) (by decide) hcons
      by_cases hmarker : marker <+: c :: rest
      · -- the rest of the first line is skipped
        have hempty := beforeComment_of_marker (hfirst.mpr hmarker)
        obtain ⟨tail, htext⟩ := hmarker
        obtain ⟨rfl, rfl⟩ : c = '/' ∧ rest = '/' :: tail := by simpa [marker, eq_comm] using htext
        have hstart : withoutComments false ('/' :: '/' :: tail) =
            withoutComments true ('/' :: tail) := by simp [withoutComments]
        rw [hstart, hinside, hcons, hlines, List.map_cons, hempty, List.tail_cons]
      · rw [withoutComments_cons hmarker, houtside, hcons, hlines, List.map_cons, List.map_cons,
          beforeComment_cons (mt hfirst.mp hmarker), unlines_cons_cons]

/-! ## Reduced texts -/

theorem normalizeChars_eq (text : List Char) :
    normalizeChars text =
      (lines text).flatMap fun line => (beforeComment line).filter fun c => !isLayout c := by
  rw [normalizeChars, (withoutComments_eq text).1, filter_unlines rfl, List.flatMap_map]

theorem normalizeChars_append (a b : List Char) :
    normalizeChars (a ++ '\n' :: b) = normalizeChars a ++ normalizeChars b := by
  rw [normalizeChars_eq, normalizeChars_eq, normalizeChars_eq, lines_append, List.flatMap_append]

/-- **Consequences are reduced line by line.** Of each line, what stands before its first comment is
kept, without carriage returns, tabs and spaces; so it makes no difference whether texts are joined
by a line feed before or, without one, after they are reduced. -/
theorem normalize_eq (text : String) :
    normalize text = String.ofList ((lines text.toList).flatMap fun line =>
        (beforeComment line).filter fun c => c ∉ ['\r', '\t', ' ']) ∧
      ∀ a b : String, normalize (a ++ "\n" ++ b) = normalize a ++ normalize b := by
  refine ⟨?_, fun a b => ?_⟩
  · rw [normalize, normalizeChars_eq]
    refine congrArg String.ofList (List.flatMap_congr fun line hline => ?_)
    refine List.filter_congr fun c hc => ?_
    have hne : c ≠ '\n' := by
      rintro rfl
      exact newline_notMem hline ((beforeComment_prefix_self line).subset hc)
    rw [Bool.eq_iff_iff]
    simp [isLayout, hne, and_assoc]
  · have hjoined : (a ++ "\n" ++ b).toList = a.toList ++ '\n' :: b.toList := by simp
    rw [normalize, normalize, normalize, hjoined, normalizeChars_append, String.ofList_append]

/-! ## Reducing once more -/

theorem isLayout_eq_false (text : String) :
    ∀ c ∈ (normalize text).toList, isLayout c = false := by
  intro c hc
  rw [normalize, String.toList_ofList, normalizeChars] at hc
  simpa using (List.mem_filter.mp hc).2

theorem isLayout_iff {c : Char} : isLayout c = true ↔ c ∈ ['\n', '\r', '\t', ' '] := by
  simp [isLayout, or_assoc]

/-- A text without layout is one line, and all of it stays up to its first comment. -/
theorem normalize_of_plain {text : String} (h : ∀ c ∈ text.toList, isLayout c = false) :
    normalize text = String.ofList (beforeComment text.toList) := by
  have hline : '\n' ∉ text.toList := fun hmem => absurd (h '\n' hmem) (by decide)
  rw [normalize, normalizeChars_eq, lines_of_notMem hline, List.flatMap_singleton]
  refine congrArg String.ofList (List.filter_eq_self.mpr fun c hc => ?_)
  rw [h c ((beforeComment_prefix_self text.toList).subset hc), Bool.not_false]

/-- Two items stand side by side once others are dropped if nothing but such others was between
them. -/
theorem pair_infix_filter_iff {α : Type} {p : α → Bool} {x y : α} {l : List α} (hx : p x = true)
    (hy : p y = true) :
    [x, y] <:+: l.filter p ↔ ∃ before gap after,
      l = before ++ x :: (gap ++ y :: after) ∧ ∀ a ∈ gap, p a = false := by
  constructor
  · rintro ⟨start, rest, h⟩
    rw [eq_comm, List.append_assoc, List.filter_eq_append_iff] at h
    obtain ⟨front, l₁, rfl, -, h₁⟩ := h
    obtain ⟨skipped, l₂, rfl, -, -, h₂⟩ := List.filter_eq_cons_iff.mp h₁
    obtain ⟨gap, after, rfl, hgap, -, -⟩ := List.filter_eq_cons_iff.mp h₂
    exact ⟨front ++ skipped, gap, after, by simp, fun a ha => by simpa using hgap a ha⟩
  · rintro ⟨before, gap, after, rfl, hgap⟩
    have hnone : gap.filter p = [] := List.filter_eq_nil_iff.mpr fun a ha => by simp [hgap a ha]
    refine ⟨before.filter p, after.filter p, ?_⟩
    simp [hx, hy, hnone]

/-- **Slashes come together** where nothing but layout is between them outside of comments. -/
theorem marker_infix_normalizeChars_iff {text : List Char} :
    marker <:+: normalizeChars text ↔ ∃ before gap after,
      unlines ((lines text).map beforeComment) = before ++ '/' :: (gap ++ '/' :: after) ∧
        ∀ c ∈ gap, isLayout c = true := by
  rw [normalizeChars, (withoutComments_eq text).1]
  simpa [marker] using pair_infix_filter_iff (p := fun c => !isLayout c) (x := '/') (y := '/')
    (l := unlines ((lines text).map beforeComment)) rfl rfl

/-- **What is reduced twice** is the part of the reduced text before its first comment, and stays
from then on. A text that is reduced once stays unless there is a comment in it, which is the case
if two slashes had nothing but layout between them outside of comments. -/
theorem normalize_normalize (text : String) :
    (normalize (normalize text) = normalize text ↔ ¬ marker <:+: (normalize text).toList) ∧
      (marker <:+: (normalize text).toList ↔ ∃ before gap after,
        unlines ((lines text.toList).map beforeComment) = before ++ '/' :: (gap ++ '/' :: after) ∧
          ∀ c ∈ gap, c ∈ ['\n', '\r', '\t', ' ']) ∧
      normalize (normalize text) = String.ofList (beforeComment (normalize text).toList) ∧
      normalize (normalize (normalize text)) = normalize (normalize text) := by
  have htwice := normalize_of_plain (isLayout_eq_false text)
  refine ⟨?_, ?_, htwice, ?_⟩
  · rw [htwice, ← String.toList_inj, String.toList_ofList, beforeComment_eq_self_iff]
  · rw [normalize, String.toList_ofList, marker_infix_normalizeChars_iff]
    simp only [isLayout_iff]
  · rw [normalize_of_plain (isLayout_eq_false (normalize text)), htwice, String.toList_ofList,
      beforeComment_eq_self_iff.mpr (not_marker_infix_beforeComment _)]

/-- Two slashes come together, and start a comment. -/
theorem normalize_slashes :
    normalize "/ /x" = "//x" ∧ marker <:+: (normalize "/ /x").toList ∧
      normalize (normalize "/ /x") = "" ∧ normalize (normalize "/ /x") ≠ normalize "/ /x" := by
  decide

end RuleBase.Consequence

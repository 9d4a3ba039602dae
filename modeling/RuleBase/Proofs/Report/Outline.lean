import RuleBase.Proofs.Graph.Tree
import RuleBase.Report.Outline

/-!
# Lines of outlines

Every line but the first starts with a mark that tells of the way to its component: a bar or a gap
for each component above it, and a branch or a corner for itself.

* **`Report.outline_eq`**: an outline has one line for each component of a tree.
-/

namespace RuleBase.Report

open RuleBase.Graph

variable {g : Graph}

/-- What is left of the components below the end of a way: a bar where further children follow. -/
def margin (way : List Bool) : String :=
  String.join (way.map fun last => if last then "   " else "│  ")

/-- The mark of the component at the end of a way: a branch, or a corner for the last child. -/
def mark (way : List Bool) : String :=
  match way.getLast? with
  | none => ""
  | some last => margin way.dropLast ++ if last then "└─ " else "├─ "

/-- The line of a component that a way leads to. -/
def line (g : Graph) (e : List Bool × Component) : String := mark e.1 ++ describe g e.2

theorem margin_concat (way : List Bool) (last : Bool) :
    margin (way ++ [last]) = margin way ++ if last then "   " else "│  " := by
  simp [margin]

theorem mark_concat (way : List Bool) (last : Bool) :
    mark (way ++ [last]) = margin way ++ if last then "└─ " else "├─ " := by
  simp [mark]

mutual
theorem outlineLines_eq (way : List Bool) (first : String) (t : Tree) :
    outlineLines g first (margin way) t =
      (first ++ describe g t.component) :: (t.listing way).map (line g) := by
  cases t with
  | node c ts =>
    rw [outlineLines, Tree.listing, outlineChildren_eq way ts]
    rfl

theorem outlineChildren_eq (way : List Bool) (ts : List Tree) :
    outlineChildren g (margin way) ts = (listingAll way ts).map (line g) := by
  cases ts with
  | nil => rfl
  | cons t rest =>
    have hfirst : ∀ last, outlineLines g (mark (way ++ [last])) (margin (way ++ [last])) t =
        line g (way ++ [last], t.component) :: (t.listing (way ++ [last])).map (line g) :=
      fun last => outlineLines_eq (way ++ [last]) _ t
    rw [listingAll, List.map_cons, List.map_append, ← List.cons_append, ← hfirst,
      ← outlineChildren_eq way rest]
    cases rest with
    | nil => simp [outlineChildren, mark_concat, margin_concat]
    | cons t' rest => simp [outlineChildren, mark_concat, margin_concat]
end

/-- **An outline has one line for each component of a tree**, in the same order. -/
theorem outline_eq {id : ComponentId} {t : Tree} (h : g.tree? id = some t) :
    outline g id = String.join
      ((describe g t.component :: (t.listing []).map (line g)).map (· ++ "\n")) := by
  have hlines := outlineLines_eq (g := g) [] "" t
  rw [String.empty_append] at hlines
  rw [outline, h, ← hlines]
  rfl

end RuleBase.Report
